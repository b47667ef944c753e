/-
Adding a process to the scheduler twice.

Slots hold table indexes, and the test whether a process was added already looks for its pid
among them.  As long as the slots differ from each other (`Distinct`), that test is right for
a pid exactly when the number occurs as an index just in case the process has a slot
(`PidAgrees`); a removal keeps the slots different whatever it removes.
-/
import BrightS.Proofs.Sched

namespace BrightS

open Runs

/-- The table entry of the process with this pid. -/
def entryOf (s : Sched) (pid : Nat) : Option Nat :=
  (List.range schedMaxProc).find? fun i => (s.table i).pid == pid

/-- Some process has this pid. -/
def LivePid (s : Sched) (pid : Nat) : Prop := pid ≠ 0 ∧ (entryOf s pid).isSome

/-- No two slots refer to the same table entry. -/
def Distinct (s : Sched) : Prop :=
  ∀ a b, a < s.slotCount → b < s.slotCount → s.pidToSlot a = s.pidToSlot b → a = b

/-- The process has been added already. -/
def Registered (s : Sched) (pid : Nat) : Prop := ∃ idx, entryOf s pid = some idx ∧ HasSlot s idx

/-- After a success one slot refers to the entry of the process, and a process that was added
already changes nothing. -/
def AddLaw (s : Sched) (pid : Nat) : Prop :=
  ((schedAddProcess s pid).2 = 0 → ∃ idx, entryOf s pid = some idx ∧
    ∃! slot, slot < (schedAddProcess s pid).1.slotCount ∧
      (schedAddProcess s pid).1.pidToSlot slot = idx) ∧
  (Registered s pid → (schedAddProcess s pid).1 = s)

inductive MemberCall where
  | add (pid : Nat)
  | remove (pid : Nat)

def MemberCall.pid : MemberCall → Nat
  | .add pid => pid
  | .remove pid => pid

def Sched.member (s : Sched) : MemberCall → Sched × Int
  | .add pid => schedAddProcess s pid
  | .remove pid => schedRemoveProcess s pid

/-- A call with the pid of a process. -/
def Sched.memberStep (s : Sched) (c : MemberCall) (s' : Sched) : Prop :=
  LivePid s c.pid ∧ s' = (s.member c).1

/-- While there is a free slot, the pid read as an index has a slot exactly when the process
has. -/
def PidAgrees (s : Sched) : MemberCall → Prop
  | .add pid => s.slotCount < schedMaxProc → (HasSlot s pid ↔ Registered s pid)
  | .remove _ => True

section Members

variable {s : Sched} {pid idx : Nat}

theorem any_slot_iff :
    ((List.range s.slotCount).any fun i => s.pidToSlot i == pid) = true ↔ HasSlot s pid := by
  simp [HasSlot]

theorem Distinct.existsUnique (h : Distinct s) (hidx : HasSlot s idx) :
    ∃! slot, slot < s.slotCount ∧ s.pidToSlot slot = idx := by
  obtain ⟨slot, hlt, hslot⟩ := hidx
  refine ⟨slot, ⟨hlt, hslot⟩, ?_⟩
  rintro other ⟨hother, heq⟩
  exact h other slot hother hlt (heq.trans hslot.symm)

/-- A full table. -/
theorem schedAddProcess_full (hfull : schedMaxProc ≤ s.slotCount) (pid : Nat) :
    schedAddProcess s pid = (s, -1) := if_pos (.inr hfull)

/-- The number is found among the indexes. -/
theorem schedAddProcess_found (hpid : pid ≠ 0) (hroom : s.slotCount < schedMaxProc)
    (hslot : HasSlot s pid) : schedAddProcess s pid = (s, 0) := by
  rw [schedAddProcess, if_neg (by omega), if_pos (any_slot_iff.mpr hslot)]

/-- The entry of the process gets the next slot. -/
theorem schedAddProcess_new (hpid : pid ≠ 0) (hroom : s.slotCount < schedMaxProc)
    (hslot : ¬ HasSlot s pid) (hidx : entryOf s pid = some idx) :
    (schedAddProcess s pid).2 = 0 ∧
      (schedAddProcess s pid).1.slotCount = s.slotCount + 1 ∧
      (schedAddProcess s pid).1.pidToSlot = Function.update s.pidToSlot s.slotCount idx ∧
      (schedAddProcess s pid).1.table = s.table := by
  unfold entryOf at hidx
  rw [schedAddProcess, if_neg (by omega), if_neg (fun h => hslot (any_slot_iff.mp h)), hidx]
  exact ⟨rfl, rfl, rfl, rfl⟩

/-- The slots stay different when the new process has none yet. -/
theorem Distinct.snoc (h : Distinct s) {s' : Sched} (hcount : s'.slotCount = s.slotCount + 1)
    (hslots : s'.pidToSlot = Function.update s.pidToSlot s.slotCount idx)
    (hnew : ¬ HasSlot s idx) : Distinct s' := by
  intro a b ha hb heq
  rw [hcount] at ha hb
  rw [hslots] at heq
  by_cases hat : a = s.slotCount
  · by_cases hbt : b = s.slotCount
    · omega
    · rw [hat, Function.update_self, Function.update_of_ne hbt] at heq
      exact absurd ⟨b, by omega, heq.symm⟩ hnew
  · by_cases hbt : b = s.slotCount
    · rw [hbt, Function.update_self, Function.update_of_ne hat] at heq
      exact absurd ⟨a, by omega, heq⟩ hnew
    · rw [Function.update_of_ne hat, Function.update_of_ne hbt] at heq
      exact h a b (by omega) (by omega) heq

/-- An addition that agrees keeps the slots different. -/
theorem Distinct.add (h : Distinct s) (hlive : LivePid s pid) (hagrees : PidAgrees s (.add pid)) :
    Distinct (schedAddProcess s pid).1 := by
  obtain ⟨hpid, hentry⟩ := hlive
  obtain ⟨idx, hidx⟩ := Option.isSome_iff_exists.mp hentry
  by_cases hroom : s.slotCount < schedMaxProc
  · by_cases hslot : HasSlot s pid
    · rw [schedAddProcess_found hpid hroom hslot]
      exact h
    · obtain ⟨-, hcount, hslots, -⟩ := schedAddProcess_new hpid hroom hslot hidx
      refine h.snoc hcount hslots fun hold => hslot ?_
      exact (hagrees hroom).mpr ⟨idx, hidx, hold⟩
  · rw [schedAddProcess_full (by omega) pid]
    exact h

/-- A removal moves slots down, and they stay different. -/
theorem Distinct.remove (h : Distinct s) (pid : Nat) : Distinct (schedRemoveProcess s pid).1 := by
  unfold schedRemoveProcess
  split
  · exact h
  · rename_i i hslot
    intro a b ha hb heq
    dsimp only at ha hb heq
    split at heq
    · split at heq
      · have := h _ _ (by omega) (by omega) heq
        omega
      · have := h _ _ (by omega) (by omega) heq
        omega
    · split at heq
      · have := h _ _ (by omega) (by omega) heq
        omega
      · exact h a b (by omega) (by omega) heq

/-- While the slots differ the law holds of a pid exactly when it agrees. -/
theorem Distinct.addLaw_iff (h : Distinct s) (hlive : LivePid s pid) :
    AddLaw s pid ↔ PidAgrees s (.add pid) := by
  obtain ⟨hpid, hentry⟩ := hlive
  obtain ⟨idx, hidx⟩ := Option.isSome_iff_exists.mp hentry
  by_cases hroom : s.slotCount < schedMaxProc
  · by_cases hslot : HasSlot s pid
    · have hsame := schedAddProcess_found hpid hroom hslot
      unfold AddLaw
      rw [hsame]
      constructor
      · rintro ⟨hone, -⟩ -
        obtain ⟨idx', hidx', slot, hat, -⟩ := hone rfl
        exact ⟨fun _ => ⟨idx', hidx', slot, hat⟩, fun _ => hslot⟩
      · intro hagrees
        obtain ⟨idx', hidx', hhas⟩ := (hagrees hroom).mp hslot
        exact ⟨fun _ => ⟨idx', hidx', h.existsUnique hhas⟩, fun _ => rfl⟩
    · obtain ⟨hret, hcount, hslots, htable⟩ := schedAddProcess_new hpid hroom hslot hidx
      constructor
      · rintro ⟨-, hsame⟩ -
        refine ⟨fun hbad => absurd hbad hslot, fun hreg => ?_⟩
        have hmore := congrArg Sched.slotCount (hsame hreg)
        omega
      · intro hagrees
        have hnot : ¬ Registered s pid := fun hreg => hslot ((hagrees hroom).mpr hreg)
        refine ⟨fun _ => ⟨idx, hidx, ?_⟩, fun hreg => absurd hreg hnot⟩
        have hdistinct := h.snoc hcount hslots fun hold => hnot ⟨idx, hidx, hold⟩
        refine hdistinct.existsUnique ⟨s.slotCount, by omega, ?_⟩
        rw [hslots, Function.update_self]
  · have hfull := schedAddProcess_full (show schedMaxProc ≤ s.slotCount by omega) pid
    unfold AddLaw
    rw [hfull]
    have hfails : ¬ (-1 : Int) = 0 := by decide
    exact ⟨fun _ hlt => absurd hlt hroom, fun _ => ⟨fun hbad => absurd hbad hfails, fun _ => rfl⟩⟩

end Members

/--
**Adding is idempotent as long as pids and indexes agree.**  In every state that additions and
removals of processes reach, each addition agreeing, the next addition takes one slot for the
entry of its process and changes nothing for a process that has one, exactly when it agrees too.
-/
theorem sched_add_law_iff (s₀ : Sched) {calls : List MemberCall} {s : Sched}
    (hrun : Executes (Guarded PidAgrees Sched.memberStep) (schedInit s₀) calls s) {pid : Nat}
    (hlive : LivePid s pid) : AddLaw s pid ↔ PidAgrees s (.add pid) := by
  have hdistinct : Distinct s := by
    refine hrun.invariant (P := Distinct) (fun s c s' h hstep => ?_)
      (fun a b ha => absurd ha (Nat.not_lt_zero a))
    obtain ⟨hagrees, hpid, rfl⟩ := hstep
    cases c with
    | add pid => exact h.add hpid hagrees
    | remove pid => exact h.remove pid
  exact hdistinct.addLaw_iff hlive

theorem threeProcs_live {pid : Nat} (hlo : pid = 1 ∨ pid = 2) (s : Sched)
    (htable : s.table = threeProcs.table) : LivePid s pid := by
  refine ⟨by omega, ?_⟩
  unfold entryOf
  rw [htable]
  rcases hlo with rfl | rfl
  · decide +kernel
  · decide +kernel

/-- The first process has entry 0.  After the second, in entry 1, was added the number 1 is among
the indexes, and adding the first process succeeds without giving it a slot; added in the other
order, the first process gets a second slot. -/
theorem sched_add_confuses_pid :
    (∃ s, Executes Sched.memberStep (schedInit threeProcs) [.add 2] s ∧ LivePid s 1 ∧
      (schedAddProcess s 1).2 = 0 ∧ entryOf s 1 = some 0 ∧
      ¬ HasSlot (schedAddProcess s 1).1 0 ∧ ¬ AddLaw s 1) ∧
    ∃ s, Executes Sched.memberStep (schedInit threeProcs) [.add 1] s ∧ Registered s 1 ∧
      (schedAddProcess s 1).1.slotCount = 2 ∧ (schedAddProcess s 1).1 ≠ s := by
  have hsecond : LivePid (schedInit threeProcs) 2 := threeProcs_live (.inr rfl) _ rfl
  have hfirst : LivePid (schedInit threeProcs) 1 := threeProcs_live (.inl rfl) _ rfl
  have hret : (schedAddProcess (schedAddProcess (schedInit threeProcs) 2).1 1).2 = 0 := by
    decide +kernel
  have hentry : entryOf (schedAddProcess (schedInit threeProcs) 2).1 1 = some 0 := by
    decide +kernel
  have hnone :
      ¬ HasSlot (schedAddProcess (schedAddProcess (schedInit threeProcs) 2).1 1).1 0 := by
    rintro ⟨slot, hlt, hslot⟩
    have hcount : (schedAddProcess (schedAddProcess (schedInit threeProcs) 2).1 1).1.slotCount = 1 := by
      decide +kernel
    obtain rfl : slot = 0 := by omega
    exact absurd hslot (by decide +kernel)
  refine ⟨⟨_, .cons ⟨hsecond, rfl⟩ (.nil _), threeProcs_live (.inl rfl) _ ?_, hret, hentry, hnone, ?_⟩,
    _, .cons ⟨hfirst, rfl⟩ (.nil _), ⟨0, by decide +kernel, 0, by decide +kernel, by decide +kernel⟩,
    by decide +kernel, ?_⟩
  · rfl
  · rintro ⟨hone, -⟩
    obtain ⟨idx, hidx, slot, hat, -⟩ := hone hret
    obtain rfl : 0 = idx := Option.some.inj (hentry.symm.trans hidx)
    exact hnone ⟨slot, hat⟩
  · intro hsame
    have hcount := congrArg Sched.slotCount hsame
    exact absurd hcount (by decide +kernel)

/-- Two processes are added, and then the first one again: it has its slot, and keeps it. -/
theorem sched_add_law_again :
    ∃ s, Executes (Guarded PidAgrees Sched.memberStep) (schedInit threeProcs) [.add 1, .add 2] s ∧
      s.slotCount = 2 ∧ Registered s 1 ∧ AddLaw s 1 ∧ (schedAddProcess s 1).1 = s := by
  have hfirst : LivePid (schedInit threeProcs) 1 := threeProcs_live (.inl rfl) _ rfl
  have hsecond : LivePid (schedAddProcess (schedInit threeProcs) 1).1 2 :=
    threeProcs_live (.inr rfl) _ rfl
  have hempty : ∀ idx, ¬ HasSlot (schedInit threeProcs) idx := by
    rintro idx ⟨slot, hlt, -⟩
    exact Nat.not_lt_zero slot hlt
  obtain ⟨hcount, hslot, hentry, hcount', hslot', hslot'', hentry'⟩ :
      (schedAddProcess (schedInit threeProcs) 1).1.slotCount = 1 ∧
      (schedAddProcess (schedInit threeProcs) 1).1.pidToSlot 0 = 0 ∧
      entryOf (schedAddProcess (schedInit threeProcs) 1).1 2 = some 1 ∧
      (schedAddProcess (schedAddProcess (schedInit threeProcs) 1).1 2).1.slotCount = 2 ∧
      (schedAddProcess (schedAddProcess (schedInit threeProcs) 1).1 2).1.pidToSlot 0 = 0 ∧
      (schedAddProcess (schedAddProcess (schedInit threeProcs) 1).1 2).1.pidToSlot 1 = 1 ∧
      entryOf (schedAddProcess (schedAddProcess (schedInit threeProcs) 1).1 2).1 1 = some 0 := by
    decide +kernel
  have honly : ∀ idx, HasSlot (schedAddProcess (schedInit threeProcs) 1).1 idx → idx = 0 := by
    rintro idx ⟨slot, hlt, rfl⟩
    obtain rfl : slot = 0 := by omega
    exact hslot
  have hrun : Executes (Guarded PidAgrees Sched.memberStep) (schedInit threeProcs)
      [.add 1, .add 2] (schedAddProcess (schedAddProcess (schedInit threeProcs) 1).1 2).1 := by
    refine .cons ⟨fun _ => iff_of_false (hempty 1) fun ⟨idx, _, h⟩ => hempty idx h, hfirst, rfl⟩
      (.cons ⟨fun _ => iff_of_false (fun h => ?_) fun ⟨idx, hidx, h⟩ => ?_, hsecond, rfl⟩ (.nil _))
    · exact absurd (honly 2 h) (by decide)
    · obtain rfl : 1 = idx := Option.some.inj (hentry.symm.trans hidx)
      exact absurd (honly 1 h) (by decide)
  have hreg : Registered (schedAddProcess (schedAddProcess (schedInit threeProcs) 1).1 2).1 1 :=
    ⟨0, hentry', 0, by omega, hslot'⟩
  have hlaw := (sched_add_law_iff threeProcs hrun (threeProcs_live (.inl rfl) _ rfl)).mpr
    fun _ => iff_of_true ⟨1, hcount'.symm ▸ Nat.lt_succ_self 1, hslot''⟩ hreg
  exact ⟨_, hrun, hcount', hreg, hlaw, hlaw.2 hreg⟩

end BrightS
