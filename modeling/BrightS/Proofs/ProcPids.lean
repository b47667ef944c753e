/-
Pids are unique.

Every creation takes its pid from one counter, a fork that fails included, and puts it
into the one entry it writes.  So every pid in use is below the counter and in use once
(`PidsInv`), until the counter wraps.

A kernel process with a pid of 256 or more is entered behind the end of `pidToIndex`.
Where that write lands is not known; `PidStep` leaves it open, as long as it is neither in
the process table nor in the counter.
-/
import BrightS.Proofs.Proc

namespace BrightS

open Runs

def ProcCall.creates : ProcCall → Bool
  | .spawnKernel _ => true
  | .spawnUser .. => true
  | .fork .. => true
  | _ => false

/-- A call, or the creation of a kernel process with a write behind the end of `pidToIndex`. -/
inductive PidStep (s : ProcTable) (c : ProcCall) (s' : ProcTable) : Prop where
  | defined (hstep : s.step c s')
  | stray (name : Option CStr) (slot : Nat) (hcall : c = .spawnKernel name)
      (hslot : procFindFreeSlot s = some slot) (hpid : pidIndexSize ≤ s.nextPid)
      (hcreated : Created s s' slot)

/-- The pids in use are below the counter, and in use once. -/
structure PidsInv (s : ProcTable) : Prop where
  counter : 0 < s.nextPid
  below : ∀ i, (s.table i).state ≠ .unused → 0 < (s.table i).pid ∧ (s.table i).pid < s.nextPid
  unique : ∀ i j, (s.table i).state ≠ .unused → (s.table j).state ≠ .unused →
    (s.table i).pid = (s.table j).pid → i = j

namespace PidsInv

variable {s s' : ProcTable}

theorem init (s₀ : ProcTable) : PidsInv (procInit s₀) :=
  ⟨Nat.one_pos, fun _ hi => absurd rfl hi, fun _ _ hi => absurd rfl hi⟩

/-- Calls that leave the pids alone. -/
theorem congr (h : PidsInv s) (hnext : s'.nextPid = s.nextPid)
    (hentry : ∀ i, (s'.table i).pid = (s.table i).pid ∧
      ((s'.table i).state = .unused ↔ (s.table i).state = .unused)) : PidsInv s' := by
  refine ⟨by rw [hnext]; exact h.counter, fun i hi => ?_, fun i j hi hj heq => ?_⟩
  · rw [(hentry i).1, hnext]
    exact h.below i (fun hu => hi ((hentry i).2.mpr hu))
  · rw [(hentry i).1, (hentry j).1] at heq
    exact h.unique i j (fun hu => hi ((hentry i).2.mpr hu)) (fun hu => hj ((hentry j).2.mpr hu)) heq

/-- One entry is written: it is unused afterwards, or has the pid that the counter offered. -/
theorem written (h : PidsInv s) {slot : Nat} (hroom : s.nextPid + 1 < 2 ^ 32)
    (hothers : ∀ j, j ≠ slot → s'.table j = s.table j)
    (hslot : (s'.table slot).state ≠ .unused → (s'.table slot).pid = s.nextPid)
    (hnext : s'.nextPid = (s.nextPid + 1) % 2 ^ 32) : PidsInv s' := by
  rw [Nat.mod_eq_of_lt hroom] at hnext
  have hcounter := h.counter
  have hold : ∀ i, i ≠ slot → (s'.table i).state ≠ .unused →
      0 < (s'.table i).pid ∧ (s'.table i).pid < s.nextPid := by
    intro i hi hused
    rw [hothers i hi] at hused ⊢
    exact h.below i hused
  refine ⟨by omega, fun i hused => ?_, fun i j hi hj heq => ?_⟩
  · by_cases hi : i = slot
    · subst hi
      rw [hslot hused]
      omega
    · have := hold i hi hused
      omega
  · by_cases his : i = slot
    · by_cases hjs : j = slot
      · rw [his, hjs]
      · subst his
        have := hold j hjs hj
        rw [hslot hi] at heq
        omega
    · by_cases hjs : j = slot
      · subst hjs
        have := hold i his hi
        rw [hslot hj] at heq
        omega
      · rw [hothers i his, hothers j hjs] at heq
        rw [hothers i his] at hi
        rw [hothers j hjs] at hj
        exact h.unique i j hi hj heq

theorem created (h : PidsInv s) {slot : Nat} (hroom : s.nextPid + 1 < 2 ^ 32)
    (hcreated : Created s s' slot) : PidsInv s' :=
  h.written hroom hcreated.others (fun _ => hcreated.pid) hcreated.nextPid

end PidsInv

/-- A call leaves the pids alone, or writes one entry and counts. -/
theorem ProcTable.step_pids {s s' : ProcTable} {c : ProcCall} (hstep : s.step c s') :
    (s'.nextPid = s.nextPid ∧ ∀ i, (s'.table i).pid = (s.table i).pid ∧
        ((s'.table i).state = .unused ↔ (s.table i).state = .unused)) ∨
      (c.creates = true ∧ s'.nextPid = (s.nextPid + 1) % 2 ^ 32 ∧
        ∃ slot, (∀ j, j ≠ slot → s'.table j = s.table j) ∧
          ((s'.table slot).state ≠ .unused → (s'.table slot).pid = s.nextPid)) := by
  obtain ⟨slot, hcall⟩ := hstep
  cases c with
  | spawnKernel name =>
      rcases procSpawnKernel_cases hcall with heq | ⟨s₁, slot₁, heq, hcreated⟩
      · obtain ⟨rfl, -⟩ := Spawned.mk.inj heq
        exact .inl ⟨rfl, fun i => ⟨rfl, Iff.rfl⟩⟩
      · obtain ⟨rfl, -⟩ := Spawned.mk.inj heq
        exact .inr ⟨rfl, hcreated.nextPid, slot₁, hcreated.others, fun _ => hcreated.pid⟩
  | spawnUser name entry stackTop cr3 kstackPage =>
      have hcall := Option.some.inj hcall
      rcases procSpawnUser_cases s name entry stackTop cr3 kstackPage with
        heq | ⟨s₁, slot₁, heq, -, hcreated⟩
      · obtain ⟨rfl, -⟩ := Spawned.mk.inj (heq.symm.trans hcall)
        exact .inl ⟨rfl, fun i => ⟨rfl, Iff.rfl⟩⟩
      · obtain ⟨rfl, -⟩ := Spawned.mk.inj (heq.symm.trans hcall)
        exact .inr ⟨rfl, hcreated.nextPid, slot₁, hcreated.others, fun _ => hcreated.pid⟩
  | fork cloneCr3 kstackPage =>
      have hcall := Option.some.inj hcall
      rcases procFork_cases s cloneCr3 kstackPage with
        heq | ⟨s₁, slot₁, -, ⟨heq, hothers, hunused, hnext⟩ | ⟨heq, hcreated⟩⟩
      · obtain ⟨rfl, -⟩ := Spawned.mk.inj (heq.symm.trans hcall)
        exact .inl ⟨rfl, fun i => ⟨rfl, Iff.rfl⟩⟩
      · obtain ⟨rfl, -⟩ := Spawned.mk.inj (heq.symm.trans hcall)
        exact .inr ⟨rfl, hnext, slot₁, hothers, fun hused => absurd hunused hused⟩
      · obtain ⟨rfl, -⟩ := Spawned.mk.inj (heq.symm.trans hcall)
        exact .inr ⟨rfl, hcreated.nextPid, slot₁, hcreated.others, fun _ => hcreated.pid⟩
  | exit pid exitCode kernelCr3 =>
      obtain ⟨rfl, -⟩ := Spawned.mk.inj (Option.some.inj hcall)
      obtain ⟨hentry, -, -, hnext⟩ := procExit_spec s pid exitCode kernelCr3
      exact .inl ⟨hnext, fun i => ⟨(hentry i).1, (hentry i).2.2⟩⟩
  | setCurrent pid =>
      obtain ⟨rfl, -⟩ := Spawned.mk.inj (Option.some.inj hcall)
      exact .inl ⟨rfl, fun i => ⟨rfl, Iff.rfl⟩⟩

/-- **One call keeps the pids unique**, while the counter has room. -/
theorem PidsInv.step {s s' : ProcTable} {c : ProcCall} (h : PidsInv s) (hstep : PidStep s c s')
    (hroom : s.nextPid + (if c.creates = true then 1 else 0) < 2 ^ 32) :
    PidsInv s' ∧ s'.nextPid ≤ s.nextPid + (if c.creates = true then 1 else 0) := by
  cases hstep with
  | stray name slot hcall hslot hpid hcreated =>
      have hcreates : c.creates = true := by rw [hcall]; rfl
      rw [if_pos hcreates] at hroom ⊢
      refine ⟨h.created hroom hcreated, ?_⟩
      rw [hcreated.nextPid, Nat.mod_eq_of_lt hroom]
  | defined hstep =>
      rcases ProcTable.step_pids hstep with ⟨hnext, hentry⟩ | ⟨hcreates, hnext, slot, hothers, hslot⟩
      · exact ⟨h.congr hnext hentry, by omega⟩
      · rw [if_pos hcreates] at hroom ⊢
        refine ⟨h.written hroom hothers hslot hnext, ?_⟩
        rw [hnext, Nat.mod_eq_of_lt hroom]

theorem PidsInv.run {s s' : ProcTable} {calls : List ProcCall} (hrun : Executes PidStep s calls s')
    (h : PidsInv s) (hroom : s.nextPid + calls.countP ProcCall.creates < 2 ^ 32) : PidsInv s' := by
  induction hrun with
  | nil => exact h
  | cons hstep _ ih =>
      rw [List.countP_cons] at hroom
      obtain ⟨hmid, hnext⟩ := h.step hstep (by omega)
      exact ih hmid (by omega)

/--
**Pids are unique.**  After `proc_init` and any sequence of fewer than 2^32 - 1 creations, and any
exits, the pids of the entries in use are not zero and pairwise distinct.
-/
theorem proc_pids_unique (s₀ : ProcTable) {calls : List ProcCall} {s : ProcTable}
    (hrun : Executes PidStep (procInit s₀) calls s)
    (hfew : calls.countP ProcCall.creates < 2 ^ 32 - 1) :
    (∀ i, (s.table i).state ≠ .unused → (s.table i).pid ≠ 0) ∧
      ∀ i j, (s.table i).state ≠ .unused → (s.table j).state ≠ .unused →
        (s.table i).pid = (s.table j).pid → i = j := by
  have hinv : PidsInv s := by
    refine PidsInv.run hrun (PidsInv.init s₀) ?_
    show 1 + calls.countP ProcCall.creates < 2 ^ 32
    omega
  exact ⟨fun i hi => Nat.ne_of_gt (hinv.below i hi).1, hinv.unique⟩

/-- A kernel process, a user process and an exit. -/
theorem proc_pids_unique_two :
    ∃ s, Executes PidStep (procInit blankProcs)
        [.spawnKernel none, .spawnUser none 0x400000 0x7ff000 0x200000 0x300000, .exit 1 0 0] s ∧
      (∀ i, (s.table i).state ≠ .unused → (s.table i).pid ≠ 0) ∧
      ∀ i j, (s.table i).state ≠ .unused → (s.table j).state ≠ .unused →
        (s.table i).pid = (s.table j).pid → i = j := by
  have hrun : Executes PidStep (procInit blankProcs)
      [.spawnKernel none, .spawnUser none 0x400000 0x7ff000 0x200000 0x300000, .exit 1 0 0] _ :=
    .cons (.defined (ProcTable.step_get (by decide)))
      (.cons (.defined (ProcTable.step_get (by rfl)))
        (.cons (.defined (ProcTable.step_get (by rfl))) (.nil _)))
  exact ⟨_, hrun, proc_pids_unique blankProcs hrun (by decide)⟩

end BrightS
