/-
Process slots are not recycled.

Exit leaves a zombie in the table, and the wait that finds it returns its status and leaves
it there too.  So a slot that was filled once is never unused again: the creations that
succeeded count the filled slots (`LivesInv`), and the sixty-fifth finds none, however few
processes are left (`proc_slots_used_up`).
-/
import BrightS.Kernel.Trap
import BrightS.Proofs.Proc

namespace BrightS

open Runs

/-! ### Creations, exits and waits -/

inductive LifeCall where
  | call (c : ProcCall)
  | wait (pid : Nat)

/-- The process table and its history: the pids created and not waited for since, the number of
creations that succeeded, and whether `spawnUser` or `fork` was one of them. -/
structure Lives where
  procs : ProcTable
  unfinished : List Nat
  created : Nat
  userCreated : Bool

def Lives.init (s₀ : ProcTable) : Lives :=
  { procs := procInit s₀, unfinished := [], created := 0, userCreated := false }

/-- The creations that scan the table for their slot. -/
def ProcCall.scans : ProcCall → Bool
  | .spawnUser .. => true
  | .fork .. => true
  | _ => false

def Lives.after (l : Lives) (c : ProcCall) (r : Spawned) : Lives where
  procs := r.procs
  unfinished := (r.slot.map fun slot => (r.procs.table slot).pid).toList ++ l.unfinished
  created := l.created + r.slot.toList.length
  userCreated := l.userCreated || (c.scans && r.slot.isSome)

/-- A call, or the round of `sys_wait` that returns; the rounds before it only yield. -/
inductive LifeStep (l : Lives) : LifeCall → Lives → Prop where
  | call {c : ProcCall} {r : Spawned} (hcall : l.procs.call c = some r) :
      LifeStep l (.call c) (l.after c r)
  | wait {pid : Nat} {sched : Sched} {t : Tasks} {v : Int}
      (hwait : sysWait 1 { procs := l.procs, sched := sched } pid = some (t, v)) :
      LifeStep l (.wait pid)
        { l with
          procs := t.procs
          unfinished := if (brightsProcGetByPid l.procs (pid % 2 ^ 32)).isSome then
            l.unfinished.erase (pid % 2 ^ 32) else l.unfinished }

/-- The search of a creation ends at a slot, and no process is there. -/
def FindsFreeSlot (s : ProcTable) : ProcCall → Prop
  | .spawnKernel _ => ∃ slot, procFindFreeSlot s = some slot ∧ (s.table slot).state = .unused
  | .spawnUser .. => ∃ slot, procFirstUnused s = some slot ∧ (s.table slot).state = .unused
  | .fork .. => ∃ slot, procFirstUnused s = some slot ∧ (s.table slot).state = .unused
  | _ => True

/-- Fewer than 64 creations have succeeded; for a kernel process, none of them by a scan. -/
def NeverFilled (l : Lives) : LifeCall → Prop
  | .call (.spawnKernel _) => l.created < procMax ∧ l.userCreated = false
  | .call (.spawnUser ..) => l.created < procMax
  | .call (.fork ..) => l.created < procMax
  | _ => True

/-! ### What one step does -/

theorem sysWait_procs {t t' : Tasks} {pid : Nat} {v : Int} (h : sysWait 1 t pid = some (t', v)) :
    t' = t := by
  unfold sysWait at h
  split at h
  · exact (Prod.mk.inj (Option.some.inj h)).1.symm
  · split at h
    · exact (Prod.mk.inj (Option.some.inj h)).1.symm
    · simp [sysWait] at h

/-- The filled slots are counted by the creations, and the marked ones by the creations before the
first one that scans. -/
def LivesInv (l : Lives) : Prop :=
  ∃ m, SlotsOk l.procs m l.created ∧ (m = l.created → Aligned l.procs l.created) ∧
    (l.userCreated = false ↔ m = l.created)

namespace LivesInv

variable {l l' : Lives}

theorem init (s₀ : ProcTable) : LivesInv (Lives.init s₀) :=
  ⟨0, slotsOk_init s₀, fun _ => aligned_init s₀, iff_of_true rfl rfl⟩

theorem spawnKernel (h : LivesInv l) {name : Option CStr} {r : Spawned}
    (hcall : procSpawnKernel l.procs name = some r) (huser : l.userCreated = false) :
    LivesInv (l.after (.spawnKernel name) r) := by
  obtain ⟨m, hslots, halign, hmn⟩ := h
  have hm := hmn.mp huser
  rcases (halign hm).spawnKernel name with hnone | ⟨s', hsome, -, -, halign'⟩
  · obtain rfl := Option.some.inj (hnone.symm.trans hcall)
    exact ⟨m, hslots, halign, by simpa [Lives.after] using hmn⟩
  · obtain rfl := Option.some.inj (hsome.symm.trans hcall)
    exact ⟨l.created + 1, halign'.slots, fun _ => halign',
      iff_of_true (by simpa [Lives.after, ProcCall.scans] using huser) rfl⟩

theorem scan (h : LivesInv l) {c : ProcCall} {r : Spawned} (hcall : l.procs.call c = some r)
    (hc : ∀ name, c ≠ .spawnKernel name) : LivesInv (l.after c r) := by
  obtain ⟨m, hslots, halign, hmn⟩ := h
  obtain ⟨r', hcall', hres⟩ := hslots.call_result hc
  obtain rfl := Option.some.inj (hcall'.symm.trans hcall)
  rcases hres with ⟨-, hslot, hslots', halign'⟩ | ⟨huser, hslot, hn, hcreated, -, hbits⟩
  · refine ⟨m, ?_, fun hm => ?_, ?_⟩
    · simpa [Lives.after, hslot] using hslots'
    · have := halign' (halign (by simpa [Lives.after, hslot] using hm))
      simpa [Lives.after, hslot] using this
    · simpa [Lives.after, hslot] using hmn
  · have hle := hslots.le
    have hscans : c.scans = true := by
      cases c with
      | spawnUser => rfl
      | fork => rfl
      | spawnKernel => exact absurd huser id
      | exit => exact absurd huser id
      | setCurrent => exact absurd huser id
    have hcount : (l.after c r').created = l.created + 1 := by simp [Lives.after, hslot]
    refine ⟨m, ?_, fun hm => ?_, ?_⟩
    · rw [hcount]
      exact hslots.created_unmarked hn hcreated hbits
    · omega
    · refine iff_of_false ?_ (by omega)
      simp [Lives.after, hslot, hscans]

theorem step (l : Lives) (c : LifeCall) (l' : Lives) (h : LivesInv l)
    (hstep : Guarded NeverFilled LifeStep l c l') : LivesInv l' := by
  obtain ⟨hguard, hstep⟩ := hstep
  cases hstep with
  | wait hwait =>
      obtain rfl := sysWait_procs hwait
      exact h
  | @call c r hcall =>
      by_cases hc : ∃ name, c = .spawnKernel name
      · obtain ⟨name, rfl⟩ := hc
        exact h.spawnKernel hcall hguard.2
      · exact h.scan hcall fun name hname => hc ⟨name, hname⟩

/-- The slot a search ends at is free as long as there is a slot that was never filled. -/
theorem findsFreeSlot_iff (h : LivesInv l) (c : ProcCall) :
    FindsFreeSlot l.procs c ↔ NeverFilled l (.call c) := by
  obtain ⟨m, hslots, -, hmn⟩ := h
  have hle := hslots.le
  have hin := hslots.inTable
  have hunused : ∀ i, i < procMax → ((l.procs.table i).state = .unused ↔ l.created ≤ i) := by
    intro i hi
    rw [← not_iff_not, ← Ne, hslots.filled i hi, not_le]
  have hscan : (∃ slot, procFirstUnused l.procs = some slot ∧
      (l.procs.table slot).state = .unused) ↔ l.created < procMax := by
    rw [hslots.firstUnused]
    constructor
    · rintro ⟨slot, hslot, -⟩
      by_contra hfull
      rw [if_neg hfull] at hslot
      simp at hslot
    · intro hroom
      exact ⟨l.created, by rw [if_pos hroom], (hunused _ hroom).mpr (le_refl _)⟩
  cases c with
  | spawnUser => exact hscan
  | fork => exact hscan
  | exit => exact Iff.rfl
  | setCurrent => exact Iff.rfl
  | spawnKernel name =>
      rw [FindsFreeSlot, NeverFilled, hslots.findFreeSlot, hmn]
      constructor
      · intro ⟨slot, hslot, hstate⟩
        by_cases hm : m < procMax
        · rw [if_pos hm, Option.some.injEq] at hslot
          subst hslot
          have := (hunused m hm).mp hstate
          omega
        · rw [if_neg hm] at hslot
          simp at hslot
      · intro ⟨hroom, hm⟩
        subst hm
        exact ⟨l.created, by rw [if_pos hroom], (hunused _ hroom).mpr (le_refl _)⟩

end LivesInv

/-! ### All slots, one process at a time -/

/-- At most 63 processes are alive, or ended and not waited for. -/
def FewUnfinished (l : Lives) (_ : LifeCall) : Prop := l.unfinished.length ≤ 63

/-- A scheduler without processes. -/
def idleSched : Sched :=
  { ticks := 0, dispatches := 0, pidToSlot := fun _ => 0, slotCount := 0, runnableBitmap := 0,
    currentSlot := 0, currentPid := 0, totalRunnable := 0, trapFrame := none,
    timesliceRemaining := schedQuantum, table := blankProcs.table, cr3 := 0, tssRsp0 := 0 }

/-- A kernel process is created, ends and is waited for; its slot stays filled. -/
theorem Lives.round {l : Lives} (ha : Aligned l.procs l.created) (hnone : l.unfinished = [])
    (hroom : l.created < procMax) :
    ∃ l₁ l₂ l₃, LifeStep l (.call (.spawnKernel none)) l₁ ∧
      LifeStep l₁ (.call (.exit (l.created + 1) 0 0)) l₂ ∧ LifeStep l₂ (.wait (l.created + 1)) l₃ ∧
      l₁.unfinished.length = 1 ∧ l₂.unfinished.length = 1 ∧ l₃.unfinished = [] ∧
      Aligned l₃.procs l₃.created ∧ l₃.created = l.created + 1 := by
  have hmax : procMax = 64 := rfl
  rcases ha.spawnKernel none with hfull | ⟨s₁, hcall, -, hcreated, ha₁⟩
  · -- The bitmap has a free slot, so the creation does not fail.
    have hslot : procFindFreeSlot l.procs = some l.created := by
      rw [ha.slots.findFreeSlot, if_pos hroom]
    have := procSpawnKernel_slot hslot hfull
    simp at this
  have hscan : procScan s₁ (l.created + 1) = some l.created := by
    rw [ha₁.scan, if_pos (by omega)]
    rfl
  let s₂ := (procExit s₁ (l.created + 1) 0 0).1
  have ha₂ : Aligned s₂ (l.created + 1) := ha₁.exit _ _ _
  have hzombie : (s₂.table l.created).state = .zombie := by
    simp [s₂, procExit, hscan, ProcTable.put]
  have hfound : brightsProcGetByPid s₂ ((l.created + 1) % 2 ^ 32) =
      some (s₂.table l.created) := by
    have hpid : (l.created + 1) % 2 ^ 32 = l.created + 1 := by omega
    unfold brightsProcGetByPid
    rw [hpid, if_neg (by omega), ha₂.scan, if_pos (by omega)]
    rfl
  have hpid : (s₁.table l.created).pid = l.created + 1 := by rw [hcreated.pid, ha.nextPid]
  let l₁ := l.after (.spawnKernel none) { procs := s₁, slot := some l.created }
  have hunfinished : l₁.unfinished = [l.created + 1] := by simp [l₁, Lives.after, hnone, hpid]
  let l₂ := l₁.after (.exit (l.created + 1) 0 0) { procs := s₂, slot := none }
  have hwait : sysWait 1 { procs := l₂.procs, sched := idleSched } (l.created + 1) =
      some ({ procs := l₂.procs, sched := idleSched },
        (BitVec.ofNat 64 (l.created + 1)).toInt) := by
    unfold sysWait
    rw [show l₂.procs = s₂ from rfl, hfound]
    simp [hzombie]
  refine ⟨l₁, l₂, _, .call hcall, .call rfl, .wait hwait, ?_, ?_, ?_, ?_, ?_⟩
  · rw [hunfinished, List.length_singleton]
  · rw [show l₂.unfinished = l₁.unfinished from rfl, hunfinished, List.length_singleton]
  · have hpid : (l.created + 1) % 2 ^ 32 = l.created + 1 := by omega
    show (if _ then _ else _) = _
    rw [show l₂.procs = s₂ from rfl, hfound, hpid, Option.isSome_some, if_pos rfl,
      show l₂.unfinished = l₁.unfinished from rfl, hunfinished, List.erase_cons_head]
  · exact ha₂
  · rfl

/-- All slots are filled in this way, one process at a time. -/
theorem Lives.rounds (k : Nat) : ∀ {l : Lives}, Aligned l.procs l.created → l.unfinished = [] →
    l.created + k ≤ procMax →
    ∃ calls l', Executes (Guarded FewUnfinished LifeStep) l calls l' ∧
      Aligned l'.procs l'.created ∧ l'.unfinished = [] ∧ l'.created = l.created + k := by
  induction k with
  | zero => exact fun ha hnone _ => ⟨[], _, .nil _, ha, hnone, rfl⟩
  | succ k ih =>
      intro l ha hnone hroom
      obtain ⟨l₁, l₂, l₃, h₁, h₂, h₃, hone, htwo, hnone', ha', hcount⟩ :=
        Lives.round ha hnone (by omega)
      obtain ⟨calls, l', hrun, hlast⟩ := ih ha' hnone' (by omega)
      have hfew : l.unfinished.length ≤ 63 := by rw [hnone]; exact Nat.zero_le _
      refine ⟨_, l', .cons ⟨hfew, h₁⟩ (.cons ⟨?_, h₂⟩ (.cons ⟨?_, h₃⟩ hrun)), hlast.1, hlast.2.1, ?_⟩
      · rw [FewUnfinished, hone]
        omega
      · rw [FewUnfinished, htwo]
        omega
      · rw [hlast.2.2, hcount]
        omega

/--
**A creation finds a free slot while there is one that was never filled.**  In every state a run
reaches in which the creations came before the sixty-fifth, and the kernel processes before the
first `spawnUser` or `fork`, the next creation finds a free slot exactly when it does so too; exits
and waits make no difference.
-/
theorem proc_slot_found_iff (s₀ : ProcTable) {calls : List LifeCall} {l : Lives}
    (hrun : Executes (Guarded NeverFilled LifeStep) (Lives.init s₀) calls l) (c : ProcCall) :
    FindsFreeSlot l.procs c ↔ NeverFilled l (.call c) :=
  (hrun.invariant LivesInv.step (LivesInv.init s₀)).findsFreeSlot_iff c

/-- A kernel process that has ended and was waited for, and then a fork. -/
theorem proc_slot_found_after_wait :
    ∃ l, Executes (Guarded NeverFilled LifeStep) (Lives.init blankProcs)
        [.call (.spawnKernel none), .call (.exit 1 0 0), .wait 1] l ∧
      (FindsFreeSlot l.procs (.fork 0 0) ↔ NeverFilled l (.call (.fork 0 0))) := by
  obtain ⟨l₁, l₂, l₃, h₁, h₂, h₃, -⟩ :=
    Lives.round (l := Lives.init blankProcs) (aligned_init blankProcs) rfl (by decide)
  have hrun : Executes (Guarded NeverFilled LifeStep) (Lives.init blankProcs)
      [.call (.spawnKernel none), .call (.exit 1 0 0), .wait 1] l₃ :=
    .cons ⟨⟨by decide, rfl⟩, h₁⟩ (.cons ⟨trivial, h₂⟩ (.cons ⟨trivial, h₃⟩ (.nil _)))
  exact ⟨l₃, hrun, proc_slot_found_iff blankProcs hrun _⟩

/-- Every process was waited for, and there is no slot for the next one. -/
theorem proc_slots_used_up :
    ¬ ∀ (s₀ : ProcTable) (calls : List LifeCall) (l : Lives) (c : ProcCall),
      Executes (Guarded FewUnfinished LifeStep) (Lives.init s₀) calls l →
        FewUnfinished l (.call c) → FindsFreeSlot l.procs c := by
  intro hall
  obtain ⟨calls, l, hrun, ha, hnone, hcount⟩ :=
    Lives.rounds (l := Lives.init blankProcs) 64 (aligned_init blankProcs) rfl (le_refl _)
  have hfew : FewUnfinished l (.call (.spawnKernel none)) := by
    rw [FewUnfinished, hnone]
    exact Nat.zero_le _
  obtain ⟨slot, hslot, -⟩ := hall blankProcs calls l (.spawnKernel none) hrun hfew
  rw [ha.slots.findFreeSlot, if_neg (by rw [hcount]; decide)] at hslot
  simp at hslot

end BrightS
