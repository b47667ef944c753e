/-
Exited processes and the scheduler, over runs.

Exit turns the process into a zombie and leaves its scheduler slot as it is.  The
switches look at the slots only, and write the state of whatever they find there: a
zombie that has a slot is made running again when its turn comes
(`task_runs_after_exit`).  `OffSchedule` keeps exits to processes without a slot.
-/
import BrightS.Proofs.Proc
import BrightS.Proofs.Sched
import BrightS.Kernel.Tasks

namespace BrightS

open Runs Words

/-! ### Runs -/

inductive TaskCall where
  | spawnKernel (name : Option CStr)
  | spawnUser (name : Option CStr) (entry stackTop cr3 kstackPage : Nat)
  | fork (cloneCr3 kstackPage : Nat)
  | setCurrent (pid : Nat)
  | addProcess (pid : Nat)
  | removeProcess (pid : Nat)
  | setTrapFrame (tf : Option ProcCtx)
  | schedule
  | yield
  | tick
  | sysExit (status : Int) (kernelCr3 : Nat)

/-- The kernel, the entries whose process has exited, and the entry that the last call
selected to run. -/
structure TaskRun where
  tasks : Tasks
  exited : Set Nat
  selected : Option Nat

/-- A new process, if there is one, has not exited. -/
def TaskRun.spawned (r : TaskRun) (res : Spawned) : TaskRun where
  tasks := r.tasks.afterProcs res.procs
  exited := {i ∈ r.exited | res.slot ≠ some i}
  selected := none

def TaskRun.next (r : TaskRun) : TaskCall → Option TaskRun
  | .spawnKernel name => (procSpawnKernel r.tasks.procs name).map r.spawned
  | .spawnUser name entry stackTop cr3 kstackPage =>
      some (r.spawned (procSpawnUser r.tasks.procs name entry stackTop cr3 kstackPage))
  | .fork cloneCr3 kstackPage => some (r.spawned (procFork r.tasks.procs cloneCr3 kstackPage))
  | .setCurrent pid =>
      some { r with tasks := r.tasks.afterProcs (procSetCurrent r.tasks.procs pid), selected := none }
  | .addProcess pid =>
      some { r with
        tasks := r.tasks.afterSched (schedAddProcess r.tasks.sched pid).1, selected := none }
  | .removeProcess pid =>
      some { r with
        tasks := r.tasks.afterSched (schedRemoveProcess r.tasks.sched pid).1, selected := none }
  | .setTrapFrame tf =>
      some { r with tasks := r.tasks.afterSched (schedSetTrapFrame r.tasks.sched tf), selected := none }
  | .schedule =>
      some { r with
        tasks := r.tasks.afterSched (schedSchedule r.tasks.sched).1
        selected := scheduleChoice r.tasks.sched }
  | .yield =>
      some { r with
        tasks := r.tasks.afterSched (schedYield r.tasks.sched).1
        selected := yieldChoice r.tasks.sched }
  | .tick =>
      some { r with
        tasks := r.tasks.afterSched (schedTick r.tasks.sched)
        selected := tickChoice r.tasks.sched }
  | .sysExit status kernelCr3 =>
      some {
        tasks := sysExit r.tasks status kernelCr3
        exited := r.exited ∪ {i | r.tasks.procs.currentPid ≠ 0 ∧
          procScan r.tasks.procs r.tasks.procs.currentPid = some i}
        selected := yieldChoice (tasksExit r.tasks status kernelCr3).sched }

def TaskRun.step (r : TaskRun) (c : TaskCall) (r' : TaskRun) : Prop := r.next c = some r'

/-- The system after `proc_init` and `sched_init`. -/
def TaskRun.init (t : Tasks) : TaskRun where
  tasks := ({ t with sched := schedInit t.sched } : Tasks).afterProcs (procInit t.procs)
  exited := ∅
  selected := none

/-- No process that has exited is running, and the last call selected none. -/
def ExitedRest (r : TaskRun) : Prop :=
  ∀ i ∈ r.exited, (r.tasks.procs.table i).state ≠ .running ∧ r.selected ≠ some i

/-- Only processes without a scheduler slot exit, and no zombie is given one. -/
def OffSchedule (r : TaskRun) : TaskCall → Prop
  | .sysExit _ _ => ∀ i, procScan r.tasks.procs r.tasks.procs.currentPid = some i →
      ¬ HasSlot r.tasks.sched i
  | .addProcess pid => ∀ i,
      ((List.range schedMaxProc).find? fun i => (r.tasks.sched.table i).pid == pid) = some i →
      (r.tasks.sched.table i).state ≠ .zombie
  | _ => True

/-! ### Switching touches the processes that have a slot -/

/-- The slots are the same, and so are the entries without a slot. -/
structure TouchesSlots (s s' : Sched) : Prop where
  slots : SameSlots s s'
  others : ∀ i, ¬ HasSlot s i → s'.table i = s.table i

namespace TouchesSlots

variable {s s' s'' : Sched}

theorem of_table (hslots : SameSlots s s') (htable : s'.table = s.table) : TouchesSlots s s' :=
  ⟨hslots, fun i _ => by rw [htable]⟩

theorem hasSlot_iff (hslots : SameSlots s s') (i : Nat) : HasSlot s' i ↔ HasSlot s i := by
  unfold HasSlot
  rw [hslots.slotCount, hslots.pidToSlot]

theorem trans (h : TouchesSlots s s') (h' : TouchesSlots s' s'') : TouchesSlots s s'' := by
  refine ⟨h.slots.trans h'.slots, fun i hi => ?_⟩
  have hi' : ¬ HasSlot s' i := fun hslot => hi ((hasSlot_iff h.slots i).mp hslot)
  exact (h'.others i hi').trans (h.others i hi)

theorem hasSlot_of_get {slot idx : Nat} (hget : getProcBySlot s slot = some idx) :
    HasSlot s idx := by
  unfold getProcBySlot at hget
  split at hget
  · exact absurd hget (by simp)
  · rename_i hlt
    exact ⟨slot, by omega, Option.some.inj hget⟩

theorem put {slot idx : Nat} (hget : getProcBySlot s slot = some idx) (p : ProcInfo) :
    TouchesSlots s (s.put idx p) := by
  refine ⟨SameSlots.put s idx p, fun i hi => ?_⟩
  have hne : i ≠ idx := fun heq => hi (heq ▸ hasSlot_of_get hget)
  exact Function.update_of_ne hne _ _

theorem dispatch {slot idx : Nat} (hget : getProcBySlot s slot = some idx) (next : Nat) :
    TouchesSlots s (schedDispatch s next idx) := by
  refine ⟨SameSlots.dispatch s next idx, fun i hi => ?_⟩
  have hne : i ≠ idx := fun heq => hi (heq ▸ hasSlot_of_get hget)
  exact Function.update_of_ne hne _ _

theorem schedule (s : Sched) : TouchesSlots s (schedSchedule s).1 := by
  unfold schedSchedule
  split
  · exact of_table ⟨rfl, rfl, rfl, rfl⟩ rfl
  · split
    · exact of_table ⟨rfl, rfl, rfl, rfl⟩ rfl
    · split
      · exact of_table ⟨rfl, rfl, rfl, rfl⟩ rfl
      · rename_i hget
        exact dispatch hget _

theorem save (s : Sched) (slot : Nat) : TouchesSlots s (saveContext s slot) := by
  unfold saveContext
  split
  · rename_i hget _
    exact put hget _
  · exact of_table (SameSlots.refl s) rfl

theorem restore (s : Sched) (slot : Nat) : TouchesSlots s (restoreContext s slot) := by
  refine of_table (SameSlots.restore s slot) ?_
  unfold restoreContext
  split
  · rfl
  · rfl

theorem preempt (s : Sched) : TouchesSlots s (schedPreempt s) := by
  unfold schedPreempt
  split
  · rename_i hget
    split
    · exact put hget _
    · exact of_table (SameSlots.refl s) rfl
  · exact of_table (SameSlots.refl s) rfl

theorem yield (s : Sched) : TouchesSlots s (schedYield s).1 := by
  unfold schedYield
  split
  · exact of_table (SameSlots.refl s) rfl
  · have hsave := (save s s.currentSlot).trans (preempt _)
    dsimp only
    split
    · exact hsave
    · split
      · exact hsave
      · rename_i hget
        exact hsave.trans ((dispatch hget _).trans (restore _ _))

theorem tick (s : Sched) : TouchesSlots s (schedTick s) := by
  refine ⟨SameSlots.tick s, fun i hi => ?_⟩
  unfold schedTick
  dsimp only
  split
  · split
    · exact (yield { s with
        ticks := (s.ticks + 1) % 2 ^ 64
        timesliceRemaining := (s.timesliceRemaining + (2 ^ 32 - 1)) % 2 ^ 32 }).others i hi
    · rfl
  · rfl

end TouchesSlots

/-- What is selected has a slot. -/
theorem hasSlot_of_bind {s : Sched} {start idx : Nat}
    (hpick : (findNextRunnable s start).bind (getProcBySlot s) = some idx) : HasSlot s idx := by
  obtain ⟨slot, -, hget⟩ := Option.bind_eq_some_iff.mp hpick
  exact TouchesSlots.hasSlot_of_get hget

theorem scheduleChoice_hasSlot {s : Sched} {idx : Nat} (hpick : scheduleChoice s = some idx) :
    HasSlot s idx := by
  unfold scheduleChoice at hpick
  split at hpick
  · exact absurd hpick (by simp)
  · exact hasSlot_of_bind hpick

theorem yieldChoice_hasSlot {s : Sched} {idx : Nat} (hpick : yieldChoice s = some idx) :
    HasSlot s idx := by
  unfold yieldChoice at hpick
  split at hpick
  · exact absurd hpick (by simp)
  · exact hasSlot_of_bind hpick

theorem tickChoice_hasSlot {s : Sched} {idx : Nat} (hpick : tickChoice s = some idx) :
    HasSlot s idx := by
  unfold tickChoice at hpick
  split at hpick
  · exact yieldChoice_hasSlot hpick
  · exact absurd hpick (by simp)

/-- The choice is the process that the yield makes the running one. -/
theorem schedYield_choice (s : Sched) :
    ((schedYield s).2 = 0 ↔ (yieldChoice s).isSome) ∧
      ∀ idx, yieldChoice s = some idx → ((schedYield s).1.table idx).state = .running := by
  have hslots : SameSlots s (schedPreempt (saveContext s s.currentSlot)) :=
    (SameSlots.save s s.currentSlot).trans (SameSlots.preempt _)
  have hcur : (schedPreempt (saveContext s s.currentSlot)).currentSlot = s.currentSlot := by
    have hsave : (saveContext s s.currentSlot).currentSlot = s.currentSlot := by
      unfold saveContext
      split <;> rfl
    unfold schedPreempt
    split
    · split
      · exact hsave
      · exact hsave
    · exact hsave
  have hfind : ∀ start, findNextRunnable (schedPreempt (saveContext s s.currentSlot)) start =
      findNextRunnable s start := by
    intro start
    unfold findNextRunnable
    rw [hslots.runnableBitmap]
  have hget : getProcBySlot (schedPreempt (saveContext s s.currentSlot)) = getProcBySlot s := by
    funext slot
    unfold getProcBySlot
    rw [hslots.slotCount, hslots.pidToSlot]
  unfold schedYield yieldChoice
  split
  · simp
  · dsimp only
    rw [hcur, hfind, hget]
    cases findNextRunnable s (s.currentSlot + 1) with
    | none => simp
    | some slot =>
        dsimp only [Option.bind_some]
        cases getProcBySlot s slot with
        | none => simp
        | some idx =>
            refine ⟨by simp, fun idx' heq => ?_⟩
            rw [← Option.some.inj heq]
            have hrestore : ∀ t : Sched, (restoreContext t slot).table = t.table := by
              intro t
              unfold restoreContext
              split <;> rfl
            simp [hrestore, schedDispatch, schedMarkDispatch, Sched.put]

/-! ### The invariant -/

/-- The process that has exited is still there as a zombie, and has no slot. -/
structure ExitedOff (r : TaskRun) : Prop where
  table : r.tasks.sched.table = r.tasks.procs.table
  zombie : ∀ i ∈ r.exited, (r.tasks.procs.table i).state = .zombie
  noSlot : ∀ i ∈ r.exited, ¬ HasSlot r.tasks.sched i
  selected : ∀ i ∈ r.exited, r.selected ≠ some i

namespace ExitedOff

variable {r r' : TaskRun}

theorem rest (h : ExitedOff r) : ExitedRest r := by
  intro i hi
  refine ⟨?_, h.selected i hi⟩
  rw [h.zombie i hi]
  simp

theorem init (t : Tasks) : ExitedOff (TaskRun.init t) :=
  ⟨rfl, fun _ hi => absurd hi (Set.notMem_empty _), fun _ hi => absurd hi (Set.notMem_empty _),
    fun _ hi => absurd hi (Set.notMem_empty _)⟩

/-- A creation leaves all entries but the new one. -/
theorem spawned (h : ExitedOff r) {res : Spawned}
    (hothers : ∀ i ∈ r.exited, res.slot ≠ some i →
      (res.procs.table i).state = (r.tasks.procs.table i).state) :
    ExitedOff (r.spawned res) := by
  refine ⟨rfl, fun i hi => ?_, fun i hi => h.noSlot i hi.1, fun i _ => by simp [TaskRun.spawned]⟩
  exact (hothers i hi.1 hi.2).trans (h.zombie i hi.1)

/-- A switch leaves the entries without a slot, and selects one with a slot. -/
theorem switched (h : ExitedOff r) {s' : Sched} {choice : Option Nat}
    (htouch : TouchesSlots r.tasks.sched s')
    (hchoice : ∀ i, choice = some i → HasSlot r.tasks.sched i) :
    ExitedOff { r with tasks := r.tasks.afterSched s', selected := choice } := by
  refine ⟨rfl, fun i hi => ?_, fun i hi hslot => ?_, fun i hi heq => ?_⟩
  · have hkeep := htouch.others i (h.noSlot i hi)
    show (s'.table i).state = .zombie
    rw [hkeep, h.table]
    exact h.zombie i hi
  · exact h.noSlot i hi ((TouchesSlots.hasSlot_iff htouch.slots i).mp hslot)
  · exact h.noSlot i hi (hchoice i heq)

theorem addProcess (h : ExitedOff r) {pid : Nat} (hguard : OffSchedule r (.addProcess pid)) :
    ExitedOff { r with
      tasks := r.tasks.afterSched (schedAddProcess r.tasks.sched pid).1, selected := none } := by
  have hsame : ExitedOff { r with tasks := r.tasks.afterSched r.tasks.sched, selected := none } :=
    h.switched (.of_table (.refl _) rfl) (fun i hi => absurd hi (by simp))
  unfold schedAddProcess
  split
  · exact hsame
  · split
    · exact hsame
    · cases hfind : (List.range schedMaxProc).find? fun i => (r.tasks.sched.table i).pid == pid with
      | none => exact hsame
      | some idx =>
          refine ⟨rfl, hsame.zombie, fun i hi hslot => ?_, fun i _ => by simp⟩
          obtain ⟨slot, hlt, heq⟩ := hslot
          dsimp only [Tasks.afterSched] at hlt heq
          by_cases hnew : slot = r.tasks.sched.slotCount
          · rw [hnew, Function.update_self] at heq
            have hlive := hguard idx hfind
            rw [heq, h.table, h.zombie i hi] at hlive
            exact hlive rfl
          · rw [Function.update_of_ne hnew] at heq
            exact h.noSlot i hi ⟨slot, by omega, heq⟩

theorem removeProcess (h : ExitedOff r) (pid : Nat) :
    ExitedOff { r with
      tasks := r.tasks.afterSched (schedRemoveProcess r.tasks.sched pid).1, selected := none } := by
  have hsame : ExitedOff { r with tasks := r.tasks.afterSched r.tasks.sched, selected := none } :=
    h.switched (.of_table (.refl _) rfl) (fun i hi => absurd hi (by simp))
  unfold schedRemoveProcess
  split
  · exact hsame
  · rename_i gone _
    refine ⟨rfl, hsame.zombie, fun i hi hslot => ?_, fun i _ => by simp⟩
    obtain ⟨slot, hlt, heq⟩ := hslot
    dsimp only [Tasks.afterSched] at hlt heq
    split at heq
    · exact h.noSlot i hi ⟨slot + 1, by omega, heq⟩
    · exact h.noSlot i hi ⟨slot, by omega, heq⟩

/-- The process that exits has no slot, so that the yield does not touch it. -/
theorem sysExit (h : ExitedOff r) {status : Int} {kernelCr3 : Nat}
    (hguard : OffSchedule r (.sysExit status kernelCr3)) (hnext : r.next (.sysExit status kernelCr3) =
      some r') : ExitedOff r' := by
  have hr' := Option.some.inj hnext
  have hslotless : ∀ i, r.tasks.procs.currentPid ≠ 0 ∧
      procScan r.tasks.procs r.tasks.procs.currentPid = some i → ¬ HasSlot r.tasks.sched i :=
    fun i hi => hguard i hi.2
  have hmid : ExitedOff {
      tasks := tasksExit r.tasks status kernelCr3
      exited := r.exited ∪ {i | r.tasks.procs.currentPid ≠ 0 ∧
        procScan r.tasks.procs r.tasks.procs.currentPid = some i}
      selected := none } := by
    refine ⟨rfl, fun i hi => ?_, fun i hi => ?_, fun i _ => by simp⟩
    · dsimp only [tasksExit, Tasks.afterProcs]
      unfold procExit
      split
      · rename_i hzero
        rcases hi with hi | hi
        · exact h.zombie i hi
        · exact absurd hzero hi.1
      · split
        · rename_i hscan
          rcases hi with hi | hi
          · exact h.zombie i hi
          · exact absurd (hscan.symm.trans hi.2) (by simp)
        · rename_i idx hscan
          by_cases heq : i = idx
          · simp [ProcTable.put, heq]
          · dsimp only [ProcTable.put]
            rw [Function.update_of_ne heq]
            rcases hi with hi | hi
            · exact h.zombie i hi
            · exact absurd (Option.some.inj (hi.2.symm.trans hscan)) heq
    · rcases hi with hi | hi
      · exact h.noSlot i hi
      · exact hslotless i hi
  rw [← hr']
  exact hmid.switched (TouchesSlots.yield _) fun i hi => yieldChoice_hasSlot hi

end ExitedOff

/-! ### Creations -/

/-- A call that created no process leaves every state, one that did leaves the other entries. -/
def OthersKept (s : ProcTable) (res : Spawned) : Prop :=
  ∀ i, res.slot ≠ some i → (res.procs.table i).state = (s.table i).state

theorem othersKept_of_created {s s' : ProcTable} {slot : Nat} (hcreated : Created s s' slot) :
    OthersKept s { procs := s', slot := some slot } := by
  intro i hi
  have hne : i ≠ slot := fun heq => hi (congrArg some heq.symm)
  dsimp only
  rw [hcreated.others i hne]

theorem othersKept_refl (s : ProcTable) : OthersKept s { procs := s, slot := none } :=
  fun _ _ => rfl

theorem othersKept_spawnKernel {s : ProcTable} {name : Option CStr} {res : Spawned}
    (hcall : procSpawnKernel s name = some res) : OthersKept s res := by
  rcases procSpawnKernel_cases hcall with rfl | ⟨s', slot, rfl, hcreated⟩
  · exact othersKept_refl s
  · exact othersKept_of_created hcreated

theorem othersKept_spawnUser (s : ProcTable) (name : Option CStr)
    (entry stackTop cr3 kstackPage : Nat) :
    OthersKept s (procSpawnUser s name entry stackTop cr3 kstackPage) := by
  rcases procSpawnUser_cases s name entry stackTop cr3 kstackPage with
    hs | ⟨s', slot, hs, -, hcreated⟩
  · rw [hs]
    exact othersKept_refl s
  · rw [hs]
    exact othersKept_of_created hcreated

theorem othersKept_fork (s : ProcTable) (cloneCr3 kstackPage : Nat) :
    OthersKept s (procFork s cloneCr3 kstackPage) := by
  rcases procFork_cases s cloneCr3 kstackPage with
    hs | ⟨s', slot, hbefore, ⟨hs, hothers, hunused, -⟩ | ⟨hs, hcreated⟩⟩
  · rw [hs]
    exact othersKept_refl s
  · rw [hs]
    intro i _
    by_cases heq : i = slot
    · dsimp only
      rw [heq, hunused, hbefore]
    · dsimp only
      rw [hothers i heq]
  · rw [hs]
    exact othersKept_of_created hcreated

/-! ### Whole runs -/

theorem ExitedOff.next {r r' : TaskRun} (h : ExitedOff r) {c : TaskCall} (hguard : OffSchedule r c)
    (hnext : r.next c = some r') : ExitedOff r' := by
  cases c with
  | spawnKernel name =>
      obtain ⟨res, hcall, hr'⟩ := Option.map_eq_some_iff.mp hnext
      rw [← hr']
      exact h.spawned fun i _ hi => othersKept_spawnKernel hcall i hi
  | spawnUser name entry stackTop cr3 kstackPage =>
      rw [← Option.some.inj hnext]
      exact h.spawned fun i _ hi => othersKept_spawnUser _ name entry stackTop cr3 kstackPage i hi
  | fork cloneCr3 kstackPage =>
      rw [← Option.some.inj hnext]
      exact h.spawned fun i _ hi => othersKept_fork _ cloneCr3 kstackPage i hi
  | setCurrent pid =>
      rw [← Option.some.inj hnext]
      exact ⟨rfl, h.zombie, h.noSlot, fun i _ => by simp⟩
  | addProcess pid =>
      rw [← Option.some.inj hnext]
      exact h.addProcess hguard
  | removeProcess pid =>
      rw [← Option.some.inj hnext]
      exact h.removeProcess pid
  | setTrapFrame tf =>
      rw [← Option.some.inj hnext]
      exact h.switched (.of_table ⟨rfl, rfl, rfl, rfl⟩ rfl) fun i hi => absurd hi (by simp)
  | schedule =>
      rw [← Option.some.inj hnext]
      exact h.switched (.schedule _) fun i hi => scheduleChoice_hasSlot hi
  | yield =>
      rw [← Option.some.inj hnext]
      exact h.switched (.yield _) fun i hi => yieldChoice_hasSlot hi
  | tick =>
      rw [← Option.some.inj hnext]
      exact h.switched (.tick _) fun i hi => tickChoice_hasSlot hi
  | sysExit status kernelCr3 => exact h.sysExit hguard hnext

/--
**A process that exits off the schedule stays ended.**  In every state of a run in which only
processes without a scheduler slot exit, and no zombie is added to the scheduler, no process
that has exited is running, and none was selected by the last call.
-/
theorem task_exited_rest (t₀ : Tasks) {calls : List TaskCall} {r : TaskRun}
    (hrun : Executes (Guarded OffSchedule TaskRun.step) (TaskRun.init t₀) calls r) :
    ExitedRest r := by
  have hoff : ExitedOff r := by
    refine hrun.invariant (fun r c r' h hstep => ?_) (ExitedOff.init t₀)
    exact h.next hstep.1 hstep.2
  exact hoff.rest

/-- Nothing runs yet. -/
def idleTasks : Tasks := { procs := blankProcs, sched := threeProcs }

theorem TaskRun.step_get {r : TaskRun} {c : TaskCall} (hc : (r.next c).isSome) :
    r.step c ((r.next c).get hc) := (Option.some_get hc).symm

/-- The second process, which has no slot, exits. -/
theorem task_exited_rest_unscheduled :
    ∃ r, Executes (Guarded OffSchedule TaskRun.step) (TaskRun.init idleTasks)
        [.spawnKernel none, .spawnKernel none, .addProcess 1, .schedule, .setCurrent 2,
          .sysExit 0 0] r ∧ 1 ∈ r.exited ∧ ExitedRest r := by
  have hadd : ∀ r : TaskRun, ((List.range schedMaxProc).find? fun i =>
      (r.tasks.sched.table i).pid == 1) = some 0 → (r.tasks.sched.table 0).state = .runnable →
      OffSchedule r (.addProcess 1) := by
    intro r hfind hstate i hi
    rw [← Option.some.inj (hfind.symm.trans hi), hstate]
    simp
  have hexit : ∀ r : TaskRun, procScan r.tasks.procs r.tasks.procs.currentPid = some 1 →
      r.tasks.sched.slotCount = 1 → r.tasks.sched.pidToSlot 0 = 0 →
      OffSchedule r (.sysExit 0 0) := by
    intro r hscan hcount hfirst i hi hslot
    obtain ⟨slot, hlt, heq⟩ := hslot
    have hzero : slot = 0 := by omega
    rw [hzero, hfirst] at heq
    have hone : i = 1 := Option.some.inj (hi.symm.trans hscan)
    omega
  have hrun : Executes (Guarded OffSchedule TaskRun.step) (TaskRun.init idleTasks)
      [.spawnKernel none, .spawnKernel none, .addProcess 1, .schedule, .setCurrent 2,
        .sysExit 0 0] _ :=
    .cons ⟨trivial, TaskRun.step_get (by decide +kernel)⟩
      (.cons ⟨trivial, TaskRun.step_get (by decide +kernel)⟩
        (.cons ⟨hadd _ (by decide +kernel) (by decide +kernel), rfl⟩
          (.cons ⟨trivial, rfl⟩ (.cons ⟨trivial, rfl⟩ (.cons ⟨hexit _ (by decide +kernel)
            (by decide +kernel) (by decide +kernel), rfl⟩ (.nil _))))))
  exact ⟨_, hrun, .inr ⟨by decide +kernel, by decide +kernel⟩, task_exited_rest idleTasks hrun⟩

/-- Of two scheduled processes the first exits, and is selected again by the next yield. -/
theorem task_runs_after_exit :
    ∃ r, Executes TaskRun.step (TaskRun.init idleTasks)
        [.spawnKernel none, .spawnKernel none, .addProcess 1, .addProcess 2, .schedule,
          .setCurrent 1, .sysExit 0 0, .yield] r ∧
      0 ∈ r.exited ∧ (r.tasks.procs.table 0).state = .running ∧ r.selected = some 0 ∧
      ¬ ExitedRest r := by
  refine ⟨_, .cons (TaskRun.step_get (by decide +kernel))
    (.cons (TaskRun.step_get (by decide +kernel)) (.cons rfl (.cons rfl (.cons rfl (.cons rfl
      (.cons rfl (.cons rfl (.nil _)))))))), .inr ⟨by decide +kernel, by decide +kernel⟩,
    by decide +kernel, by decide +kernel, fun hrest => ?_⟩
  exact (hrest 0 (.inr ⟨by decide +kernel, by decide +kernel⟩)).1 (by decide +kernel)

end BrightS
