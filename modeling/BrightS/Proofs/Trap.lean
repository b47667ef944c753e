/-
The registers of processes over runs of traps.

At any time the registers of the current process are in the trap frame and those of the
others in their table entries (`regsOf`).  A yield moves registers between the two places
and changes nobody's (`SchedReady.yield_regs`).  But the handler stores the value of a
system call in the frame, and after a yield the frame is another process's: the value of
a call that switches goes to the wrong process (`switching_call_misdelivers`).
-/
import BrightS.Proofs.Tasks
import BrightS.Proofs.TaskIdentity
import BrightS.Kernel.Trap

namespace BrightS

open Runs Words

/-! ### Whose registers are where -/

/-- The registers with which a process goes on when it is next run. -/
def regsOf (s : Sched) (i : Nat) : Option ProcCtx :=
  if currentProc s = some i then s.trapFrame else some (s.table i).ctx

theorem regsOf_current {s : Sched} {i : Nat} (h : currentProc s = some i) :
    regsOf s i = s.trapFrame := if_pos h

theorem regsOf_other {s : Sched} {i : Nat} (h : currentProc s ≠ some i) :
    regsOf s i = some (s.table i).ctx := if_neg h

theorem Switched.currentProc {s s' : Sched} {next idx : Nat} (h : Switched s s' next idx) :
    currentProc s' = some idx := by
  unfold BrightS.currentProc
  rw [h.currentSlot, getProcBySlot_congr h.toSameSlots]
  exact h.inSlot

/-- A registered process. -/
def Live (s : Sched) (i : Nat) : Prop := HasSlot s i ∧ (s.table i).state ≠ .unused

/-- A process is running, with a trap frame. -/
structure SchedReady (s : Sched) : Prop where
  current : ∃ p, currentProc s = some p ∧ Live s p
  frame : ∃ tf, s.trapFrame = some tf

/-- Nobody is lost, and nobody's registers have changed. -/
structure SameRegs (s s' : Sched) : Prop where
  live : ∀ i, Live s i → Live s' i
  regs : ∀ i, Live s i → regsOf s' i = regsOf s i

theorem SameRegs.trans {s s' s'' : Sched} (h : SameRegs s s') (h' : SameRegs s' s'') :
    SameRegs s s'' :=
  ⟨fun i hi => h'.live i (h.live i hi),
    fun i hi => (h'.regs i (h.live i hi)).trans (h.regs i hi)⟩

namespace SchedReady

variable {s : Sched}

theorem leave_regs (s : Sched) (i : Nat) : regsOf (schedLeave s) i = regsOf s i := by
  have hplace := schedLeave_place s
  by_cases hi : currentProc s = some i
  · rw [regsOf_current hi, regsOf_current (hplace.currentProc.trans hi), hplace.trapFrame]
  · rw [regsOf_other hi, regsOf_other (by rw [hplace.currentProc]; exact hi),
      schedLeave_ctx_other hi]

theorem leave_live (s : Sched) {i : Nat} (hi : Live s i) : Live (schedLeave s) i := by
  refine ⟨(TouchesSlots.hasSlot_iff (schedLeave_place s).toSameSlots i).mpr hi.1, ?_⟩
  rcases schedLeave_state s i with heq | ⟨heq, -⟩
  · rw [heq]
    exact hi.2
  · rw [heq]
    simp

theorem yield_live (s : Sched) {i : Nat} (hi : Live s i) : Live (schedYield s).1 i := by
  cases hchoice : yieldChoice s with
  | none =>
      rcases (schedYield_none hchoice).2 with heq | heq
      · rw [heq]
        exact hi
      · rw [heq]
        exact leave_live s hi
  | some idx =>
      obtain ⟨-, next, -, hswitch⟩ := schedYield_some hchoice
      refine ⟨(TouchesSlots.hasSlot_iff hswitch.toSameSlots i).mpr hi.1, ?_⟩
      rw [hswitch.state]
      split
      · simp
      · exact (leave_live s hi).2

/-- **A yield moves registers and changes none.** -/
theorem yield_regs (h : SchedReady s) : SameRegs s (schedYield s).1 := by
  refine ⟨fun i => yield_live s, fun i _ => ?_⟩
  cases hchoice : yieldChoice s with
  | none =>
      rcases (schedYield_none hchoice).2 with heq | heq
      · rw [heq]
      · rw [heq]
        exact leave_regs s i
  | some idx =>
      obtain ⟨-, next, -, hswitch⟩ := schedYield_some hchoice
      obtain ⟨tf, htf⟩ := h.frame
      -- The registers are now where `schedLeave` has put them, in the frame or in the entry.
      have hleft : regsOf (schedYield s).1 i = some ((schedLeave s).table i).ctx := by
        by_cases hi : i = idx
        · subst hi
          rw [regsOf_current hswitch.currentProc, hswitch.trapFrame, htf]
          rfl
        · have hother : currentProc (schedYield s).1 ≠ some i := by
            rw [hswitch.currentProc]
            exact fun heq => hi (Option.some.inj heq).symm
          rw [regsOf_other hother, hswitch.ctx]
      rw [hleft]
      by_cases hi : currentProc s = some i
      · rw [schedLeave_ctx_current hi htf, regsOf_current hi, htf]
      · rw [schedLeave_ctx_other hi, regsOf_other hi]

theorem yield (h : SchedReady s) : SchedReady (schedYield s).1 := by
  obtain ⟨p, hp, hlive⟩ := h.current
  obtain ⟨tf, htf⟩ := h.frame
  cases hchoice : yieldChoice s with
  | none =>
      rcases (schedYield_none hchoice).2 with heq | heq
      · rw [heq]
        exact h
      · rw [heq]
        have hplace := schedLeave_place s
        exact ⟨⟨p, hplace.currentProc.trans hp, leave_live s hlive⟩,
          ⟨tf, hplace.trapFrame.trans htf⟩⟩
  | some idx =>
      obtain ⟨-, next, -, hswitch⟩ := schedYield_some hchoice
      obtain ⟨hlt, hidx⟩ := getProcBySlot_some hswitch.inSlot
      refine ⟨⟨idx, hswitch.currentProc, ?_, ?_⟩, ⟨_, by rw [hswitch.trapFrame, htf]; rfl⟩⟩
      · exact (TouchesSlots.hasSlot_iff hswitch.toSameSlots idx).mpr ⟨next, hlt, hidx⟩
      · rw [hswitch.state, if_pos rfl]
        simp

/-- A step that touches no slots, and no saved registers of processes that wait. -/
theorem congr (h : SchedReady s) {s' : Sched} (hplace : SamePlace s s')
    (hctx : ∀ i, Live s i → currentProc s ≠ some i → (s'.table i).ctx = (s.table i).ctx)
    (hused : ∀ i, Live s i → (s'.table i).state ≠ .unused) :
    SchedReady s' ∧ SameRegs s s' := by
  have hlive : ∀ i, Live s i → Live s' i := fun i hi =>
    ⟨(TouchesSlots.hasSlot_iff hplace.toSameSlots i).mpr hi.1, hused i hi⟩
  obtain ⟨p, hp, hplive⟩ := h.current
  refine ⟨⟨⟨p, hplace.currentProc.trans hp, hlive p hplive⟩,
    by rw [hplace.trapFrame]; exact h.frame⟩, hlive, fun i hi => ?_⟩
  unfold regsOf
  rw [hplace.currentProc, hplace.trapFrame]
  split
  · rfl
  · rename_i hwaits
    rw [hctx i hi hwaits]

theorem tick (h : SchedReady s) : SchedReady (schedTick s) ∧ SameRegs s (schedTick s) := by
  obtain ⟨counted, hplace, htable, hcases⟩ := schedTick_cases s
  obtain ⟨hready, hregs⟩ := h.congr hplace (fun i _ _ => by rw [htable])
    (fun i hi => by rw [htable]; exact hi.2)
  rcases hcases with ⟨heq, -⟩ | ⟨heq, -⟩
  · rw [heq]
    exact ⟨hready, hregs⟩
  · rw [heq]
    exact ⟨hready.yield, hregs.trans hready.yield_regs⟩

theorem add (h : SchedReady s) (pid : Nat) :
    SchedReady (schedAddProcess s pid).1 ∧ SameRegs s (schedAddProcess s pid).1 ∧
      currentProc (schedAddProcess s pid).1 = currentProc s := by
  rcases schedAddProcess_cases s pid with heq | ⟨new, -, -, heq⟩
  · rw [heq]
    exact ⟨h, ⟨fun _ hi => hi, fun _ _ => rfl⟩, rfl⟩
  · obtain ⟨p, hp, hplive⟩ := h.current
    have hlt := (getProcBySlot_some hp).1
    have hcur : currentProc (schedAddProcess s pid).1 = currentProc s := by
      rw [heq]
      unfold currentProc getProcBySlot
      dsimp only
      rw [if_neg (by omega), if_neg (by omega), Function.update_of_ne (Nat.ne_of_lt hlt)]
    have hlive : ∀ i, Live s i → Live (schedAddProcess s pid).1 i := by
      intro i hi
      obtain ⟨⟨slot, hslot, hget⟩, hused⟩ := hi
      rw [heq]
      exact ⟨⟨slot, Nat.lt_succ_of_lt hslot,
        (Function.update_of_ne (Nat.ne_of_lt hslot) _ _).trans hget⟩, hused⟩
    refine ⟨⟨⟨p, hcur.trans hp, hlive p hplive⟩, by rw [heq]; exact h.frame⟩,
      ⟨hlive, fun i _ => ?_⟩, hcur⟩
    unfold regsOf
    rw [hcur, heq]

end SchedReady

/-- The current process after a yield. -/
theorem schedYield_currentProc (s : Sched) :
    currentProc (schedYield s).1 = (yieldChoice s).or (currentProc s) := by
  cases hchoice : yieldChoice s with
  | none =>
      rcases (schedYield_none hchoice).2 with heq | heq
      · rw [heq]
        rfl
      · rw [heq]
        exact (schedLeave_place s).currentProc
  | some idx =>
      obtain ⟨-, next, -, hswitch⟩ := schedYield_some hchoice
      exact hswitch.currentProc

/-! ### System calls -/

/-- Both halves have the same process table, and the scheduler is ready. -/
structure TasksReady (t : Tasks) : Prop where
  table : t.sched.table = t.procs.table
  sched : SchedReady t.sched

/-- The call has kept the registers of all processes, and the current process. -/
structure CallKept (t t' : Tasks) : Prop where
  ready : TasksReady t'
  regs : SameRegs t.sched t'.sched
  current : currentProc t'.sched = currentProc t.sched

namespace TasksReady

variable {t t' : Tasks}

theorem refl_kept (h : TasksReady t) : CallKept t t :=
  ⟨h, ⟨fun _ hi => hi, fun _ _ => rfl⟩, rfl⟩

theorem afterSched {s : Sched} (h : SchedReady s) (t : Tasks) : TasksReady (t.afterSched s) :=
  ⟨rfl, h⟩

/-- The process code leaves the registers of processes that wait. -/
theorem afterProcs (h : TasksReady t) {procs : ProcTable}
    (hctx : ∀ i, Live t.sched i → currentProc t.sched ≠ some i →
      (procs.table i).ctx = (t.procs.table i).ctx)
    (hused : ∀ i, Live t.sched i → (procs.table i).state ≠ .unused) :
    CallKept t (t.afterProcs procs) := by
  have hplace : SamePlace t.sched (t.afterProcs procs).sched :=
    ⟨⟨rfl, rfl, rfl, rfl⟩, rfl, rfl, rfl⟩
  obtain ⟨hready, hregs⟩ := h.sched.congr hplace
    (fun i hi hwaits => by rw [h.table]; exact hctx i hi hwaits) hused
  exact ⟨⟨rfl, hready⟩, hregs, hplace.currentProc⟩

/-- A yield that does not leave the current process. -/
theorem yield_kept (h : TasksReady t)
    (hstays : ∀ idx, yieldChoice t.sched = some idx → currentProc t.sched = some idx) :
    CallKept t (sysYield t).1 := by
  refine ⟨afterSched h.sched.yield t, h.sched.yield_regs, ?_⟩
  show currentProc (schedYield t.sched).1 = _
  rw [schedYield_currentProc]
  cases hchoice : yieldChoice t.sched with
  | none => rfl
  | some idx => exact (hstays idx hchoice).symm

theorem exit_entry (s : ProcTable) (pid : Nat) (code : Int) (kernelCr3 : Nat) (i : Nat) :
    ((procExit s pid code kernelCr3).1.table i).ctx = (s.table i).ctx ∧
      (((procExit s pid code kernelCr3).1.table i).state = (s.table i).state ∨
        ((procExit s pid code kernelCr3).1.table i).state = .zombie) := by
  unfold procExit
  split
  · exact ⟨rfl, .inl rfl⟩
  · split
    · exact ⟨rfl, .inl rfl⟩
    · rename_i j _
      by_cases hi : i = j
      · subst hi
        simp [ProcTable.put]
      · simp [ProcTable.put, Function.update_of_ne hi]

theorem tasksExit_kept (h : TasksReady t) (status : Int) (kernelCr3 : Nat) :
    CallKept t (tasksExit t status kernelCr3) := by
  refine h.afterProcs (fun i _ _ => (exit_entry _ _ _ _ i).1) fun i hi => ?_
  rcases (exit_entry t.procs t.procs.currentPid status kernelCr3 i).2 with heq | heq
  · rw [heq, ← h.table]
    exact hi.2
  · rw [heq]
    simp

theorem exit_kept (h : TasksReady t) (status : Int) (kernelCr3 : Nat)
    (hstays : ∀ idx, yieldChoice t.sched = some idx → currentProc t.sched = some idx) :
    CallKept t (sysExit t status kernelCr3) := by
  have hexit := h.tasksExit_kept status kernelCr3
  have hyield := hexit.ready.yield_kept (by rw [hexit.current]; exact hstays)
  exact ⟨hyield.ready, hexit.regs.trans hyield.regs, hyield.current.trans hexit.current⟩

theorem fork_entry (s : ProcTable) (cloneCr3 kstackPage : Nat) {i : Nat}
    (hi : (s.table i).state ≠ .unused) :
    (procFork s cloneCr3 kstackPage).procs.table i = s.table i := by
  rcases procFork_cases s cloneCr3 kstackPage with
    hs | ⟨s', slot, hbefore, ⟨hs, hothers, -⟩ | ⟨hs, hcreated⟩⟩
  · rw [hs]
  · rw [hs]
    exact hothers i fun heq => hi (heq ▸ hbefore)
  · rw [hs]
    exact hcreated.others i fun heq => hi (heq ▸ hbefore)

theorem fork_kept (h : TasksReady t) (cloneCr3 kstackPage : Nat) :
    CallKept t (sysFork t cloneCr3 kstackPage).1 := by
  have hentry : ∀ i, Live t.sched i →
      (procFork t.procs cloneCr3 kstackPage).procs.table i = t.procs.table i := by
    intro i hi
    refine fork_entry t.procs cloneCr3 kstackPage ?_
    rw [← h.table]
    exact hi.2
  have hfork : CallKept t (t.afterProcs (procFork t.procs cloneCr3 kstackPage).procs) := by
    refine h.afterProcs (fun i hi _ => by rw [hentry i hi]) fun i hi => ?_
    rw [hentry i hi, ← h.table]
    exact hi.2
  unfold sysFork
  dsimp only
  split
  · exact hfork
  · obtain ⟨hready, hregs, hcur⟩ := hfork.ready.sched.add
      (raxOf (procFork t.procs cloneCr3 kstackPage).ret % 2 ^ 32)
    exact ⟨afterSched hready _, hfork.regs.trans hregs, hcur.trans hfork.current⟩

theorem exec_entry (s : ProcTable) (newCr3 : Nat) (loaded : Option (Nat × Nat)) (cr3 i : Nat) :
    ((procExec s newCr3 loaded cr3).1.table i).state = (s.table i).state ∧
      (procGetCurrent s ≠ some i → (procExec s newCr3 loaded cr3).1.table i = s.table i) := by
  unfold procExec
  split
  · exact ⟨rfl, fun _ => rfl⟩
  · rename_i j hj
    have hput : ∀ p : ProcInfo, p.state = (s.table j).state →
        ((s.put j p).table i).state = (s.table i).state ∧
          (some j ≠ some i → (s.put j p).table i = s.table i) := by
      intro p hp
      by_cases hi : i = j
      · subst hi
        simp [ProcTable.put, hp]
      · simp [ProcTable.put, Function.update_of_ne hi]
    rw [hj]
    dsimp only
    split
    · exact ⟨rfl, fun _ => rfl⟩
    · split
      · exact hput _ rfl
      · split
        · exact hput _ rfl
        · exact hput _ rfl

/-- Exec writes the registers of the process that `proc.c` takes for the current one. -/
theorem exec_kept (h : TasksReady t) (ans : CallAnswers)
    (hsame : ∀ i, procGetCurrent t.procs = some i → Live t.sched i → currentProc t.sched = some i) :
    CallKept t (sysExec t ans).1 := by
  unfold sysExec
  split
  · exact h.refl_kept
  · refine h.afterProcs (fun i hi hwaits => ?_) fun i hi => ?_
    · have hother : procGetCurrent t.procs ≠ some i := fun hcur => hwaits (hsame i hcur hi)
      rw [(exec_entry t.procs ans.newCr3 ans.loaded ans.currentCr3 i).2 hother]
    · rw [(exec_entry t.procs ans.newCr3 ans.loaded ans.currentCr3 i).1, ← h.table]
      exact hi.2

theorem other_kept (h : TasksReady t) (ans : CallAnswers) : CallKept t (sysOther t ans).1 := by
  refine h.afterProcs (fun i _ _ => rfl) fun i hi => ?_
  rw [← h.table]
  exact hi.2

/-! ### Waiting -/

/-- The process with this pid is there, and no zombie. -/
def Waits (t : Tasks) (pid : Nat) : Prop :=
  ∃ info, brightsProcGetByPid t.procs pid = some info ∧ info.state ≠ .zombie

theorem yield_state (s : Sched) (i : Nat) :
    ((s.table i).state ≠ .unused → ((schedYield s).1.table i).state ≠ .unused) ∧
      (((schedYield s).1.table i).state = .zombie → (s.table i).state = .zombie) ∧
      ((schedYield s).1.table i).pid = (s.table i).pid := by
  have hleave : ((s.table i).state ≠ .unused → ((schedLeave s).table i).state ≠ .unused) ∧
      (((schedLeave s).table i).state = .zombie → (s.table i).state = .zombie) := by
    rcases schedLeave_state s i with heq | ⟨heq, hrunning⟩
    · rw [heq]
      exact ⟨id, id⟩
    · rw [heq]
      simp
  cases hchoice : yieldChoice s with
  | none =>
      rcases (schedYield_none hchoice).2 with heq | heq
      · rw [heq]
        exact ⟨id, id, rfl⟩
      · rw [heq]
        exact ⟨hleave.1, hleave.2, schedLeave_pid s i⟩
  | some idx =>
      obtain ⟨-, next, -, hswitch⟩ := schedYield_some hchoice
      rw [hswitch.state, hswitch.pid]
      split
      · simp
      · exact ⟨hleave.1, hleave.2, rfl⟩

/-- A yield makes no zombie, so that the process is waited for after it as before. -/
theorem Waits.yield (h : TasksReady t) {pid : Nat} (hwaits : Waits t pid) :
    Waits (sysYield t).1 pid := by
  obtain ⟨info, hget, hstate⟩ := hwaits
  unfold brightsProcGetByPid at hget
  split at hget
  · exact absurd hget (by simp)
  · rename_i hpid
    obtain ⟨j, hj, rfl⟩ := Option.map_eq_some_iff.mp hget
    obtain ⟨hmatch, hmem, hbefore⟩ := List.find?_range_eq_some.mp hj
    simp only [Bool.and_eq_true, beq_iff_eq, bne_iff_ne, ne_eq] at hmatch
    have hyield := yield_state t.sched
    rw [h.table] at hyield
    have htable : (sysYield t).1.procs.table = (schedYield t.sched).1.table := rfl
    obtain ⟨hused, -, hsamePid⟩ := hyield j
    -- The scan finds this entry again, or one before it that was unused.
    have hfound : (procScan (sysYield t).1.procs pid).isSome = true := by
      refine List.find?_isSome.mpr ⟨j, hmem, ?_⟩
      rw [htable, hsamePid, hmatch.1]
      simpa using hused hmatch.2
    obtain ⟨k, hk⟩ := Option.isSome_iff_exists.mp hfound
    refine ⟨(sysYield t).1.procs.table k, ?_, fun hzombie => ?_⟩
    · unfold brightsProcGetByPid
      rw [if_neg hpid, hk]
      rfl
    · obtain ⟨hmatch', -, hbefore'⟩ := List.find?_range_eq_some.mp hk
      simp only [Bool.and_eq_true, beq_iff_eq, bne_iff_ne, ne_eq] at hmatch'
      obtain ⟨-, hz, hpid'⟩ := hyield k
      have hwas := hz hzombie
      rcases Nat.lt_trichotomy k j with hlt | heq | hgt
      · have hmiss := hbefore k hlt
        rw [htable, hpid'] at hmatch'
        simp [hmatch'.1, hwas] at hmiss
      · exact hstate (by rw [← heq]; exact hwas)
      · have hmiss := hbefore' j hgt
        rw [htable, hsamePid, hmatch.1] at hmiss
        simp [hused hmatch.2] at hmiss

/-- **A wait that has to wait does not come back.** -/
theorem Waits.never (fuel : Nat) : ∀ (t : Tasks) (pid : Nat), TasksReady t →
    Waits t (pid % 2 ^ 32) → sysWait fuel t pid = none := by
  induction fuel with
  | zero =>
      intro t pid _ _
      rfl
  | succ fuel ih =>
      intro t pid h hwaits
      obtain ⟨info, hget, hstate⟩ := hwaits
      unfold sysWait
      rw [hget]
      dsimp only
      rw [if_neg hstate]
      exact ih _ pid (afterSched h.sched.yield t) (Waits.yield h ⟨info, hget, hstate⟩)

/-- A wait that returns has not yielded. -/
theorem wait_kept (h : TasksReady t) {fuel pid : Nat} {v : Int}
    (hwait : sysWait fuel t pid = some (t', v)) : t' = t := by
  cases fuel with
  | zero => exact absurd hwait (by simp [sysWait])
  | succ fuel =>
      have hcall := hwait
      unfold sysWait at hwait
      cases hget : brightsProcGetByPid t.procs (pid % 2 ^ 32) with
      | none =>
          rw [hget] at hwait
          exact (Prod.mk.inj (Option.some.inj hwait)).1.symm
      | some info =>
          rw [hget] at hwait
          dsimp only at hwait
          split at hwait
          · exact (Prod.mk.inj (Option.some.inj hwait)).1.symm
          · rename_i hstate
            rw [Waits.never (fuel + 1) t pid h ⟨info, hget, hstate⟩] at hcall
            exact absurd hcall (by simp)

end TasksReady

/-! ### Traps -/

/-- A system call leaves the current process to itself: a yield or an exit finds nobody else to
run, and exec is called by the process that `proc.c` takes for the current one. -/
def StaysInCall (t : Tasks) : Trap → Prop
  | .timer _ => True
  | .syscall tf _ =>
      (tf.rax = nrYield ∨ tf.rax = nrExit → ∀ idx, yieldChoice t.sched = some idx →
        currentProc t.sched = some idx) ∧
      (tf.rax = nrExec → ∀ i, procGetCurrent t.procs = some i → Live t.sched i →
        currentProc t.sched = some i)

theorem syscallHandle_kept {t t' : Tasks} (h : TasksReady t) {fuel : Nat} {tf : ProcCtx}
    {ans : CallAnswers} {res : Option Int} (hstays : StaysInCall t (.syscall tf ans))
    (hcall : syscallHandle fuel t tf ans = some (t', res)) : CallKept t t' := by
  unfold syscallHandle at hcall
  split at hcall
  · rw [← (Prod.mk.inj (Option.some.inj hcall)).1]
    exact h.refl_kept
  · split at hcall
    · rename_i hexit
      rw [← (Prod.mk.inj (Option.some.inj hcall)).1]
      exact h.exit_kept _ _ (hstays.1 (.inr hexit))
    · split at hcall
      · rw [← (Prod.mk.inj (Option.some.inj hcall)).1]
        exact h.fork_kept _ _
      · split at hcall
        · rename_i hexec
          have heq : t' = (sysExec t ans).1 := (congrArg Prod.fst (Option.some.inj hcall)).symm
          rw [heq]
          exact h.exec_kept ans (hstays.2 hexec)
        · split at hcall
          · obtain ⟨⟨t'', v⟩, hwait, heq⟩ := Option.map_eq_some_iff.mp hcall
            rw [← (Prod.mk.inj heq).1, h.wait_kept hwait]
            exact h.refl_kept
          · split at hcall
            · rename_i hyield
              rw [← (Prod.mk.inj (Option.some.inj hcall)).1]
              exact h.yield_kept (hstays.1 (.inl hyield))
            · rw [← (Prod.mk.inj (Option.some.inj hcall)).1]
              exact h.other_kept ans

/-- The registers of a process that trapped with `tf`, once the trap is over. -/
def withResult (tf : ProcCtx) : Option Int → ProcCtx
  | none => tf
  | some v => { tf with rax := raxOf v }

/-- The trap of process `p` gave `p` its result, and nobody else anything. -/
def Delivered (t : Tasks) (c : Trap) (p : Nat) (e : TrapEnd) (t' : Tasks) : Prop :=
  (∀ v, e = .back v → regsOf t'.sched p = some (withResult c.frame v)) ∧
    ∀ i, i ≠ p → Live t.sched i → regsOf t'.sched i = regsOf t.sched i

/-- A registered process is the current one, and the tables are the same. -/
structure TrapReady (t : Tasks) : Prop where
  table : t.sched.table = t.procs.table
  current : ∃ p, currentProc t.sched = some p ∧ Live t.sched p

theorem TasksReady.trapReady {t : Tasks} (h : TasksReady t) : TrapReady t :=
  ⟨h.table, h.sched.current⟩

/-- The trap frame is set to the registers of the process that traps. -/
theorem TrapReady.enter {t : Tasks} (h : TrapReady t) (tf : ProcCtx) :
    TasksReady (t.afterSched (schedSetTrapFrame t.sched (some tf))) :=
  ⟨rfl, h.current, ⟨tf, rfl⟩⟩

theorem TrapReady.enter_stays {t : Tasks} (h : TrapReady t) {c : Trap} {tf : Option ProcCtx}
    (hstays : StaysInCall t c) : StaysInCall (t.afterSched (schedSetTrapFrame t.sched tf)) c := by
  have hprocs : (t.afterSched (schedSetTrapFrame t.sched tf)).procs = t.procs := by
    unfold Tasks.afterSched schedSetTrapFrame
    dsimp only
    rw [h.table]
  cases c with
  | timer _ => trivial
  | syscall _ _ =>
      refine ⟨hstays.1, fun hexec i hi => hstays.2 hexec i ?_⟩
      rwa [hprocs] at hi

theorem regsOf_enter {s : Sched} {i p : Nat} (hp : currentProc s = some p) (hi : i ≠ p)
    (tf : ProcCtx) : regsOf (schedSetTrapFrame s (some tf)) i = regsOf s i := by
  have hother : currentProc s ≠ some i := by
    rw [hp]
    exact fun heq => hi (Option.some.inj heq).symm
  rw [regsOf_other hother]
  exact if_neg hother

theorem storeRax_regs (s : Sched) (v : Int) (i : Nat) :
    regsOf (storeRax s v) i =
      if currentProc s = some i then s.trapFrame.map fun tf => { tf with rax := raxOf v }
      else regsOf s i := by
  by_cases hi : currentProc s = some i
  · rw [if_pos hi]
    exact if_pos hi
  · rw [if_neg hi, regsOf_other hi]
    exact if_neg hi

theorem trapTimer_kept {t : TrapState} (h : TasksReady t.tasks) :
    TasksReady (trapTimer t).tasks ∧ SameRegs t.tasks.sched (trapTimer t).tasks.sched := by
  obtain ⟨hready, hregs⟩ := h.sched.tick
  have htick := TasksReady.afterSched hready t.tasks
  unfold trapTimer
  dsimp only
  split
  · dsimp only
    split
    · exact ⟨TasksReady.afterSched hready.yield _, hregs.trans hready.yield_regs⟩
    · exact ⟨htick, hregs⟩
  · exact ⟨htick, hregs⟩

/-- What a trap keeps to, when its call leaves the current process to itself. -/
theorem TrapReady.trap {t t' : TrapState} (h : TrapReady t.tasks) {c : Trap} {fuel p : Nat}
    {e : TrapEnd} (hp : currentProc t.tasks.sched = some p) (hstays : StaysInCall t.tasks c)
    (htrap : trapHandler fuel t c = some (t', e)) :
    TrapReady t'.tasks ∧ (∀ i, Live t.tasks.sched i → Live t'.tasks.sched i) ∧
      Delivered t.tasks c p e t'.tasks := by
  have henter := h.enter c.frame
  have hplive : Live t.tasks.sched p := by
    obtain ⟨q, hq, hqlive⟩ := h.current
    rwa [Option.some.inj (hp.symm.trans hq)]
  cases c with
  | timer tf =>
      have hkept : _ ∧ _ := trapTimer_kept (t :=
        ⟨t.tasks.afterSched (schedSetTrapFrame t.tasks.sched (some tf)), t.schedQuantum⟩) henter
      obtain ⟨hready, hregs⟩ := hkept
      obtain ⟨rfl, rfl⟩ := Prod.mk.inj (Option.some.inj htrap)
      refine ⟨hready.trapReady, hregs.live, fun v hv => ?_, fun i hi hlive => ?_⟩
      · rw [← TrapEnd.back.inj hv]
        exact (hregs.regs p hplive).trans (if_pos hp)
      · exact (hregs.regs i hlive).trans (regsOf_enter hp hi tf)
  | syscall tf ans =>
      unfold trapHandler at htrap
      dsimp only [Trap.frame] at htrap henter
      cases hcall : syscallHandle fuel
          (t.tasks.afterSched (schedSetTrapFrame t.tasks.sched (some tf))) tf ans with
      | none =>
          rw [hcall] at htrap
          exact absurd htrap (by simp)
      | some res =>
          obtain ⟨tasks', v⟩ := res
          have hkept := syscallHandle_kept henter (h.enter_stays hstays) hcall
          rw [hcall] at htrap
          have hothers : ∀ i, i ≠ p → Live t.tasks.sched i →
              regsOf tasks'.sched i = regsOf t.tasks.sched i := by
            intro i hi hlive
            rw [hkept.regs.regs i hlive]
            exact regsOf_enter hp hi tf
          cases v with
          | none =>
              obtain ⟨rfl, rfl⟩ := Prod.mk.inj (Option.some.inj htrap)
              exact ⟨hkept.ready.trapReady, hkept.regs.live,
                fun v hv => absurd hv (by simp), hothers⟩
          | some v =>
              obtain ⟨rfl, rfl⟩ := Prod.mk.inj (Option.some.inj htrap)
              have hcur : currentProc tasks'.sched = some p := hkept.current.trans hp
              refine ⟨⟨rfl, hkept.ready.sched.current⟩, hkept.regs.live, fun v' hv' => ?_,
                fun i hi hlive => ?_⟩
              · have hframe : tasks'.sched.trapFrame = some tf := by
                  rw [← regsOf_current hcur, hkept.regs.regs p hplive]
                  exact if_pos hp
                rw [← TrapEnd.back.inj hv']
                show regsOf (storeRax tasks'.sched v) p = _
                rw [storeRax_regs, if_pos hcur, hframe]
                rfl
              · show regsOf (storeRax tasks'.sched v) i = _
                rw [storeRax_regs, if_neg, hothers i hi hlive]
                rw [hcur]
                exact fun heq => hi (Option.some.inj heq).symm

/-! ### Whole runs -/

/-- A trap comes, and its handler returns. -/
def TrapState.step (t : TrapState) (c : Trap) (t' : TrapState) : Prop :=
  ∃ fuel e, trapHandler fuel t c = some (t', e)

/-- A trap of another process leaves the registers of this one. -/
theorem TrapReady.others {t t' : TrapState} (h : TrapReady t.tasks) {c : Trap} {i : Nat}
    (hlive : Live t.tasks.sched i) (hother : currentProc t.tasks.sched ≠ some i)
    (hstays : StaysInCall t.tasks c) (hstep : t.step c t') :
    TrapReady t'.tasks ∧ Live t'.tasks.sched i ∧
      regsOf t'.tasks.sched i = regsOf t.tasks.sched i := by
  obtain ⟨fuel, e, htrap⟩ := hstep
  obtain ⟨q, hq, -⟩ := h.current
  obtain ⟨hready, hkeeps, -, hregs⟩ := h.trap hq hstays htrap
  have hne : i ≠ q := by
    intro heq
    subst heq
    exact hother hq
  exact ⟨hready, hkeeps i hlive, hregs i hne hlive⟩

/--
**Results reach their caller, unless the call switches.**  Take any run of timer interrupts and
system calls in which every system call leaves the current process to itself, and let process
`p` trap.  If the trap comes back through its frame, `p` has the registers it trapped with, and
in `rax` the value of the call; no other process has changed.  However long `p` then waits, it is
resumed with these registers.
-/
theorem trap_results_delivered {t₀ t t' : TrapState} {traps : List Trap} (h₀ : TrapReady t₀.tasks)
    (hrun : Executes (Guarded (fun t => StaysInCall t.tasks) TrapState.step) t₀ traps t)
    {c : Trap} {fuel p : Nat} {e : TrapEnd} (hp : currentProc t.tasks.sched = some p)
    (hstays : StaysInCall t.tasks c) (htrap : trapHandler fuel t c = some (t', e)) :
    Delivered t.tasks c p e t'.tasks ∧
      ∀ (v : Option Int) (others : List Trap) (t'' : TrapState), e = .back v →
        Executes (Guarded (fun t c => StaysInCall t.tasks c ∧ currentProc t.tasks.sched ≠ some p)
          TrapState.step) t' others t'' →
        regsOf t''.tasks.sched p = some (withResult c.frame v) ∧
          (currentProc t''.tasks.sched = some p →
            t''.tasks.sched.trapFrame = some (withResult c.frame v)) := by
  have hready : TrapReady t.tasks := by
    refine hrun.invariant (P := fun t => TrapReady t.tasks) (fun t c t' h hstep => ?_) h₀
    obtain ⟨hstays, fuel, e, htrap⟩ := hstep
    obtain ⟨q, hq, -⟩ := h.current
    exact (h.trap hq hstays htrap).1
  have hplive : Live t.tasks.sched p := by
    obtain ⟨q, hq, hqlive⟩ := hready.current
    rwa [Option.some.inj (hp.symm.trans hq)]
  obtain ⟨hready', hkeeps, hdelivered⟩ := hready.trap hp hstays htrap
  refine ⟨hdelivered, fun v others t'' hv hothers => ?_⟩
  have hwaits : TrapReady t''.tasks ∧ Live t''.tasks.sched p ∧
      regsOf t''.tasks.sched p = some (withResult c.frame v) := by
    refine hothers.invariant (P := fun t => TrapReady t.tasks ∧ Live t.tasks.sched p ∧
      regsOf t.tasks.sched p = some (withResult c.frame v)) (fun t c t' h hstep => ?_)
      ⟨hready', hkeeps p hplive, hdelivered.1 v hv⟩
    obtain ⟨⟨hstays, hother⟩, hstep⟩ := hstep
    obtain ⟨hnext, hlive, hregs⟩ := h.1.others h.2.1 hother hstays hstep
    exact ⟨hnext, hlive, hregs.trans h.2.2⟩
  exact ⟨hwaits.2.2, fun hcur => (regsOf_current hcur).symm.trans hwaits.2.2⟩

/-- **A yield or an exit that switches gives its result to the wrong process.** -/
theorem switching_call_misdelivers {t t' : TrapState} (h : TrapReady t.tasks) {tf : ProcCtx}
    {ans : CallAnswers} {fuel p idx : Nat} {e : TrapEnd} (hp : currentProc t.tasks.sched = some p)
    (hnr : tf.rax = nrYield ∨ tf.rax = nrExit) (hidx : yieldChoice t.tasks.sched = some idx)
    (hne : idx ≠ p) (htrap : trapHandler fuel t (.syscall tf ans) = some (t', e)) :
    ¬ Delivered t.tasks (.syscall tf ans) p e t'.tasks := by
  intro hdelivered
  have hplive : Live t.tasks.sched p := by
    obtain ⟨q, hq, hqlive⟩ := h.current
    rwa [Option.some.inj (hp.symm.trans hq)]
  obtain ⟨entered, hentered⟩ : ∃ entered,
      entered = t.tasks.afterSched (schedSetTrapFrame t.tasks.sched (some tf)) := ⟨_, rfl⟩
  have henter : TasksReady entered := hentered ▸ h.enter tf
  have hregs₀ : regsOf entered.sched p = some tf := by
    rw [hentered]
    exact if_pos hp
  have hlive₀ : Live entered.sched p := by
    rw [hentered]
    exact hplive
  have hchoice₀ : yieldChoice entered.sched = some idx := by
    rw [hentered]
    exact hidx
  -- Both calls return 0, with the registers of `p` saved and those of `idx` in the frame.
  obtain ⟨tasks', hcall, hregs, hcur⟩ : ∃ tasks', syscallHandle fuel entered tf ans =
      some (tasks', some 0) ∧ regsOf tasks'.sched p = some tf ∧
      currentProc tasks'.sched = some idx := by
    unfold syscallHandle
    rcases hnr with hyield | hexit
    · refine ⟨(sysYield entered).1, ?_, ?_, ?_⟩
      · have hok : (sysYield entered).2 = 0 := (schedYield_some hchoice₀).1
        simp [hyield, nrYield, nrExit, nrFork, nrExec, nrWait, sysentCount, hok]
      · exact (henter.sched.yield_regs.regs p hlive₀).trans hregs₀
      · show currentProc (schedYield entered.sched).1 = some idx
        rw [schedYield_currentProc, hchoice₀]
        rfl
    · have hkept := henter.tasksExit_kept (BitVec.ofNat 32 tf.rdi).toInt ans.currentCr3
      refine ⟨sysExit entered (BitVec.ofNat 32 tf.rdi).toInt ans.currentCr3, ?_, ?_, ?_⟩
      · simp [hexit, nrExit, sysentCount]
      · refine (hkept.ready.sched.yield_regs.regs p (hkept.regs.live p hlive₀)).trans ?_
        exact (hkept.regs.regs p hlive₀).trans hregs₀
      · show currentProc (schedYield (tasksExit entered _ _).sched).1 = some idx
        have hchoice : yieldChoice (tasksExit entered (BitVec.ofNat 32 tf.rdi).toInt
          ans.currentCr3).sched = some idx := hchoice₀
        rw [schedYield_currentProc, hchoice]
        rfl
  unfold trapHandler at htrap
  dsimp only [Trap.frame] at htrap
  rw [← hentered, hcall] at htrap
  obtain ⟨rfl, rfl⟩ := Prod.mk.inj (Option.some.inj htrap)
  have hown := hdelivered.1 (some 0) rfl
  have hrax : regsOf (storeRax tasks'.sched 0) p = some tf := by
    rw [storeRax_regs, if_neg, hregs]
    rw [hcur]
    exact fun heq => hne (Option.some.inj heq)
  have hsame : tf = { tf with rax := raxOf 0 } := Option.some.inj (hrax.symm.trans hown)
  have hzero : tf.rax = 0 := congrArg ProcCtx.rax hsame
  rcases hnr with hyield | hexit
  · rw [hyield] at hzero
    exact absurd hzero (by decide)
  · rw [hexit] at hzero
    exact absurd hzero (by decide)

/-! ### Two processes -/

/-- Two processes, the first current; the second waits with 5 in `rax`. -/
def twoTasks : Tasks :=
  let s := twoScheduled.put 1 { twoScheduled.table 1 with ctx := { userCtx 0 0 with rax := 5 } }
  { procs := { (threeTasks s).procs with table := s.table }, sched := s }

theorem twoTasks_ready : TrapReady twoTasks :=
  ⟨rfl, 0, by decide +kernel, ⟨0, by decide +kernel, by decide +kernel⟩, by decide +kernel⟩

/-- Nothing is asked of the rest of the kernel. -/
def noAnswers : CallAnswers where
  currentCr3 := 0
  cloneCr3 := 0
  kstackPage := 0
  found := false
  newCr3 := 0
  loaded := none
  table i := twoTasks.procs.table i
  ret := 1

/-- `getpid`, with 77 in `rbx`. -/
def getpidFrame : ProcCtx := { userCtx 0 0 with rax := 9, rbx := 77 }

/-- The first process makes a system call, and is then taken off by the timer; the second makes a
system call.  The first waits with the registers it was interrupted with. -/
theorem trap_results_delivered_two :
    ∃ t t' t'', Executes (Guarded (fun t => StaysInCall t.tasks) TrapState.step) ⟨twoTasks, 9⟩
        [.syscall getpidFrame noAnswers] t ∧
      Delivered t.tasks (.timer getpidFrame) 0 (.back none) t'.tasks ∧
      Executes (Guarded (fun t c => StaysInCall t.tasks c ∧ currentProc t.tasks.sched ≠ some 0)
        TrapState.step) t' [.syscall getpidFrame noAnswers] t'' ∧
      regsOf t''.tasks.sched 0 = some getpidFrame := by
  have hstays : ∀ t : Tasks, StaysInCall t (.syscall getpidFrame noAnswers) := by
    intro t
    refine ⟨fun hnr => ?_, fun hnr => absurd hnr (by decide)⟩
    rcases hnr with hnr | hnr
    · exact absurd hnr (by decide)
    · exact absurd hnr (by decide)
  obtain ⟨t, hfirst, hcur, htimer⟩ : ∃ t : TrapState,
      TrapState.step ⟨twoTasks, 9⟩ (.syscall getpidFrame noAnswers) t ∧
        currentProc t.tasks.sched = some 0 ∧
        (∃ t', trapHandler 0 t (.timer getpidFrame) = some (t', .back none) ∧
          currentProc t'.tasks.sched = some 1 ∧
          ∃ t'', t'.step (.syscall getpidFrame noAnswers) t'') :=
    ⟨_, ⟨0, _, rfl⟩, by decide +kernel, _, rfl, by decide +kernel, _, 0, _, rfl⟩
  obtain ⟨t', htrap, hcur', t'', hsecond⟩ := htimer
  have hrun : Executes (Guarded (fun t => StaysInCall t.tasks) TrapState.step) ⟨twoTasks, 9⟩
      [.syscall getpidFrame noAnswers] t := .cons ⟨hstays _, hfirst⟩ (.nil _)
  have hothers : Executes (Guarded (fun t c => StaysInCall t.tasks c ∧
      currentProc t.tasks.sched ≠ some 0) TrapState.step) t' [.syscall getpidFrame noAnswers] t'' :=
    .cons ⟨⟨hstays _, by rw [hcur']; decide⟩, hsecond⟩ (.nil _)
  have htimerStays : StaysInCall t.tasks (.timer getpidFrame) := trivial
  obtain ⟨hdelivered, hwaits⟩ := trap_results_delivered twoTasks_ready hrun hcur htimerStays htrap
  exact ⟨t, t', t'', hrun, hdelivered, hothers, (hwaits none _ t'' rfl hothers).1⟩

/-- The first process yields: its result lands in the `rax` of the second. -/
theorem trap_result_misdelivered :
    ∃ t' e, trapHandler 0 ⟨twoTasks, 0⟩ (.syscall { userCtx 0 0 with rax := 27 } noAnswers) =
        some (t', e) ∧ e = .back (some 0) ∧
      (regsOf twoTasks.sched 1).map ProcCtx.rax = some 5 ∧
      (regsOf t'.tasks.sched 1).map ProcCtx.rax = some 0 ∧
      (regsOf t'.tasks.sched 0).map ProcCtx.rax = some 27 ∧
      ¬ Delivered twoTasks (.syscall { userCtx 0 0 with rax := 27 } noAnswers) 0 e t'.tasks := by
  refine ⟨_, _, rfl, by decide +kernel, by decide +kernel, by decide +kernel, by decide +kernel,
    fun hdelivered => ?_⟩
  have hown := congrArg (Option.map ProcCtx.rax) (hdelivered.1 (some 0) (by decide +kernel))
  exact absurd hown (by decide +kernel)

end BrightS
