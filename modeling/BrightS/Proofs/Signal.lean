/-
Whose pending signals a system call changes.

There is one mask for all processes: what a call makes pending for one of them is pending for
all.
-/
import BrightS.Lib.Runs
import BrightS.Kernel.Signal

namespace BrightS

open Runs

/-- The process exists. -/
def Signals.Has (s : Signals) (pid : Nat) : Prop := (brightsProcGetByPid s.procs pid).isSome = true

/-- The call makes its signal pending for the process that it addresses, if it succeeds, and
changes nothing that another process sees. -/
structure SignalCall.Targeted (s : Signals) (call : SignalCall) : Prop where
  pending : (call.run s).2 = 0 →
    (pendingFor (call.run s).1 (call.addressee s)).getLsbD call.signo = true
  others : ∀ pid, s.Has pid → pid ≠ call.addressee s →
    pendingFor (call.run s).1 pid = pendingFor s pid

/-- What happens to the signals: system calls of whatever process is current, signals that are
consumed, and processes that come and go. -/
inductive SignalEvent where
  | call (call : SignalCall)
  | consume (signo : Nat)
  | procs (procs : ProcTable)

def Signals.after (s : Signals) : SignalEvent → Signals
  | .call call => (call.run s).1
  | .consume signo => { s with globalSignalState := (signalConsume s.globalSignalState signo).1 }
  | .procs procs => { s with procs := procs }

def SignalStep (s : Signals) (event : SignalEvent) (s' : Signals) : Prop := s' = s.after event

/-- The call is accepted: the signal can be raised, and the addressed process exists. -/
def SignalCall.Valid (s : Signals) : SignalCall → Prop
  | .kill pid signo => signo < signalMax ∧ s.Has (pid % 2 ^ 32) ∧ signo ≠ 0 ∧ signo ≠ sigkill ∧
      signo ≠ sigstop
  | .raise signo => signo % 2 ^ 32 < signalMax ∧ signo % 2 ^ 32 ≠ 0 ∧ signo % 2 ^ 32 ≠ sigkill ∧
      signo % 2 ^ 32 ≠ sigstop

/-- An accepted call for a signal that is not pending yet is made while there is no other
process. -/
def SignalCall.NoOther (s : Signals) (call : SignalCall) : Prop :=
  call.Valid s → s.globalSignalState.pending.getLsbD call.signo = false →
    ∀ pid, s.Has pid → pid = call.addressee s

section

variable {s s' : Signals} {call : SignalCall} {event : SignalEvent} {signo : Nat}
  {state : SignalState}

theorem getLsbD_signalBit {i : Nat} (hi : i < 32) :
    (signalBit signo).getLsbD i = decide (signo = i) := by
  unfold signalBit
  rw [BitVec.getLsbD_shiftLeft, BitVec.getLsbD_one, decide_eq_true hi, Bool.true_and]
  by_cases heq : signo = i
  · subst heq
    simp
  · rw [decide_eq_false heq]
    by_cases hlt : i < signo
    · simp [hlt]
    · simp [hlt]
      omega

theorem signalRaiseProc_cases (state : SignalState) (signo : Nat) :
    (signalRaiseProc state signo).2 = -1 ∧
      (signalRaiseProc state signo).1 = state ∧
      ¬ (signo < signalMax ∧ signo ≠ 0 ∧ signo ≠ sigkill ∧ signo ≠ sigstop) ∨
    (signalRaiseProc state signo).2 = 0 ∧
      (signalRaiseProc state signo).1 = { state with pending := state.pending ||| signalBit signo } ∧
      signo < signalMax ∧ signo ≠ 0 ∧ signo ≠ sigkill ∧ signo ≠ sigstop := by
  unfold signalRaiseProc
  split_ifs with hrange hrefused
  · exact .inl ⟨rfl, rfl, by omega⟩
  · exact .inl ⟨rfl, rfl, by omega⟩
  · exact .inr ⟨rfl, rfl, by omega, by omega, by omega, by omega⟩

/-- A call is refused and changes nothing, or it sets the bit of its signal. -/
theorem SignalCall.run_cases : (call.run s).2 = -1 ∧ (call.run s).1 = s ∧ ¬ call.Valid s ∨
    (call.run s).2 = 0 ∧ call.Valid s ∧ call.signo < 32 ∧
      (call.run s).1 = { s with globalSignalState := { s.globalSignalState with
        pending := s.globalSignalState.pending ||| signalBit call.signo } } := by
  cases call with
  | raise signo =>
      unfold SignalCall.run SignalCall.Valid SignalCall.signo sysSignalRaise signalRaise
      dsimp only
      rcases signalRaiseProc_cases s.globalSignalState (signo % 2 ^ 32) with
        ⟨hret, hstate, hnot⟩ | ⟨hret, hstate, hvalid⟩
      · rw [hret, hstate]
        exact .inl ⟨rfl, rfl, hnot⟩
      · rw [hret, hstate]
        exact .inr ⟨rfl, hvalid, hvalid.1, rfl⟩
  | kill pid signo =>
      unfold SignalCall.run SignalCall.Valid SignalCall.signo sysKill Signals.Has
      dsimp only
      by_cases hrange : signalMax ≤ signo
      · rw [if_pos hrange]
        exact .inl ⟨rfl, rfl, fun h => absurd h.1 (not_lt.mpr hrange)⟩
      · rw [if_neg hrange]
        have hsmall : signo % 2 ^ 32 = signo := Nat.mod_eq_of_lt (by unfold signalMax at hrange; omega)
        rw [hsmall]
        cases hproc : brightsProcGetByPid s.procs (pid % 2 ^ 32) with
        | none =>
            refine .inl ⟨rfl, rfl, fun h => ?_⟩
            exact absurd h.2.1 Bool.false_ne_true
        | some p =>
            unfold signalRaise
            dsimp only
            rcases signalRaiseProc_cases s.globalSignalState signo with
              ⟨hret, hstate, hnot⟩ | ⟨hret, hstate, hvalid⟩
            · rw [hret, hstate]
              exact .inl ⟨rfl, rfl, fun h => hnot ⟨h.1, h.2.2⟩⟩
            · rw [hret, hstate]
              exact .inr ⟨rfl, ⟨hvalid.1, rfl, hvalid.2⟩, hvalid.1, rfl⟩

theorem pendingFor_eq (h : s.globalSignalState.blocked = 0) (pid : Nat) :
    pendingFor s pid = s.globalSignalState.pending := by
  unfold pendingFor sysSignalPending signalPending signalPendingProc
  have hall : ~~~(0 : BitVec 32) = BitVec.allOnes 32 := by decide
  rw [h, hall, BitVec.and_allOnes]

theorem signalConsume_blocked : (signalConsume state signo).1.blocked = state.blocked := by
  unfold signalConsume
  split_ifs <;> rfl

/-- No system call blocks a signal. -/
theorem Signals.after_blocked (h : s.globalSignalState.blocked = 0) :
    (s.after event).globalSignalState.blocked = 0 := by
  cases event with
  | call call =>
      rcases call.run_cases (s := s) with ⟨-, heq, -⟩ | ⟨-, -, -, heq⟩
      · rw [Signals.after, heq]
        exact h
      · rw [Signals.after, heq]
        exact h
  | consume signo => exact signalConsume_blocked.trans h
  | procs procs => exact h

/-- What one call does. -/
theorem SignalCall.targeted_iff (h : s.globalSignalState.blocked = 0) :
    call.Targeted s ↔ call.NoOther s := by
  rcases call.run_cases (s := s) with ⟨hret, heq, hnot⟩ | ⟨hret, hvalid, hlt, heq⟩
  · refine ⟨fun _ hvalid => absurd hvalid hnot, fun _ => ⟨fun hzero => ?_, fun pid _ _ => ?_⟩⟩
    · exact absurd (hret.symm.trans hzero) (by decide)
    · rw [heq]
  · have hafter : (call.run s).1.globalSignalState.blocked = 0 := by
      rw [heq]
      exact h
    have hbit : (signalBit call.signo).getLsbD call.signo = true := by
      rw [getLsbD_signalBit hlt]
      exact decide_eq_true rfl
    have hset : ∀ pid, pendingFor (call.run s).1 pid =
        s.globalSignalState.pending ||| signalBit call.signo := by
      intro pid
      rw [pendingFor_eq hafter, heq]
    constructor
    · intro htargeted _ hclear pid hhas
      by_contra hne
      have hsame := htargeted.others pid hhas hne
      rw [hset, pendingFor_eq h] at hsame
      have hget := congrArg (fun w => w.getLsbD call.signo) hsame
      simp only [BitVec.getLsbD_or, hclear, hbit, Bool.or_true] at hget
      exact absurd hget (by decide)
    · intro halone
      refine ⟨fun _ => ?_, fun pid hhas hne => ?_⟩
      · rw [hset, BitVec.getLsbD_or, hbit, Bool.or_true]
      · rw [hset, pendingFor_eq h]
        by_cases hclear : s.globalSignalState.pending.getLsbD call.signo = false
        · exact absurd (halone hvalid hclear pid hhas) hne
        · -- The bit was set before, so setting it changes nothing.
          refine BitVec.eq_of_getLsbD_eq fun i hi => ?_
          rw [BitVec.getLsbD_or, getLsbD_signalBit hi]
          by_cases hi' : call.signo = i
          · rw [← hi', eq_true_of_ne_false hclear, Bool.true_or]
          · rw [decide_eq_false hi', Bool.or_false]

end

/-- **A system call changes only what the addressed process sees exactly if there is no other
process, or the signal is pending already, or the call is refused.** -/
theorem signals_targeted_iff {s₀ s : Signals} {events : List SignalEvent}
    (hrun : Executes SignalStep (signalInit s₀) events s) (call : SignalCall) :
    call.Targeted s ↔ call.NoOther s := by
  have hstep : ∀ s event s', s.globalSignalState.blocked = 0 → SignalStep s event s' →
      s'.globalSignalState.blocked = 0 := by
    intro s event s' h hnext
    rw [hnext]
    exact Signals.after_blocked h
  exact SignalCall.targeted_iff (hrun.invariant hstep rfl)

/-- Processes 1 to `n`, the first of which is current. -/
def firstProcesses (n : Nat) : Signals where
  procs :=
    { table := fun i =>
        { pid := if i < n then i + 1 else 0
          ppid := 0
          state := if i < n then .runnable else .unused
          name := [], exitCode := 0, fdTable := fun _ => 0, cwd := ['/'], isUser := false, cr3 := 0
          userEntry := 0, userStackTop := 0, brk := 0, brkStart := 0, kernelStack := 0
          ctx := userCtx 0 0 }
      pidToIndex := fun pid => pid - 1
      freeSlotsBitmap := BitVec.ofNat 64 (2 ^ n - 1)
      nextPid := n + 1
      currentPid := 1 }
  globalSignalState := signalProcInit

/-- Once process 2 is gone and its signal consumed, process 1 raises signals for itself only. -/
theorem signals_targeted_alone :
    ∃ s, Executes SignalStep (signalInit (firstProcesses 2))
        [.call (.kill 2 10), .procs (firstProcesses 1).procs, .consume 10, .call (.raise 5)] s ∧
      (SignalCall.raise 10).Targeted s ∧
      pendingFor s 1 = signalBit 5 ∧
      pendingFor ((SignalCall.raise 10).run s).1 1 = signalBit 5 ||| signalBit 10 := by
  have hrun : Executes SignalStep (signalInit (firstProcesses 2))
      [.call (.kill 2 10), .procs (firstProcesses 1).procs, .consume 10, .call (.raise 5)] _ :=
    .cons rfl (.cons rfl (.cons rfl (.cons rfl (.nil _))))
  refine ⟨_, hrun, (signals_targeted_iff hrun (.raise 10)).mpr ?_, by decide, by decide⟩
  intro _ _ pid hhas
  unfold Signals.Has brightsProcGetByPid procScan at hhas
  split_ifs at hhas with hzero
  · exact absurd hhas Bool.false_ne_true
  · rw [Option.isSome_map, List.find?_isSome] at hhas
    obtain ⟨i, -, hi⟩ := hhas
    obtain ⟨hat, -⟩ := (Bool.and_eq_true _ _).mp hi
    change (((firstProcesses 1).procs.table i).pid == pid) = true at hat
    unfold firstProcesses at hat
    by_cases hfirst : i < 1
    · obtain rfl := Nat.lt_one_iff.mp hfirst
      have hpid : 1 = pid := beq_iff_eq.mp hat
      exact hpid.symm
    · simp only [if_neg hfirst, beq_iff_eq] at hat
      exact absurd hat.symm hzero

/-- A signal for process 2 is pending for process 1 as well. -/
theorem signals_shared : ¬ ∀ (s₀ s : Signals) (events : List SignalEvent) (call : SignalCall),
    Executes SignalStep (signalInit s₀) events s → call.Targeted s := by
  intro hall
  have htargeted := hall (firstProcesses 2) _ [] (.kill 2 10) (.nil _)
  have hsame := htargeted.others 1 (by unfold Signals.Has; decide +kernel) (by decide)
  exact absurd hsame (by decide +kernel)

end BrightS
