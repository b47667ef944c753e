/-
Signals: `kernel/signal.c` and the system calls that raise them.

A signal state is a mask of pending and one of blocked signals.  Raising a signal sets its bit, and
consuming it clears the bit; how often it was raised in between is not kept.

The functions take any such state; the system calls all use the one that belongs to the module.
-/
import BrightS.Kernel.Proc

namespace BrightS

def signalMax : Nat := 32
def sigkill : Nat := 9
def sigstop : Nat := 19

/-- `brights_signal_state_t`, without the handlers. -/
structure SignalState where
  pending : BitVec 32
  blocked : BitVec 32
  deriving DecidableEq, Repr

/-- `brights_signal_proc_init`. -/
def signalProcInit : SignalState := { pending := 0, blocked := 0 }

/-- `1u << signo`. -/
def signalBit (signo : Nat) : BitVec 32 := 1#32 <<< signo

/-- `brights_signal_raise_proc`: the two signals that cannot be caught are refused. -/
def signalRaiseProc (state : SignalState) (signo : Nat) : SignalState × Int :=
  if signo = 0 ∨ signalMax ≤ signo then
    (state, -1)
  else if signo = sigkill ∨ signo = sigstop then
    (state, -1)
  else
    ({ state with pending := state.pending ||| signalBit signo }, 0)

/-- `brights_signal_pending_proc`: what is pending and not blocked. -/
def signalPendingProc (state : SignalState) : BitVec 32 := state.pending &&& ~~~state.blocked

/-- `brights_signal_consume`: a signal that is not pending is refused. -/
def signalConsume (state : SignalState) (signo : Nat) : SignalState × Int :=
  if signo = 0 ∨ signalMax ≤ signo then
    (state, -1)
  else if state.pending &&& signalBit signo = 0 then
    (state, -1)
  else
    ({ state with pending := state.pending &&& ~~~signalBit signo }, 0)

/-- The processes and `global_signal_state`. -/
structure Signals where
  procs : ProcTable
  globalSignalState : SignalState

/-- `brights_signal_init`. -/
def signalInit (s : Signals) : Signals := { s with globalSignalState := signalProcInit }

/-- `brights_signal_raise`, in the state that belongs to the module. -/
def signalRaise (s : Signals) (signo : Nat) : Signals × Int :=
  let (state, ret) := signalRaiseProc s.globalSignalState signo
  ({ s with globalSignalState := state }, ret)

/-- `brights_signal_pending`. -/
def signalPending (s : Signals) : BitVec 32 := signalPendingProc s.globalSignalState

/-- Arguments of system calls are 64 bits wide, and cut to 32. -/
def sysSignalRaise (s : Signals) (signo : Nat) : Signals × Int := signalRaise s (signo % 2 ^ 32)

/-- The system call that asks for pending signals. -/
def sysSignalPending (s : Signals) : BitVec 32 := signalPending s

/-- `sys_kill`: the process is looked up, and the signal goes to the state of the module. -/
def sysKill (s : Signals) (pid signo : Nat) : Signals × Int :=
  if signalMax ≤ signo then
    (s, -1)
  else
    match brightsProcGetByPid s.procs (pid % 2 ^ 32) with
    | none => (s, -1)
    | some _ => signalRaise s (signo % 2 ^ 32)

/-! ### Calls

What a process can see of the others' signals goes through these.
-/

/-- A system call of the current process. -/
inductive SignalCall where
  | kill (pid signo : Nat)
  | raise (signo : Nat)
  deriving DecidableEq, Repr

/-- The state after a call, and its value. -/
def SignalCall.run (s : Signals) : SignalCall → Signals × Int
  | .kill pid signo => sysKill s pid signo
  | .raise signo => sysSignalRaise s signo

/-- The signal of a call. -/
def SignalCall.signo : SignalCall → Nat
  | .kill _ signo => signo % 2 ^ 32
  | .raise signo => signo % 2 ^ 32

/-- The process that the call addresses. -/
def SignalCall.addressee (s : Signals) : SignalCall → Nat
  | .kill pid _ => pid % 2 ^ 32
  | .raise _ => s.procs.currentPid

/-- What the system call that asks for pending signals gives a process. -/
def pendingFor (s : Signals) (pid : Nat) : BitVec 32 :=
  sysSignalPending { s with procs := { s.procs with currentPid := pid } }

end BrightS
