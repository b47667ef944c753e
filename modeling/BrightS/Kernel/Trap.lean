/-
Traps: `brights_trap_handler` of `arch/x86_64/trap.c`, the dispatch of system calls, and
the calls of `kernel/sysent.c` that meet the scheduler.

A trap comes from the process in the scheduler's current slot, with its registers in the
trap frame.  The handler returns through that frame, whatever the scheduler has put into
it meanwhile.  Interrupts are off in the handler, so one trap ends before the next.

Only exit, fork, exec, wait and yield meet the scheduler.  What the rest of the kernel does in a
call is an argument.
-/
import BrightS.Kernel.Tasks

namespace BrightS

/-- `SCHED_QUANTUM_TICKS`. -/
def schedQuantumTicks : Nat := 10

/-- The number of entries of `brights_sysent_table`, and the entries modelled here. -/
def sysentCount : Nat := 67
def nrExit : Nat := 5
def nrFork : Nat := 6
def nrExec : Nat := 7
def nrWait : Nat := 8
def nrYield : Nat := 27

/-- The value of a system call as it is stored in `rax`. -/
def raxOf (v : Int) : Nat := (BitVec.ofInt 64 v).toNat

/-- What a system call gets from the rest of the kernel. -/
structure CallAnswers where
  /-- `paging_get_cr3`. -/
  currentCr3 : Nat
  /-- For fork: the clone of the address space and the page of the kernel stack. -/
  cloneCr3 : Nat
  kstackPage : Nat
  /-- For exec: whether the program was found, the new address space, entry and stack top. -/
  found : Bool
  newCr3 : Nat
  loaded : Option (Nat × Nat)
  /-- For all other calls: the process table they leave behind, and their value. -/
  table : Nat → ProcInfo
  ret : Int

/-! ### System calls

The calls that meet the scheduler are modelled; of the others only what they may change.
-/

/-- `sys_yield`. -/
def sysYield (t : Tasks) : Tasks × Int :=
  (t.afterSched (schedYield t.sched).1, (schedYield t.sched).2)

/-- The loop of `sys_wait`, for `fuel` rounds; `none` when it has not ended by then. -/
def sysWait : Nat → Tasks → Nat → Option (Tasks × Int)
  | 0, _, _ => none
  | fuel + 1, t, pid =>
      match brightsProcGetByPid t.procs (pid % 2 ^ 32) with
      | none => some (t, -1)
      | some info =>
          if info.state = .zombie then some (t, (BitVec.ofNat 64 pid).toInt)
          else sysWait fuel (sysYield t).1 pid

/-- `sys_fork`: the child is given to the scheduler, whose answer is not looked at. -/
def sysFork (t : Tasks) (cloneCr3 kstackPage : Nat) : Tasks × Int :=
  let res := procFork t.procs cloneCr3 kstackPage
  let t := t.afterProcs res.procs
  if res.ret ≤ 0 then (t, -1) else
  (t.afterSched (schedAddProcess t.sched (raxOf res.ret % 2 ^ 32)).1, res.ret)

/-- No value when the process enters its new program. -/
def sysExec (t : Tasks) (ans : CallAnswers) : Tasks × Option Int :=
  if ans.found = false then (t, some (-1)) else
  let res := procExec t.procs ans.newCr3 ans.loaded ans.currentCr3
  (t.afterProcs res.1, if res.2.1 = 0 then none else some (-1))

/-- The other calls work on the files, the directory and the break of processes. -/
def sysOther (t : Tasks) (ans : CallAnswers) : Tasks × Int :=
  (t.afterProcs { t.procs with
      table := fun i => { t.procs.table i with
        fdTable := (ans.table i).fdTable, cwd := (ans.table i).cwd,
        brk := (ans.table i).brk, brkStart := (ans.table i).brkStart } },
    ans.ret)

/-- Number and arguments are in the trap frame. -/
def syscallHandle (fuel : Nat) (t : Tasks) (tf : ProcCtx) (ans : CallAnswers) :
    Option (Tasks × Option Int) :=
  if sysentCount ≤ tf.rax then some (t, some (-38)) else
  if tf.rax = nrExit then
    some (sysExit t (BitVec.ofNat 32 tf.rdi).toInt ans.currentCr3, some 0)
  else if tf.rax = nrFork then
    let res := sysFork t ans.cloneCr3 ans.kstackPage
    some (res.1, some res.2)
  else if tf.rax = nrExec then some (sysExec t ans)
  else if tf.rax = nrWait then (sysWait fuel t tf.rdi).map fun res => (res.1, some res.2)
  else if tf.rax = nrYield then some ((sysYield t).1, some (sysYield t).2)
  else
    let res := sysOther t ans
    some (res.1, some res.2)

/-! ### The handler

A switch during a trap changes what is in the frame, so the value of a call is stored with the
process that is there by then.
-/

/-- The traps of this model, with the registers of the process that traps. -/
inductive Trap where
  | timer (tf : ProcCtx)
  | syscall (tf : ProcCtx) (ans : CallAnswers)

/-- The registers that the processor has stored. -/
def Trap.frame : Trap → ProcCtx
  | .timer tf => tf
  | .syscall tf _ => tf

/-- The tasks, and the counter of the timer handler. -/
structure TrapState where
  tasks : Tasks
  schedQuantum : Nat

/-- How a trap ends: back through the trap frame, for a system call with a value, or in a new
program. -/
inductive TrapEnd where
  | back (v : Option Int)
  | entered
  deriving DecidableEq, Repr

/-- `tf->rax = v`. -/
def storeRax (s : Sched) (v : Int) : Sched :=
  { s with trapFrame := s.trapFrame.map fun tf => { tf with rax := raxOf v } }

/-- The timer interrupt: the scheduler's tick, and every so often a yield besides. -/
def trapTimer (t : TrapState) : TrapState :=
  let tasks := t.tasks.afterSched (schedTick t.tasks.sched)
  if schedQuantumTicks ≤ (t.schedQuantum + 1) % 2 ^ 32 then
    { tasks := if 0 < tasks.sched.currentPid then (sysYield tasks).1 else tasks, schedQuantum := 0 }
  else { tasks := tasks, schedQuantum := (t.schedQuantum + 1) % 2 ^ 32 }

/-- `brights_trap_handler`: the scheduler is told of the frame first. -/
def trapHandler (fuel : Nat) (t : TrapState) (c : Trap) : Option (TrapState × TrapEnd) :=
  let tasks := t.tasks.afterSched (schedSetTrapFrame t.tasks.sched (some c.frame))
  match c with
  | .timer _ => some (trapTimer { t with tasks := tasks }, .back none)
  | .syscall tf ans =>
      match syscallHandle fuel tasks tf ans with
      | none => none
      | some (tasks', none) => some ({ t with tasks := tasks' }, .entered)
      | some (tasks', some v) =>
          some ({ t with tasks := tasks'.afterSched (storeRax tasks'.sched v) }, .back (some v))

end BrightS
