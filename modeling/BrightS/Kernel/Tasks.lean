/-
Processes and the scheduler together: `sys_exit` of `kernel/sysent.c`.

There is one process table.  `kernel/proc.c` creates and ends the processes in it and has
its own idea of the current pid, which `sys_exit` uses; `kernel/sched.c` switches between
the processes that were added to it.  An exit does not tell the scheduler.

`Kernel/Proc` and `Kernel/Sched` each have the table to themselves; whenever one of them has run,
the other one is given the table as it is then.
-/
import BrightS.Kernel.Sched

namespace BrightS

/-- Both halves hold the process table; they hold the same one. -/
structure Tasks where
  procs : ProcTable
  sched : Sched

/-- The process code has run. -/
def Tasks.afterProcs (t : Tasks) (procs : ProcTable) : Tasks :=
  { procs := procs, sched := { t.sched with table := procs.table } }

/-- The scheduler has run. -/
def Tasks.afterSched (t : Tasks) (sched : Sched) : Tasks :=
  { procs := { t.procs with table := sched.table }, sched := sched }

/-- The exit of the current process, before the yield. -/
def tasksExit (t : Tasks) (status : Int) (kernelCr3 : Nat) : Tasks :=
  t.afterProcs (procExit t.procs t.procs.currentPid status kernelCr3).1

/-- `sys_exit`: the exit, and a yield from whatever slot is current. -/
def sysExit (t : Tasks) (status : Int) (kernelCr3 : Nat) : Tasks :=
  let t := tasksExit t status kernelCr3
  t.afterSched (schedYield t.sched).1

/-! ### What the scheduler selects

Which process a call would switch to, read off the state before it.
-/

/-- The table index of the process that `schedule` switches to. -/
def scheduleChoice (s : Sched) : Option Nat :=
  if s.totalRunnable = 0 then none else
  (findNextRunnable s s.currentSlot).bind (getProcBySlot s)

/-- The table index of the process that `yield` switches to. -/
def yieldChoice (s : Sched) : Option Nat :=
  if s.currentPid = 0 ∨ s.totalRunnable ≤ 1 then none else
  (findNextRunnable s (s.currentSlot + 1)).bind (getProcBySlot s)

/-- The table index of the process that a tick switches to, when the time slice is over. -/
def tickChoice (s : Sched) : Option Nat :=
  if s.currentPid ≠ 0 ∧ (s.timesliceRemaining + (2 ^ 32 - 1)) % 2 ^ 32 = 0 then yieldChoice s
  else none

end BrightS
