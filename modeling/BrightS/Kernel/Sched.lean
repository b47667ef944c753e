/-
The round-robin scheduler: `kernel/sched.c`.

The scheduler goes round the slots: on a yield, and on a tick that ends the time slice, the next
runnable slot behind the current one takes over, and is put into the trap frame.

Scheduled processes are numbered by slots.  `pidToSlot` holds, despite its name, the
process-table index of the process in each slot, and bit `i` of `runnableBitmap` says
whether slot `i` may run.  The process table itself belongs to `kernel/proc.c`; the
scheduler writes states and saved registers into it.
-/
import BrightS.Kernel.Proc

namespace BrightS

open Words

def schedMaxProc : Nat := 64
def schedQuantum : Nat := 10

/-- The scheduler's variables, the process table, and what a switch loads into the processor:
the registers of the current trap frame, the page-table base and the kernel stack pointer. -/
structure Sched where
  ticks : Nat
  dispatches : Nat
  pidToSlot : Nat → Nat
  slotCount : Nat
  runnableBitmap : Word
  currentSlot : Nat
  currentPid : Nat
  totalRunnable : Nat
  trapFrame : Option ProcCtx
  timesliceRemaining : Nat
  table : Nat → ProcInfo
  cr3 : Nat
  tssRsp0 : Nat

/-- An entry of the process table gets new contents. -/
def Sched.put (s : Sched) (idx : Nat) (p : ProcInfo) : Sched :=
  { s with table := Function.update s.table idx p }

/-- The table index of the process in a slot. -/
def getProcBySlot (s : Sched) (slot : Nat) : Option Nat :=
  if s.slotCount ≤ slot then none else some (s.pidToSlot slot)

/-- The C shift takes its count modulo 64 on this machine, so that `start = 64` keeps no bit. -/
def findNextRunnable (s : Sched) (start : Nat) : Option Nat :=
  let bitmap := s.runnableBitmap
  if bitmap = 0#64 then none else
  let below := (1#64 <<< (start % 64)) - 1#64
  let high := bitmap &&& ~~~below
  if 0 < start ∧ start < 64 ∧ high ≠ 0#64 then some (lowestBit high) else
  let low := bitmap &&& below
  if low ≠ 0#64 then some (lowestBit low) else some (lowestBit bitmap)

/-- `brights_sched_init`: no process is scheduled.  What the slots held is left over. -/
def schedInit (s : Sched) : Sched :=
  { s with
    ticks := 0, dispatches := 0, runnableBitmap := 0, currentSlot := 0, currentPid := 0,
    totalRunnable := 0, slotCount := 0, timesliceRemaining := schedQuantum }

/-- `brights_sched_mark_dispatch`: a new time slice. -/
def schedMarkDispatch (s : Sched) : Sched :=
  { s with dispatches := (s.dispatches + 1) % 2 ^ 64, timesliceRemaining := schedQuantum }

/-! ### Membership

Processes are added behind the last slot.  A removal closes the gap.
-/

/-- `brights_sched_add_process`.  The check for a process that is there already compares the
contents of the slots, which are indices, with the pid. -/
def schedAddProcess (s : Sched) (pid : Nat) : Sched × Int :=
  if pid = 0 ∨ schedMaxProc ≤ s.slotCount then (s, -1) else
  if (List.range s.slotCount).any fun i => s.pidToSlot i == pid then (s, 0) else
  match (List.range schedMaxProc).find? fun i => (s.table i).pid == pid with
  | none => (s, -1)
  | some i =>
      ({ s with
         slotCount := s.slotCount + 1
         pidToSlot := Function.update s.pidToSlot s.slotCount i
         runnableBitmap := bitSet s.runnableBitmap s.slotCount
         totalRunnable := (s.totalRunnable + 1) % 2 ^ 32 }, 0)

/-- The first slot whose process has this pid. -/
def schedSlotOf (s : Sched) (pid : Nat) : Option Nat :=
  (List.range s.slotCount).find? fun i => (s.table (s.pidToSlot i)).pid == pid

/-- The slots behind the removed one move down; the bitmap does not. -/
def schedRemoveProcess (s : Sched) (pid : Nat) : Sched × Int :=
  match schedSlotOf s pid with
  | none => (s, -1)
  | some i =>
      let totalRunnable :=
        if bitTest s.runnableBitmap i then (s.totalRunnable + (2 ^ 32 - 1)) % 2 ^ 32
        else s.totalRunnable
      let slotCount := s.slotCount - 1
      ({ s with
         totalRunnable := totalRunnable
         runnableBitmap := bitClear s.runnableBitmap i
         pidToSlot := fun j =>
           if i ≤ j ∧ j < slotCount then s.pidToSlot (j + 1) else s.pidToSlot j
         slotCount := slotCount
         currentSlot := if slotCount ≤ s.currentSlot ∧ 0 < slotCount then 0 else s.currentSlot },
        0)

/-! ### Switching

The registers of the process that stops are saved from the trap frame, and those of the next one put
there.  A switch that finds no slot leaves the current one stopped.
-/

/-- Make the process in slot `next` the running one. -/
def schedDispatch (s : Sched) (next idx : Nat) : Sched :=
  schedMarkDispatch
    (({ s with currentSlot := next, currentPid := (s.table idx).pid } : Sched).put idx
      { s.table idx with state := .running })

/-- `brights_sched_schedule`: the slot to run next is looked for from the current one on. -/
def schedSchedule (s : Sched) : Sched × Int :=
  if s.totalRunnable = 0 then ({ s with currentPid := 0 }, -1) else
  match findNextRunnable s s.currentSlot with
  | none => ({ s with currentPid := 0 }, -1)
  | some next =>
      match getProcBySlot s next with
      | none => ({ s with currentPid := 0 }, -1)
      | some idx => (schedDispatch s next idx, 0)

/-- `brights_sched_set_trap_frame`. -/
def schedSetTrapFrame (s : Sched) (tf : Option ProcCtx) : Sched := { s with trapFrame := tf }

/-- `save_context`: the registers of the trap frame go to the process in the slot. -/
def saveContext (s : Sched) (slot : Nat) : Sched :=
  match getProcBySlot s slot, s.trapFrame with
  | some idx, some tf => s.put idx { s.table idx with ctx := tf }
  | _, _ => s

/-- `restore_context`: the trap frame gets the registers of the process in the slot, and the
processor its space and its kernel stack, if it has them. -/
def restoreContext (s : Sched) (slot : Nat) : Sched :=
  match getProcBySlot s slot, s.trapFrame with
  | some idx, some _ =>
      let p := s.table idx
      { s with
        trapFrame := some p.ctx
        cr3 := if p.isUser = true ∧ p.cr3 ≠ 0 then p.cr3 else s.cr3
        tssRsp0 := if p.isUser = true ∧ 0 < p.kernelStack then p.kernelStack else s.tssRsp0 }
  | _, _ => s

/-- The process in the current slot stops running. -/
def schedPreempt (s : Sched) : Sched :=
  match getProcBySlot s s.currentSlot with
  | some idx =>
      if (s.table idx).state = .running then s.put idx { s.table idx with state := .runnable }
      else s
  | none => s

/-- `brights_sched_yield`: the slot to run next is looked for behind the current one. -/
def schedYield (s : Sched) : Sched × Int :=
  if s.currentPid = 0 ∨ s.totalRunnable ≤ 1 then (s, -1) else
  let s := schedPreempt (saveContext s s.currentSlot)
  match findNextRunnable s (s.currentSlot + 1) with
  | none => (s, -1)
  | some next =>
      match getProcBySlot s next with
      | none => (s, -1)
      | some idx => (restoreContext (schedDispatch s next idx) next, 0)

/-- `brights_sched_tick`: the end of the time slice is a yield. -/
def schedTick (s : Sched) : Sched :=
  let s := { s with ticks := (s.ticks + 1) % 2 ^ 64 }
  if s.currentPid ≠ 0 then
    let s := { s with timesliceRemaining := (s.timesliceRemaining + (2 ^ 32 - 1)) % 2 ^ 32 }
    if s.timesliceRemaining = 0 then (schedYield s).1 else s
  else s

end BrightS
