/-
The command queues of an NVMe drive: `drivers/nvme.c`.

The driver and the drive share two rings of `NVME_IO_Q_DEPTH` entries: the driver writes
commands and a doorbell, the drive takes the commands in their order and writes one completion
for each.  The two run side by side, so a step of the system is one round of the driver's
polling loop, or the drive taking a command, or the drive writing a completion.

The completion ring `io_cq` is not volatile, unlike the registers behind `nvme_mmio`, and nothing
in the polling loop writes memory before the phase bit is right.  So the compiled loop loads the
bit once, before its first round, and compares that value for ever (`loaded`): what the drive
writes later is not seen.

A label on each ring entry says which call the entry comes from.  Neither side reads the labels.
-/
import BrightS.Lib.PhaseRing
import BrightS.Lib.Words

namespace BrightS

open PhaseRing

def nvmeIoQDepth : Nat := 64

def nvmeCidMax : Nat := 0xFFFC

/-- The members of `nvme_cmd_t` that the driver fills in. -/
structure NvmeCmd where
  opc : Nat
  cid : Nat
  nsid : Nat
  prp1 : Nat
  prp2 : Nat
  cdw10 : Nat
  cdw11 : Nat
  cdw12 : Nat

/-- `nvme_cqe_t`: bit 0 of the status is the phase, the status itself stands above it. -/
structure NvmeCqe where
  dw0 : Nat
  dw1 : Nat
  sqHead : Nat
  sqId : Nat
  cid : Nat
  status : Nat

/-- An entry of a ring, and the number of the call that it comes from. -/
structure WithLabel (α : Type) where
  label : Option Nat
  entry : α

/-- The statics of the driver.  `ioPrp2` are its lists of pages, which start at `ioPrp2Addr`. -/
structure NvmeDriver where
  ioSqTail : Nat
  ioCqHead : Nat
  ioPhase : Nat
  ioCidNext : Nat
  ioPrp2 : Nat → Nat → Nat
  ioPrp2Addr : Nat

/-- The arguments of `nvme_submit_io`; `buf` is the address of the buffer. -/
structure NvmeCall where
  opc : Nat
  lba : Nat
  nblocks : Nat
  buf : Nat

/-! ### The driver

A call makes a command and then looks at one entry of the completion ring until the phase bit there
says that the drive has written it.  The entry must carry the identifier of the command.
-/

/-- `alloc_cid`: the identifiers go round from 1 and leave out those from `NVME_CID_MAX` on. -/
def allocCid (dr : NvmeDriver) : NvmeDriver × Nat :=
  let next := (dr.ioCidNext + 1) % 2 ^ 16
  ({ dr with ioCidNext := if nvmeCidMax ≤ next then 1 else next }, dr.ioCidNext)

/-- The command that `nvme_submit_io` makes out of its arguments, with the list of pages for a
command of several blocks, unless there are too many. -/
def nvmeCommand (dr : NvmeDriver) (c : NvmeCall) : NvmeDriver × Option NvmeCmd :=
  let (dr, cid) := allocCid dr
  let cmd : NvmeCmd :=
    { opc := c.opc, cid := cid, nsid := 1, prp1 := c.buf, prp2 := 0
      cdw10 := c.lba % 2 ^ 32, cdw11 := c.lba / 2 ^ 32 % 2 ^ 32
      cdw12 := (c.nblocks + (2 ^ 32 - 1)) % 2 ^ 32 }
  if 1 < c.nblocks then
    let slot := cid % nvmeIoQDepth
    let entries := c.nblocks - 1
    if 512 < entries then (dr, none)
    else
      let addr := (c.buf + 4096) % 2 ^ 64
      let prp := fun i => if i < entries then (addr + i * 4096) % 2 ^ 64 else dr.ioPrp2 slot i
      ({ dr with ioPrp2 := Function.update dr.ioPrp2 slot prp },
        some { cmd with prp2 := dr.ioPrp2Addr + slot * 4096 })
  else (dr, some cmd)

/-- How a round of the polling loop ends: with another one, or with one of the two returns. -/
inductive NvmePoll where
  | again
  | mismatch
  | done (dr : NvmeDriver) (status : Nat)

/-- One round of the loop of `nvme_submit_io`, for the command with the given identifier: `phase` is
what the loop has of the phase bit, `cqe` the entry that it points to. -/
def nvmePollIo (dr : NvmeDriver) (phase : Nat) (cqe : NvmeCqe) (cid : Nat) : NvmePoll :=
  if phase ≠ dr.ioPhase then .again
  else if cqe.cid ≠ cid then .mismatch
  else
    let head := (dr.ioCqHead + 1) % nvmeIoQDepth
    .done
      { dr with ioCqHead := head, ioPhase := if head = 0 then dr.ioPhase ^^^ 1 else dr.ioPhase }
      (cqe.status / 2 % 2 ^ 15)

/-! ### The driver and the drive

The rings and the doorbells are what the two have in common.  The drive looks at the submission
doorbell, the driver at the completion ring; nothing tells either of them that the other one is
slow.
-/

/-- The drive: where it takes the next command and writes the next completion, and the commands
it has taken and not completed. -/
structure NvmeDrive where
  sqHead : Nat
  cqTail : Nat
  phase : Nat
  running : List (WithLabel NvmeCmd)

/-- How a call returned, and for a completion the label of the ring entry it was read from. -/
inductive NvmeAnswer where
  | rejected
  | mismatch
  | completed (label : Option Nat) (status : Nat)
  deriving DecidableEq

/-- `waiting` is the number of the call whose loop is running and the identifier of its command,
and `loaded` the phase bit that this loop has loaded, if it has made a round.  `calls` are the calls
made so far, `answers` the returns with the number of the call, and `completions` what the drive has
completed, all in their order. -/
structure NvmeSystem where
  driver : NvmeDriver
  drive : NvmeDrive
  ioSq : Nat → WithLabel NvmeCmd
  ioCq : Nat → WithLabel NvmeCqe
  sqDoorbell : Nat
  cqDoorbell : Nat
  waiting : Option (Nat × Nat)
  loaded : Option Nat
  calls : List NvmeCall
  answers : List (Nat × NvmeAnswer)
  completions : List (Option Nat × Nat)

/-- What can happen next.  The drive chooses what it reports. -/
inductive NvmeEvent where
  | submit (c : NvmeCall)
  | poll
  | fetch
  | complete (dw0 dw1 status : Nat)

namespace NvmeSystem

/-- The part of `nvme_submit_io` before its loop. -/
def submit (s : NvmeSystem) (c : NvmeCall) : NvmeSystem :=
  let call := s.calls.length
  let s := { s with calls := s.calls ++ [c] }
  match nvmeCommand s.driver c with
  | (dr, none) => { s with driver := dr, answers := s.answers ++ [(call, .rejected)] }
  | (dr, some cmd) =>
      let tail := (dr.ioSqTail + 1) % nvmeIoQDepth
      { s with
        driver := { dr with ioSqTail := tail }
        ioSq := Function.update s.ioSq dr.ioSqTail ⟨some call, cmd⟩
        sqDoorbell := tail
        waiting := some (call, cmd.cid)
        loaded := none }

/-- The first round loads the phase bit from the ring, the later ones have it in a register. -/
def poll (s : NvmeSystem) (call cid : Nat) : NvmeSystem :=
  let cqe := s.ioCq s.driver.ioCqHead
  let phase := s.loaded.getD (cqe.entry.status % 2)
  match nvmePollIo s.driver phase cqe.entry cid with
  | .again => { s with loaded := some phase }
  | .mismatch => { s with waiting := none, answers := s.answers ++ [(call, .mismatch)] }
  | .done dr status =>
      { s with
        driver := dr
        cqDoorbell := dr.ioCqHead
        waiting := none
        answers := s.answers ++ [(call, .completed cqe.label status)] }

/-- The drive takes the next command. -/
def fetch (s : NvmeSystem) : NvmeSystem :=
  { s with
    drive :=
      { s.drive with
        sqHead := nextPos nvmeIoQDepth s.drive.sqHead
        running := s.drive.running ++ [s.ioSq s.drive.sqHead] } }

/-- The drive completes a command: the completion goes to the next slot, marked with the phase. -/
def complete (s : NvmeSystem) (cmd : WithLabel NvmeCmd) (rest : List (WithLabel NvmeCmd))
    (dw0 dw1 status : Nat) : NvmeSystem :=
  { s with
    drive :=
      { s.drive with
        cqTail := nextPos nvmeIoQDepth s.drive.cqTail
        phase := nextPhase nvmeIoQDepth s.drive.cqTail s.drive.phase
        running := rest }
    ioCq := Function.update s.ioCq s.drive.cqTail
      ⟨cmd.label, { dw0 := dw0, dw1 := dw1, sqHead := s.drive.sqHead, sqId := 1
                    cid := cmd.entry.cid, status := status * 2 + s.drive.phase }⟩
    completions := s.completions ++ [(cmd.label, status)] }

/-- One step of the driver or of the drive.  The drive takes a command when the doorbell says
there is one, completes the commands in the order in which it took them, and reports a status
of 15 bits. -/
def next (s : NvmeSystem) : NvmeEvent → Option NvmeSystem
  | .submit c => if s.waiting = none then some (s.submit c) else none
  | .poll => s.waiting.map fun w => s.poll w.1 w.2
  | .fetch => if s.drive.sqHead = s.sqDoorbell then none else some s.fetch
  | .complete dw0 dw1 status =>
      match s.drive.running with
      | [] => none
      | cmd :: rest => if status < 2 ^ 15 then some (s.complete cmd rest dw0 dw1 status) else none

end NvmeSystem

/-- After `brights_nvme_init`: the rings are zero. -/
def nvmeStart (ioPrp2Addr : Nat) : NvmeSystem :=
  { driver :=
      { ioSqTail := 0, ioCqHead := 0, ioPhase := 1, ioCidNext := 1
        ioPrp2 := fun _ _ => 0, ioPrp2Addr := ioPrp2Addr }
    drive := { sqHead := 0, cqTail := 0, phase := 1, running := [] }
    ioSq := fun _ => ⟨none, ⟨0, 0, 0, 0, 0, 0, 0, 0⟩⟩
    ioCq := fun _ => ⟨none, ⟨0, 0, 0, 0, 0, 0⟩⟩
    sqDoorbell := 0, cqDoorbell := 0, waiting := none, loaded := none, calls := [], answers := [],
    completions := [] }

end BrightS
