/-
Pipes: `kernel/pipe.c`.

A pipe is a ring of bytes.  A call passes the pipe as a pointer, null when there is no
pipe of that number; a pointer to bytes is `none` when it is null.

Neither side waits: a write stores what there is room for, and a read takes what there is.  The
flags of the two ends are set once and cleared by the closing calls; a write end that is closed
refuses writes, and nothing else follows from them.
-/
import BrightS.Lib.Bytes

namespace BrightS

open Bytes

def pipeBufSize : Nat := 4096
def maxPipes : Nat := 16

/-- `brights_pipe_t`: a ring, where it is read and written, and how many bytes wait in it. -/
structure Pipe where
  buf : Nat → Byte
  rd : Nat
  wr : Nat
  len : Nat
  readEndOpen : Bool
  writeEndOpen : Bool

/-- The pipe table, and how many of its slots have been used. -/
structure Pipes where
  pipeTable : Nat → Pipe
  pipeCount : Nat

/-- `brights_pipe_create`: the next slot of the table.  No call gives one back. -/
def pipeCreate (p : Pipes) : Pipes × Option Nat :=
  if maxPipes ≤ p.pipeCount then (p, none) else
  ({ pipeTable := Function.update p.pipeTable p.pipeCount
       { p.pipeTable p.pipeCount with
         rd := 0, wr := 0, len := 0, readEndOpen := true, writeEndOpen := true }
     pipeCount := p.pipeCount + 1 }, some p.pipeCount)

/-- `brights_pipe_get`: the slot behind a number.  A pipe that is closed at both ends is found as
well. -/
def pipeGet (p : Pipes) (idx : Int) : Option Nat :=
  if idx < 0 ∨ (p.pipeCount : Int) ≤ idx then none else some idx.toNat

/-! ### Bytes in and out

The loops move one byte at a time, at `wr` and at `rd`, and `len` counts what lies between.
-/

/-- The body of the loop that writes. -/
def pipePut (p : Pipe) (byte : Byte) : Pipe :=
  { p with
    buf := Function.update p.buf p.wr byte
    wr := (p.wr + 1) % pipeBufSize
    len := p.len + 1 }

/-- The loop stops when the pipe is full; the number is that of the bytes written. -/
def pipeWriteLoop (p : Pipe) : List Byte → Pipe × Nat
  | [] => (p, 0)
  | byte :: rest =>
      if pipeBufSize ≤ p.len then (p, 0) else
      let r := pipeWriteLoop (pipePut p byte) rest
      (r.1, r.2 + 1)

/-- `brights_pipe_write`: what the pipe has room for. -/
def pipeWrite (p : Pipe) (src : Option (List Byte)) : Pipe × Int :=
  match src with
  | none => (p, -1)
  | some bytes =>
      if p.writeEndOpen = false then (p, -1) else
      let r := pipeWriteLoop p bytes
      (r.1, r.2)

/-- The body of the loop that reads. -/
def pipeNext (p : Pipe) : Pipe :=
  { p with rd := (p.rd + 1) % pipeBufSize, len := p.len - 1 }

/-- The loop stops when the pipe is empty, whether the writer has closed it or not. -/
def pipeReadLoop (p : Pipe) : Nat → Pipe × List Byte
  | 0 => (p, [])
  | n + 1 =>
      if p.len = 0 then (p, []) else
      let r := pipeReadLoop (pipeNext p) n
      (r.1, p.buf p.rd :: r.2)

/-- The bytes stored in the caller's buffer, and the value returned. -/
def pipeRead (p : Pipe) (dst : Bool) (n : Nat) : Pipe × List Byte × Int :=
  if dst = false then (p, [], -1) else
  let r := pipeReadLoop p n
  (r.1, r.2, r.2.length)

/-- `brights_pipe_close_read`. -/
def pipeCloseRead (p : Pipe) : Pipe := { p with readEndOpen := false }

/-- `brights_pipe_close_write`. -/
def pipeCloseWrite (p : Pipe) : Pipe := { p with writeEndOpen := false }

/-! ### The calls by number

The system calls name a pipe by its place in the table.
-/

/-- A slot of the table gets new contents. -/
def Pipes.put (p : Pipes) (i : Nat) (pipe : Pipe) : Pipes :=
  { p with pipeTable := Function.update p.pipeTable i pipe }

/-- A write to the pipe of this number. -/
def pipesWrite (p : Pipes) (idx : Int) (src : Option (List Byte)) : Pipes × Int :=
  match pipeGet p idx with
  | none => (p, -1)
  | some i =>
      let r := pipeWrite (p.pipeTable i) src
      (p.put i r.1, r.2)

/-- A read from the pipe of this number. -/
def pipesRead (p : Pipes) (idx : Int) (dst : Bool) (n : Nat) : Pipes × List Byte × Int :=
  match pipeGet p idx with
  | none => (p, [], -1)
  | some i =>
      let r := pipeRead (p.pipeTable i) dst n
      (p.put i r.1, r.2)

/-- The read end of the pipe of this number is closed. -/
def pipesCloseRead (p : Pipes) (idx : Int) : Pipes :=
  match pipeGet p idx with
  | none => p
  | some i => p.put i (pipeCloseRead (p.pipeTable i))

/-- The write end of the pipe of this number is closed. -/
def pipesCloseWrite (p : Pipes) (idx : Int) : Pipes :=
  match pipeGet p idx with
  | none => p
  | some i => p.put i (pipeCloseWrite (p.pipeTable i))

end BrightS
