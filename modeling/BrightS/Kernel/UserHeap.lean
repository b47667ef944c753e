/-
The heap of a user program: `malloc`, `free` and `realloc` of `sys/user/libc.c`.

The heap is one range of memory from `heap_start` to `heap_brk`, and each block in it starts
with a header of two words: the size of what follows, and whether the block is free.  Sizes and
addresses are 64-bit values.  The loops walk from header to header; they come with a bound on
the number of their rounds, and give nothing if that is not enough.
-/
import BrightS.Lib.Memory
import BrightS.Lib.Words

namespace BrightS

open Bytes Words

/-- `sizeof(malloc_header_t)` -/
def mallocHeaderSize : Nat := 16

def mallocAlign : Nat := 8

/-- The system break: asked with address 0 it answers where the break is, and an answer that
grants another address has moved the break up to there. -/
structure SystemBreak where
  answer : Nat → Nat → Nat
  query : ∀ current, answer current 0 = current
  grows : ∀ current addr, addr ≠ 0 → answer current addr = addr → current ≤ addr

/-- The statics of the library, the memory, and where the system has the break. -/
structure UserHeap where
  heapStart : Nat
  heapEnd : Nat
  heapBrk : Nat
  mem : Mem
  systemBreak : Nat

/-! ### Headers

The blocks lie one behind the other, so the size of one leads to the next.
-/

/-- The first word of a header. -/
def hdrSize (m : Mem) (hdr : Nat) : Nat := word m hdr

/-- The second word of a header. -/
def hdrFree (m : Mem) (hdr : Nat) : Nat := word m (hdr + 8)

/-- A header gets a size. -/
def setHdrSize (m : Mem) (hdr size : Nat) : Mem := setWord m hdr size

/-- A header is marked as free or taken. -/
def setHdrFree (m : Mem) (hdr free : Nat) : Mem := setWord m (hdr + 8) free

/-- The address behind a block. -/
def hdrNext (m : Mem) (hdr : Nat) : Nat := (hdr + (mallocHeaderSize + hdrSize m hdr)) % 2 ^ 64

/-! ### The functions

The first block that fits is taken, and what is left of it split off.  A heap without such a block
grows at its end.
-/

section

variable (brk : SystemBreak)

/-- `sys_brk`. -/
def sysBrk (h : UserHeap) (addr : Nat) : UserHeap × Nat :=
  let answer := brk.answer h.systemBreak addr
  ({ h with systemBreak := if addr ≠ 0 ∧ answer = addr then addr else h.systemBreak }, answer)

/-- `(size + MALLOC_ALIGN - 1) & ~(MALLOC_ALIGN - 1)` -/
def mallocAligned (size : Nat) : Nat := (size + mallocAlign - 1) % 2 ^ 64 / mallocAlign * mallocAlign

/-- The first call asks where the break is. -/
def mallocInit (h : UserHeap) : UserHeap :=
  if h.heapStart = 0 then
    let (h, start) := sysBrk brk h 0
    let h := { h with heapStart := start, heapEnd := start, heapBrk := start }
    let (h, _) := sysBrk brk h ((h.heapStart + 4096) % 2 ^ 64)
    let h := { h with heapEnd := (h.heapStart + 4096) % 2 ^ 64 }
    { h with mem := setHdrFree (setHdrSize h.mem h.heapStart (4096 - mallocHeaderSize)) h.heapStart 1 }
  else h

/-- The loop that looks for the first block that is free and large enough. -/
def mallocFind (m : Mem) (heapBrk size : Nat) : Nat → Nat → Option (Option Nat)
  | 0, _ => none
  | rounds + 1, cur =>
      if cur < heapBrk then
        if hdrFree m cur ≠ 0 ∧ size ≤ hdrSize m cur then some (some cur)
        else mallocFind m heapBrk size rounds (hdrNext m cur)
      else some none

/-- The block is taken, and split if enough remains. -/
def mallocTake (m : Mem) (cur size : Nat) : Mem :=
  let remaining := hdrSize m cur - size
  let m :=
    if mallocHeaderSize + mallocAlign < remaining then
      let newHdr := (cur + mallocHeaderSize + size) % 2 ^ 64
      setHdrSize (setHdrFree (setHdrSize m newHdr (remaining - mallocHeaderSize)) newHdr 1) cur size
    else m
  setHdrFree m cur 0

/-- The end of `malloc`: the heap grows by one block, of a page at least, which is taken. -/
def mallocExtend (h : UserHeap) (size : Nat) : UserHeap × Nat :=
  let extend := (size + mallocHeaderSize) % 2 ^ 64
  let extend := if extend < 4096 then 4096 else extend
  let newBrk := (h.heapBrk + extend) % 2 ^ 64
  let (h, answer) := sysBrk brk h newBrk
  if answer = newBrk then
    let m := setHdrFree (setHdrSize h.mem h.heapBrk (sub64 extend mallocHeaderSize)) h.heapBrk 0
    ({ h with mem := m, heapBrk := newBrk }, (sub64 newBrk extend + mallocHeaderSize) % 2 ^ 64)
  else (h, 0)

/-- A bound on the number of headers. -/
def mallocRounds (h : UserHeap) : Nat := (h.heapBrk - h.heapStart) / mallocHeaderSize + 1

/-- `malloc`: null for nothing, and when the heap cannot grow. -/
def malloc (h : UserHeap) (size : Nat) : Option (UserHeap × Nat) :=
  if size = 0 then some (h, 0)
  else
    let size := mallocAligned size
    let h := mallocInit brk h
    (mallocFind h.mem h.heapBrk size (mallocRounds h) h.heapStart).map fun found =>
      match found with
      | some cur =>
          ({ h with mem := mallocTake h.mem cur size }, (cur + mallocHeaderSize) % 2 ^ 64)
      | none => mallocExtend brk h size

/-- The next block is joined to this one, if it is free. -/
def freeNext (m : Mem) (heapBrk hdr : Nat) : Mem :=
  let next := hdrNext m hdr
  if next < heapBrk ∧ hdrFree m next ≠ 0 then
    setHdrSize m hdr ((hdrSize m hdr + (mallocHeaderSize + hdrSize m next)) % 2 ^ 64)
  else m

/-- The loop that looks for the block before this one, and joins this one to it if it is free. -/
def freePrev (m : Mem) (hdr : Nat) : Nat → Nat → Option Mem
  | 0, _ => none
  | rounds + 1, cur =>
      if cur < hdr then
        if hdrNext m cur = hdr ∧ hdrFree m cur ≠ 0 then
          some (setHdrSize m cur ((hdrSize m cur + (mallocHeaderSize + hdrSize m hdr)) % 2 ^ 64))
        else freePrev m hdr rounds (hdrNext m cur)
      else some m

/-- `free`: the block is joined to the free ones beside it. -/
def userFree (h : UserHeap) (ptr : Nat) : Option UserHeap :=
  if ptr = 0 then some h
  else
    let hdr := sub64 ptr mallocHeaderSize
    let m := freeNext (setHdrFree h.mem hdr 1) h.heapBrk hdr
    (freePrev m hdr (mallocRounds h) h.heapStart).map fun m => { h with mem := m }

/-- `realloc`: a block that is large enough stays where it is. -/
def realloc (h : UserHeap) (ptr newSize : Nat) : Option (UserHeap × Nat) :=
  if ptr = 0 then malloc brk h newSize
  else if newSize = 0 then (userFree h ptr).map fun h => (h, 0)
  else
    let hdr := sub64 ptr mallocHeaderSize
    if newSize ≤ hdrSize h.mem hdr then some (h, ptr)
    else
      (malloc brk h newSize).bind fun r =>
        if r.2 = 0 then some r
        else
          let m := copyBytes r.1.mem r.2 ptr (hdrSize r.1.mem hdr)
          (userFree { r.1 with mem := m } ptr).map fun h => (h, r.2)

end

/-! ### Programs

A program that keeps to the rules frees only what it holds, once, and writes only there.
-/

/-- A pointer that the program holds: the size it asked for, and what it last wrote there. -/
structure LiveBlock where
  ptr : Nat
  size : Nat
  data : Nat → Byte

/-- The heap and what the program holds of it. -/
structure UserProgram where
  heap : UserHeap
  live : List LiveBlock

/-- What a program does with its heap. -/
inductive HeapCall where
  | malloc (size : Nat)
  | free (ptr : Nat)
  | realloc (ptr size : Nat)
  | write (ptr i : Nat) (byte : Byte)

namespace UserProgram

/-- The program gets a pointer, unless it is null: it holds the bytes that are there. -/
def gain (live : List LiveBlock) (r : UserHeap × Nat) (size : Nat) : UserProgram :=
  { heap := r.1
    live := if r.2 = 0 then live else live ++ [⟨r.2, size, fun i => r.1.mem (r.2 + i)⟩] }

/-- The pointers without this one. -/
def drop (live : List LiveBlock) (ptr : Nat) : List LiveBlock := live.filter fun e => e.ptr ≠ ptr

/-- The pointers after a `realloc` that was not refused: what the new block is to hold is what the
old one held, as far as both go. -/
def regain (live : List LiveBlock) (r : UserHeap × Nat) (ptr size : Nat) : List LiveBlock :=
  match live.find? fun e => e.ptr = ptr with
  | none => live
  | some e =>
      drop live ptr ++
        [⟨r.2, size, fun i => if i < min e.size size then e.data i else r.1.mem (r.2 + i)⟩]

variable (brk : SystemBreak)

/-- The program after a call. -/
def next (p : UserProgram) : HeapCall → Option UserProgram
  | .malloc size => (malloc brk p.heap size).map fun r => gain p.live r size
  | .free ptr => (userFree p.heap ptr).map fun h => { heap := h, live := drop p.live ptr }
  | .realloc ptr size =>
      (realloc brk p.heap ptr size).map fun r =>
        if ptr = 0 then gain p.live r size
        else if size = 0 then { heap := r.1, live := drop p.live ptr }
        else if r.2 = 0 then { heap := r.1, live := p.live }
        else { heap := r.1, live := regain p.live r ptr size }
  | .write ptr i byte =>
      some
        { heap := { p.heap with mem := Function.update p.heap.mem (ptr + i) byte }
          live := p.live.map fun e =>
            if e.ptr = ptr then { e with data := Function.update e.data i byte } else e }

/-- What a program may ask for: sizes below 2^63, and only what it holds. -/
def Allowed (p : UserProgram) : HeapCall → Prop
  | .malloc size => size < 2 ^ 63
  | .free ptr => ptr = 0 ∨ ∃ e ∈ p.live, e.ptr = ptr
  | .realloc ptr size => size < 2 ^ 63 ∧ (ptr = 0 ∨ ∃ e ∈ p.live, e.ptr = ptr)
  | .write ptr i _ => ∃ e ∈ p.live, e.ptr = ptr ∧ i < e.size

instance (p : UserProgram) : (call : HeapCall) → Decidable (p.Allowed call)
  | .malloc size => inferInstanceAs (Decidable (size < 2 ^ 63))
  | .free ptr => inferInstanceAs (Decidable (ptr = 0 ∨ ∃ e ∈ p.live, e.ptr = ptr))
  | .realloc ptr size =>
      inferInstanceAs (Decidable (size < 2 ^ 63 ∧ (ptr = 0 ∨ ∃ e ∈ p.live, e.ptr = ptr)))
  | .write ptr i _ => inferInstanceAs (Decidable (∃ e ∈ p.live, e.ptr = ptr ∧ i < e.size))

end UserProgram

/-- Before the first call, with the break at `start`. -/
def userHeapStart (start : Nat) (mem : Mem) : UserProgram :=
  { heap := { heapStart := 0, heapEnd := 0, heapBrk := 0, mem := mem, systemBreak := start }
    live := [] }

end BrightS
