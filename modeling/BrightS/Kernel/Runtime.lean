/-
Memory functions: `kernel/runtime.c`, and those of `kernel/kernel_util.h` that do the same.

The bulk of a buffer is accessed in words of eight bytes.  A copy moves some bytes twice for that:
one of twelve bytes is two moves of eight.

Addresses are numbers, buffers do not wrap around.  A wide access is one to its bytes in
memory, all of them read before any is stored, at any alignment.
-/
import BrightS.Lib.Overwrite

namespace BrightS

open Bytes

/-! ### Copying

By length: two overlapping moves, loops over 64 and 16 bytes behind a first move that aligns the
target, or the string instruction.
-/

/-- The variables of a copy. -/
structure CopyState where
  mem : Mem
  d : Nat
  s : Nat
  n : Nat

/-- `(8 - ((uintptr_t)d & 7)) & 7`. -/
def unaligned (d : Nat) : Nat := (8 - d % 8) % 8

/-- `((uint64_t *)d)[i] = ((const uint64_t *)s)[i]` for the first `words` numbers. -/
def copyWords (words : Nat) (m : Mem) (d s : Nat) : Mem :=
  (List.range words).foldl (fun m i => moveBytes 8 m (d + 8 * i) (s + 8 * i)) m

/-- `while (n >= 8 * words)`. -/
def copyLoop (words : Nat) [NeZero words] (c : CopyState) : CopyState :=
  if 8 * words ≤ c.n then
    copyLoop words
      { mem := copyWords words c.mem c.d c.s, d := c.d + 8 * words, s := c.s + 8 * words
        n := c.n - 8 * words }
  else c
termination_by c.n
decreasing_by
  have := NeZero.pos words
  omega

/-- What is left after the loops. -/
def copyTail (c : CopyState) : Mem :=
  if 8 ≤ c.n then moveBytes 8 (moveBytes 8 c.mem c.d c.s) (c.d + c.n - 8) (c.s + c.n - 8)
  else if 0 < c.n then
    let m := moveBytes 1 c.mem c.d c.s
    if 4 ≤ c.n then moveBytes 4 m (c.d + c.n - 4) (c.s + c.n - 4)
    else moveBytes 1 m (c.d + c.n - 1) (c.s + c.n - 1)
  else c.mem

/-- `rep movsb` copies byte by byte, forward. -/
def memcpy (m : Mem) (dst src n : Nat) : Mem :=
  if n ≤ 16 then
    if 8 ≤ n then moveBytes 8 (moveBytes 8 m dst src) (dst + n - 8) (src + n - 8)
    else if 4 ≤ n then moveBytes 4 (moveBytes 4 m dst src) (dst + n - 4) (src + n - 4)
    else if 2 ≤ n then
      let m := moveBytes 2 m dst src
      if 2 < n then moveBytes 1 m (dst + n - 1) (src + n - 1) else m
    else if n = 1 then moveBytes 1 m dst src
    else m
  else if 256 ≤ n then copyBytes m dst src n
  else
    let u := unaligned dst
    let c : CopyState :=
      if 0 < u then { mem := moveBytes 8 m dst src, d := dst + u, s := src + u, n := n - u }
      else { mem := m, d := dst, s := src, n := n }
    copyTail (copyLoop 2 (copyLoop 8 c))

/-! ### Filling

The same loops, with a byte repeated eight times.
-/

/-- The variables of a fill. -/
structure FillState where
  mem : Mem
  d : Nat
  n : Nat

/-- `pattern |= pattern << 8` and so on. -/
def bytePattern (byte : Byte) : BitVec 64 :=
  let p := byte.setWidth 64
  let p := p ||| p <<< 8
  let p := p ||| p <<< 16
  p ||| p <<< 32

/-- `((uint64_t *)d)[i] = pattern` for the first `words` numbers. -/
def fillWords (words : Nat) (pattern : BitVec 64) (m : Mem) (d : Nat) : Mem :=
  (List.range words).foldl (fun m i => storeAt m (d + 8 * i) (store64 pattern)) m

/-- `while (n >= 8 * words)`, with stores of the pattern. -/
def fillLoop (words : Nat) [NeZero words] (pattern : BitVec 64) (c : FillState) : FillState :=
  if 8 * words ≤ c.n then
    fillLoop words pattern
      { mem := fillWords words pattern c.mem c.d, d := c.d + 8 * words, n := c.n - 8 * words }
  else c
termination_by c.n
decreasing_by
  have := NeZero.pos words
  omega

/-- `for (i = 0; i < n; ++i) d[i] = byte`. -/
def fillBytes (byte : Byte) (m : Mem) (d n : Nat) : Mem :=
  (List.range n).foldl (fun m i => storeAt m (d + i) [byte]) m

/-- `memset`: wide stores from eight bytes on, and single ones for what is left. -/
def memset (m : Mem) (dst : Nat) (c : BitVec 32) (n : Nat) : Mem :=
  let byte := c.setWidth 8
  if n < 8 then fillBytes byte m dst n
  else
    let pattern := bytePattern byte
    let u := unaligned dst
    let f : FillState :=
      if 0 < u then { mem := storeAt m dst (store64 pattern), d := dst + u, n := n - u }
      else { mem := m, d := dst, n := n }
    let f := fillLoop 2 pattern (fillLoop 8 pattern f)
    let f : FillState :=
      if 8 ≤ f.n then { mem := storeAt f.mem f.d (store64 pattern), d := f.d + 8, n := f.n - 8 }
      else f
    fillBytes byte f.mem f.d f.n

/-! ### Comparing

The result is the difference of the first two bytes that differ.
-/

/-- The loop over bytes: the first difference of `n` bytes, if there is one. -/
def compareBytes (m : Mem) (a b : Nat) : Nat → Option Int
  | 0 => none
  | n + 1 =>
      if m a ≠ m b then some ((m a).toNat - (m b).toNat : Int) else compareBytes m (a + 1) (b + 1) n

/-- The bytes of two words are looked at only if the words differ. -/
def compareWords (m : Mem) (a b : Nat) : Option Int :=
  if load64 m a ≠ load64 m b then compareBytes m a b 8 else none

/-- `memcmp`: eight bytes a round, and what is left byte by byte. -/
def memcmp (m : Mem) (a b n : Nat) : Int :=
  if 8 ≤ n then (compareWords m a b).getD (memcmp m (a + 8) (b + 8) (n - 8))
  else (compareBytes m a b n).getD 0
termination_by n
decreasing_by omega

/-- `kutil_memcmp`: byte by byte from the start. -/
def kutilMemcmp (m : Mem) (a b n : Nat) : Int := (compareBytes m a b n).getD 0

end BrightS
