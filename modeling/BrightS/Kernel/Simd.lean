/-
Routines with vector instructions: `kernel/simd.c`.

A block with vector instructions is there if the compiler defines its macro, and is taken
if the processor has the capability.  An unaligned load and store of a vector moves its
bytes; `crc32` of the processor is the check with the Castagnoli polynomial.  The
functions for the rest, `kernel_memcpy` and so on, are not part of the repository and are
taken as they come (`KernelMem`).  Pointers have eight bytes.

The arrays of a vector addition lie apart.
-/
import BrightS.Kernel.Runtime
import BrightS.Lib.Crc

namespace BrightS

open Bytes Crc

/-- The macros of the compiler. -/
structure SimdBuild where
  sse2 : Bool
  sse41 : Bool
  avx : Bool
  avx2 : Bool

/-- What `brights_simd_init` has found out about the processor. -/
structure SimdCaps where
  hasSse2 : Bool
  hasSse41 : Bool
  hasAvx : Bool
  hasAvx2 : Bool

/-- The functions for the rest of a buffer. -/
structure KernelMem where
  memcpy : Mem → Nat → Nat → Nat → Mem
  memset : Mem → Nat → Byte → Nat → Mem
  memcmp : Mem → Nat → Nat → Nat → Int

variable (build : SimdBuild) (caps : SimdCaps) (kernel : KernelMem)

/-! ### Memory

As many whole vectors as there are, wide ones first, and a function of the kernel for the rest.
-/

/-- The loop over vectors of `w` bytes. -/
def copyVectors (w blocks : Nat) (m : Mem) (d s : Nat) : Mem :=
  (List.range blocks).foldl (fun m i => moveBytes w m (d + w * i) (s + w * i)) m

/-- `brights_simd_memcpy`.  The rest is copied from the last multiple of 32 below what is left, not
from where the vectors ended. -/
def simdMemcpy (m : Mem) (dst src n : Nat) : Mem :=
  let (m, n) :=
    if (build.avx && caps.hasAvx) = true ∧ 32 ≤ n then (copyVectors 32 (n / 32) m dst src, n % 32)
    else (m, n)
  let (m, n) :=
    if (build.sse2 && caps.hasSse2) = true ∧ 16 ≤ n then
      (copyVectors 16 (n / 16) m dst src, n % 16)
    else (m, n)
  if 0 < n then kernel.memcpy m (dst + (n - n % 32)) (src + (n - n % 32)) n else m

/-- The loop that stores vectors of `w` bytes. -/
def fillVectors (w blocks : Nat) (val : Byte) (m : Mem) (d : Nat) : Mem :=
  (List.range blocks).foldl (fun m i => storeAt m (d + w * i) (List.replicate w val)) m

/-- `brights_simd_memset`.  The rest is filled from the last multiple of 4 below what is left on. -/
def simdMemset (m : Mem) (dst : Nat) (c : BitVec 32) (n : Nat) : Mem :=
  let val := c.setWidth 8
  let (m, n) :=
    if (build.avx && caps.hasAvx) = true ∧ 32 ≤ n then (fillVectors 32 (n / 32) val m dst, n % 32)
    else (m, n)
  let (m, n) :=
    if (build.sse2 && caps.hasSse2) = true ∧ 16 ≤ n then
      (fillVectors 16 (n / 16) val m dst, n % 16)
    else (m, n)
  if 0 < n then kernel.memset m (dst + (n - n % 4)) val n else m

/-- The loop over vectors of 32 bytes; `__builtin_ctz(~mask)` is the first byte that differs. -/
def compareVectors (m : Mem) (a b : Nat) : Nat → Option Int
  | 0 => none
  | blocks + 1 => (compareBytes m a b 32).or (compareVectors m (a + 32) (b + 32) blocks)

/-- `brights_simd_memcmp`.  The rest is compared at the starts of the buffers. -/
def simdMemcmp (m : Mem) (a b n : Nat) : Int :=
  if (build.avx && caps.hasAvx) = true ∧ 32 ≤ n then
    (compareVectors m a b (n / 32)).getD (kernel.memcmp m a b (n % 32))
  else kernel.memcmp m a b n

/-! ### Addition

Numbers are added modulo `2^32`, eight at a time where there are vectors of that size.
-/

/-- The loop from `n - n % 4` on. -/
def addRest (dst a b : Nat → BitVec 32) (n : Nat) : Nat → BitVec 32 :=
  (List.range' (n - n % 4) (n % 4)).foldl (fun dst i => Function.update dst i (a i + b i)) dst

/-- The loop over vectors of eight numbers. -/
def addVectors (blocks : Nat) (dst a b : Nat → BitVec 32) : Nat → BitVec 32 :=
  (List.range blocks).foldl (fun dst i j =>
    if 8 * i ≤ j ∧ j < 8 * i + 8 then a j + b j else dst j) dst

/-- `brights_simd_vec_add_i32`.  With vectors the rest is added at the start of the arrays. -/
def simdVecAddI32 (dst a b : Nat → BitVec 32) (n : Nat) : Nat → BitVec 32 :=
  if (build.avx2 && caps.hasAvx2) = true ∧ 8 ≤ n then addRest (addVectors (n / 8) dst a b) a b (n % 8)
  else addRest dst a b n

/-! ### Checksum

The two ways to compute it do not use the same polynomial.
-/

/-- The polynomial of the usual check, its bits reversed. -/
def crcPoly : Remainder := 0xEDB88320

/-- The polynomial of the processor's instruction, its bits reversed. -/
def crc32cPoly : Remainder := 0x82F63B78

/-- Eight bytes of data from `i` on, and the bytes from `len - len % 4` on. -/
def simdCrc32 (data : List Byte) : Remainder :=
  let crc : Remainder := 0xFFFFFFFF
  let len := data.length
  let (crc, len) :=
    if (build.sse41 && caps.hasSse41) = true ∧ 16 ≤ len then
      (crcBytes crc32cPoly crc (data.take (8 * (len / 8))), len % 8)
    else (crc, len)
  crcBytes crcPoly crc ((data.take len).drop (len - len % 4)) ^^^ 0xFFFFFFFF

end BrightS
