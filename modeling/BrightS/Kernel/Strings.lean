/-
String functions of the kernel, `kernel/kernel_util.h`, and of the user library,
`sys/user/libc.c`.

Both libraries search for one string in another, the kernel place by place and the user library
within the places where the needle has room.

What a pointer to a string leads to is a list of bytes, behind which there are only null
bytes; the string ends at the first of these.  A pointer into the string is its distance from
the start, a signed number where the code computes one that may lie before it.
-/
import BrightS.Kernel.Lightshell

namespace BrightS

/-! ### The kernel

The loops end at a null byte and know no lengths.
-/

/-- `kutil_strcmp`: the difference where the strings part. -/
def kutilStrcmp : List UInt8 → List UInt8 → Int
  | [], b => 0 - (b.headD 0).toNat
  | c :: _, [] => c.toNat - 0
  | c :: a, d :: b =>
      if c ≠ 0 ∧ d ≠ 0 then
        if c ≠ d then (c.toNat : Int) - d.toNat else kutilStrcmp a b
      else (c.toNat : Int) - d.toNat

/-- The inner loop of `kutil_strstr`, and whether it came to the end of the needle. -/
def kutilStrstrHere : List UInt8 → List UInt8 → Bool
  | _, [] => true
  | h, d :: n => if d ≠ 0 ∧ h.headD 0 = d then kutilStrstrHere h.tail n else d == 0

/-- The outer loop of `kutil_strstr`, over the places of the haystack. -/
def kutilStrstrLoop (needle : List UInt8) : List UInt8 → Option Nat
  | [] => none
  | c :: rest =>
      if c = 0 then none
      else if c = needle.headD 0 ∧ kutilStrstrHere (c :: rest) needle = true then some 0
      else (kutilStrstrLoop needle rest).map (· + 1)

/-- `kutil_strstr`: where the needle is found first. -/
def kutilStrstr (haystack needle : List UInt8) : Option Nat :=
  if needle.headD 0 = 0 then some 0 else kutilStrstrLoop needle haystack

/-! ### The user library

The search measures both strings first, and counts its rounds.
-/

/-- `strlen`. -/
def strlen : List UInt8 → Nat
  | [] => 0
  | c :: rest => if c = 0 then 0 else strlen rest + 1

/-- `strchr`, for a byte that is not null. -/
def strchr : List UInt8 → UInt8 → Option Nat
  | [], _ => none
  | b :: rest, c =>
      if b = 0 then none else if b = c then some 0 else (strchr rest c).map (· + 1)

/-- The inner loop of `strstr`, for the `rounds` that are left: the index where it ends. -/
def strstrHere (hay needle : List UInt8) : Nat → Nat → Nat
  | 0, i => i
  | rounds + 1, i =>
      if hay.getD i 0 ≠ needle.getD i 0 then i else strstrHere hay needle rounds (i + 1)

/-- The outer loop, for the `rounds` from `hay` to `end`. -/
def strstrLoop (haystack needle : List UInt8) (needleLen : Int) : Nat → Nat → Option Nat
  | 0, _ => none
  | rounds + 1, hay =>
      if haystack.getD hay 0 = needle.headD 0 ∧
          strstrHere (haystack.drop hay) needle (needleLen - 1).toNat 1 = needleLen then
        some hay
      else strstrLoop haystack needle needleLen rounds (hay + 1)

/-- `strstr`: needles of one byte are left to `strchr`.  The length of the needle is an `int`. -/
def strstr (haystack needle : List UInt8) : Option Nat :=
  if needle.headD 0 = 0 then some 0 else
  let needleLen := (BitVec.ofNat 32 (strlen needle)).toInt
  if needleLen = 0 then some 0 else
  if needleLen = 1 then strchr haystack (needle.headD 0) else
  strstrLoop haystack needle needleLen (strlen haystack - needleLen + 1).toNat 0

end BrightS
