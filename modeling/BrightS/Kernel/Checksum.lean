/-
The Internet checksum: `ip_checksum` of `kernel/net/net.c`, loop by loop.

`Kernel/Net` has it as a closed form; here are the accumulator and the folding loop of the source.
The words of the data are taken as they lie in memory, the lower byte first, and a last byte without
a partner counts as a word.
-/
import BrightS.Kernel.Net

namespace BrightS

open Bytes

/-- `while (len > 1)` and the byte that is left over. -/
def checksumLoop : List Byte → BitVec 32 → BitVec 32
  | lo :: hi :: rest, sum => checksumLoop rest (sum + (hi ++ lo).setWidth 32)
  | [last], sum => sum + last.setWidth 32
  | [], sum => sum

/-- `while (sum >> 16)`, with a bound on its rounds. -/
def foldLoop : Nat → BitVec 32 → Option (BitVec 32)
  | 0, sum => if sum >>> 16 = 0 then some sum else none
  | fuel + 1, sum =>
      if sum >>> 16 = 0 then some sum else foldLoop fuel ((sum &&& 0xFFFF#32) + (sum >>> 16))

/-- Store a 16-bit field of a header. -/
def putField (bytes : List Byte) (o : Nat) (x : BitVec 16) : List Byte :=
  bytes.take o ++ (store16 x ++ bytes.drop (o + 2))

end BrightS
