/-
Addresses as text: `brights_ip_parse` and `brights_ip_to_str` of `kernel/net/net.c`, and
`kutil_parse_ipv4` of `kernel/kernel_util.h`.

The two parsers are not one another's copies: `brights_ip_parse` refuses every byte that is
neither a digit nor a dot and does not look at the numbers, `kutil_parse_ipv4` skips what it
does not need and refuses numbers over 255.
-/
import BrightS.Kernel.Strings

namespace BrightS

/-- The characters that addresses are made of. -/
def zeroChar : UInt8 := 48
def nineChar : UInt8 := 57
def dotChar : UInt8 := 46

/-- `c >= '0' && c <= '9'`. -/
def isDigit (c : UInt8) : Bool := zeroChar ≤ c && c ≤ nineChar

/-! ### The network stack -/

/-- The variables of `brights_ip_parse`. -/
structure IpScan where
  a : UInt32
  b : UInt32
  c : UInt32
  part : Nat
  val : UInt32

/-- The loop; `none` is a return from it. -/
def ipParseLoop : List UInt8 → IpScan → Option IpScan
  | [], s => some s
  | ch :: str, s =>
      if ch = 0 then some s
      else if isDigit ch = true then
        ipParseLoop str { s with val := s.val * 10 + (ch - zeroChar).toUInt32 }
      else if ch = dotChar then
        if s.part = 0 then ipParseLoop str { s with a := s.val, part := 1, val := 0 }
        else if s.part = 1 then ipParseLoop str { s with b := s.val, part := 2, val := 0 }
        else if s.part = 2 then ipParseLoop str { s with c := s.val, part := 3, val := 0 }
        else none
      else none

/-- `brights_ip_parse`: zero for what it refuses, and for the address that is zero. -/
def ipParse (str : List UInt8) : UInt32 :=
  match ipParseLoop str ⟨0, 0, 0, 0, 0⟩ with
  | none => 0
  | some s =>
      if s.part ≠ 3 then 0 else (s.a <<< 24) ||| (s.b <<< 16) ||| (s.c <<< 8) ||| s.val

/-- One number of an address, as `brights_ip_to_str` writes each of the four. -/
def octetToStr (v : UInt8) : List UInt8 :=
  if 100 ≤ v then [zeroChar + v / 100, zeroChar + v / 10 % 10, zeroChar + v % 10]
  else if 10 ≤ v then [zeroChar + v / 10, zeroChar + v % 10]
  else [zeroChar + v]

/-- `brights_ip_to_str`: the four numbers with dots between them. -/
def ipToStr (ip : UInt32) : List UInt8 :=
  let a := ((ip >>> 24) &&& 0xFF).toUInt8
  let b := ((ip >>> 16) &&& 0xFF).toUInt8
  let c := ((ip >>> 8) &&& 0xFF).toUInt8
  let d := (ip &&& 0xFF).toUInt8
  octetToStr a ++ dotChar :: octetToStr b ++ dotChar :: octetToStr c ++ dotChar :: octetToStr d

/-! ### The utilities of the kernel -/

/-- The loop over a number, which refuses it as soon as it is over 255. -/
def kutilParseNumber : List UInt8 → Nat → Option (Nat × List UInt8)
  | [], val => some (val, [])
  | ch :: p, val =>
      if isDigit ch = true then
        let val := val * 10 + (ch.toNat - zeroChar.toNat)
        if 255 < val then none else kutilParseNumber p val
      else some (val, ch :: p)

/-- The main loop, for as many numbers as are still missing. -/
def kutilParseIpv4Loop : Nat → List UInt8 → List UInt8 → Option (List UInt8)
  | 0, _, vals => some vals
  | missing + 1, p, vals =>
      if p.headD 0 = 0 then some vals else
      let p := p.dropWhile fun c => c ≠ 0 && !isDigit c
      if p.headD 0 = 0 then some vals else
      match kutilParseNumber p 0 with
      | none => none
      | some (val, p) =>
          let p := p.dropWhile fun c => c ≠ 0 && c ≠ dotChar
          kutilParseIpv4Loop missing (if p.headD 0 = dotChar then p.tail else p)
            (vals ++ [UInt8.ofNat val])

/-- The four numbers; `none` is the result −1. -/
def kutilParseIpv4 (str : List UInt8) : Option (List UInt8) :=
  match kutilParseIpv4Loop 4 str [] with
  | none => none
  | some vals => if vals.length = 4 then some vals else none

end BrightS
