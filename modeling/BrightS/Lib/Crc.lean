/-
Cyclic redundancy checks, bit by bit, the lowest bit first.

One step divides by the polynomial, whose highest coefficient is left out and whose next one is
the top bit of `poly`.  If that bit is set a step loses nothing (`crcShift_injective`), so a
checksum tells data apart that differ in one place (`crcBytes_injective_at`); and a step is
linear, so two polynomials are told apart by one bit in the last byte.
-/
import BrightS.Lib.Bytes

namespace Crc

open Bytes

abbrev Remainder := BitVec 32

/-- `(crc >> 1) ^ (crc & 1 ? poly : 0)`. -/
def crcShift (poly crc : Remainder) : Remainder :=
  (crc >>> 1) ^^^ if crc &&& 1 ≠ 0 then poly else 0

def crcByte (poly crc : Remainder) (b : Byte) : Remainder :=
  (crcShift poly)^[8] (crc ^^^ b.setWidth 32)

def crcBytes (poly crc : Remainder) (bytes : List Byte) : Remainder :=
  bytes.foldl (crcByte poly) crc

section Step

variable {poly : Remainder}

theorem and_one_ne_zero_iff (crc : Remainder) : crc &&& 1 ≠ 0 ↔ crc.getLsbD 0 = true := by
  have hone : crc &&& 1 = BitVec.setWidth 32 (BitVec.ofBool (crc.getLsbD 0)) :=
    BitVec.and_one_eq_setWidth_ofBool_getLsbD
  rw [hone]
  cases crc.getLsbD 0 <;> decide

theorem crcShift_eq (poly crc : Remainder) :
    crcShift poly crc = (crc >>> 1) ^^^ if crc.getLsbD 0 = true then poly else 0 := by
  unfold crcShift
  congr 1
  exact if_congr (and_one_ne_zero_iff crc) rfl rfl

/-- A step is linear. -/
theorem crcShift_xor (a b : Remainder) :
    crcShift poly (a ^^^ b) = crcShift poly a ^^^ crcShift poly b := by
  rw [crcShift_eq, crcShift_eq, crcShift_eq, BitVec.ushiftRight_xor_distrib, BitVec.getLsbD_xor]
  cases a.getLsbD 0 with
  | false =>
      cases b.getLsbD 0 with
      | false => simp
      | true => simp [BitVec.xor_assoc]
  | true =>
      cases b.getLsbD 0 with
      | false =>
          simp
          ac_rfl
      | true =>
          have hcancel : ∀ x y : Remainder, x ^^^ poly ^^^ (y ^^^ poly) = x ^^^ y := by
            intro x y
            rw [BitVec.xor_comm y, BitVec.xor_assoc, ← BitVec.xor_assoc poly, BitVec.xor_self,
              BitVec.zero_xor]
          simp [hcancel]

/-- A step that loses nothing: the bit that falls out is the top bit of the result. -/
theorem crcShift_injective (hpoly : poly.getLsbD 31 = true) :
    Function.Injective (crcShift poly) := by
  intro a b hsame
  have htop : ∀ c : Remainder, (crcShift poly c).getLsbD 31 = c.getLsbD 0 := by
    intro c
    rw [crcShift_eq, BitVec.getLsbD_xor, BitVec.getLsbD_ushiftRight]
    cases c.getLsbD 0 <;> simp [hpoly]
  have hlow : a.getLsbD 0 = b.getLsbD 0 := by rw [← htop a, ← htop b, hsame]
  rw [crcShift_eq, crcShift_eq, hlow, BitVec.xor_left_inj] at hsame
  apply BitVec.eq_of_getLsbD_eq
  intro i hi
  cases i with
  | zero => exact hlow
  | succ i =>
      have hbit := congrArg (fun c : Remainder => c.getLsbD i) hsame
      simpa [Nat.add_comm 1] using hbit

theorem crcByte_injective (hpoly : poly.getLsbD 31 = true) {c c' : Remainder} {b b' : Byte}
    (hsame : crcByte poly c b = crcByte poly c' b') :
    c ^^^ b.setWidth 32 = c' ^^^ b'.setWidth 32 :=
  (crcShift_injective hpoly).iterate 8 hsame

theorem crcBytes_injective (hpoly : poly.getLsbD 31 = true) (bytes : List Byte) :
    Function.Injective fun crc => crcBytes poly crc bytes := by
  induction bytes with
  | nil => exact Function.injective_id
  | cons b rest ih =>
      intro c c' hsame
      have hstep := crcByte_injective hpoly (ih hsame)
      exact (BitVec.xor_left_inj _).mp hstep

/-- Data that differ in one byte have different checksums. -/
theorem crcBytes_injective_at (hpoly : poly.getLsbD 31 = true) (crc : Remainder)
    {before behind : List Byte} {b b' : Byte}
    (hsame : crcBytes poly crc (before ++ b :: behind) = crcBytes poly crc (before ++ b' :: behind)) :
    b = b' := by
  unfold crcBytes at hsame
  rw [List.foldl_append, List.foldl_append, List.foldl_cons, List.foldl_cons] at hsame
  have hstep := crcByte_injective hpoly (crcBytes_injective hpoly behind hsame)
  have hwide := (BitVec.xor_right_inj _).mp hstep
  have hback := congrArg (BitVec.setWidth 8) hwide
  simpa using hback

theorem crcByte_xor (c : Remainder) (b b' : Byte) :
    crcByte poly c (b ^^^ b') = crcByte poly c b ^^^ crcByte poly 0 b' := by
  have hiterate : ∀ k (x y : Remainder),
      (crcShift poly)^[k] (x ^^^ y) = (crcShift poly)^[k] x ^^^ (crcShift poly)^[k] y := by
    intro k
    induction k with
    | zero => exact fun _ _ => rfl
    | succ k ih =>
        intro x y
        rw [Function.iterate_succ_apply, Function.iterate_succ_apply, Function.iterate_succ_apply,
          crcShift_xor, ih]
  unfold crcByte
  rw [← hiterate]
  congr 1
  rw [BitVec.setWidth_xor, BitVec.xor_assoc, show (0 : Remainder) = 0#32 from rfl, BitVec.zero_xor]

end Step

end Crc
