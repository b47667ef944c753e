/-
Bits of a 64-bit word.

A kernel keeps sets of small numbers in machine words: it sets a bit, clears a
bit, reads a bit, and asks for the lowest bit that is set.  The reading of a bit
after each of these is proved once here, so that nothing above unfolds a shift.

The second half is about masks on natural numbers.  `x & ~(2^k - 1)` rounds `x`
down to a multiple of `2^k`, and everything that follows about alignment is then
linear arithmetic.
-/
import Mathlib

namespace Words

/-- A 64-bit machine word. -/
abbrev Word := BitVec 64

/-- `w | (1 << i)`. -/
def bitSet (w : Word) (i : Nat) : Word := w ||| (1#64 <<< i)

/-- `w & ~(1 << i)`. -/
def bitClear (w : Word) (i : Nat) : Word := w &&& ~~~(1#64 <<< i)

/-- `(w >> i) & 1`. -/
def bitTest (w : Word) (i : Nat) : Bool := (w >>> i) &&& 1#64 != 0#64

/-! ### Reading one bit -/

theorem getLsbD_one_shiftLeft {i : Nat} (hi : i < 64) (j : Nat) :
    (1#64 <<< i).getLsbD j = decide (j = i) := by
  rw [BitVec.getLsbD_shiftLeft, BitVec.getLsbD_one]
  by_cases h : j = i
  · subst h
    simp [hi]
  · by_cases hij : i ≤ j
    · have : j - i ≠ 0 := by omega
      simp [h, this]
    · simp [h, Nat.lt_of_not_le hij]

theorem bitTest_eq_getLsbD (w : Word) (i : Nat) : bitTest w i = w.getLsbD i := by
  unfold bitTest
  cases hb : w.getLsbD i with
  | false =>
      have hz : (w >>> i) &&& 1#64 = 0#64 := by
        apply BitVec.eq_of_getLsbD_eq
        intro j _
        rw [BitVec.getLsbD_and, BitVec.getLsbD_ushiftRight, BitVec.getLsbD_one]
        by_cases hj : j = 0
        · subst hj
          simp [hb]
        · simp [hj]
      simp [hz]
  | true =>
      have hne : (w >>> i) &&& 1#64 ≠ 0#64 := by
        intro hz
        have := congrArg (fun x : Word => x.getLsbD 0) hz
        simp [hb] at this
      simpa using hne

/-- No word has a bit at or above its width. -/
theorem bitTest_of_ge (w : Word) {i : Nat} (hi : 64 ≤ i) : bitTest w i = false := by
  rw [bitTest_eq_getLsbD]
  exact BitVec.getLsbD_of_ge w i hi

@[simp] theorem bitTest_zero (i : Nat) : bitTest 0#64 i = false := by
  rw [bitTest_eq_getLsbD]
  simp

theorem bitTest_bitSet (w : Word) {i : Nat} (hi : i < 64) (j : Nat) :
    bitTest (bitSet w i) j = (decide (j = i) || bitTest w j) := by
  rw [bitTest_eq_getLsbD, bitTest_eq_getLsbD, bitSet, BitVec.getLsbD_or,
    getLsbD_one_shiftLeft hi, Bool.or_comm]

theorem bitTest_bitClear (w : Word) {i : Nat} (hi : i < 64) (j : Nat) :
    bitTest (bitClear w i) j = (!decide (j = i) && bitTest w j) := by
  rw [bitTest_eq_getLsbD, bitTest_eq_getLsbD, bitClear, BitVec.getLsbD_and,
    BitVec.getLsbD_not, getLsbD_one_shiftLeft hi]
  by_cases hj : j < 64
  · simp [hj, Bool.and_comm]
  · rw [BitVec.getLsbD_of_ge w j (Nat.not_lt.mp hj)]
    simp

theorem bitTest_not (w : Word) {i : Nat} (hi : i < 64) :
    bitTest (~~~w) i = !bitTest w i := by
  rw [bitTest_eq_getLsbD, bitTest_eq_getLsbD, BitVec.getLsbD_not]
  simp [hi]

/-! ### The bits on either side of a position -/

theorem getLsbD_below {start : Nat} (hstart : start < 64) (i : Nat) :
    ((1#64 <<< start) - 1#64).getLsbD i = decide (i < start) := by
  have hpow : 2 ^ start < 2 ^ 64 := Nat.pow_lt_pow_right (by decide) hstart
  have hpos : 0 < 2 ^ start := Nat.two_pow_pos start
  have hval : ((1#64 <<< start) - 1#64).toNat = 2 ^ start - 1 := by
    rw [BitVec.toNat_sub, BitVec.toNat_shiftLeft, BitVec.toNat_ofNat,
      Nat.one_mod_two_pow (by decide), Nat.shiftLeft_eq, Nat.one_mul, Nat.mod_eq_of_lt hpow]
    omega
  rw [← BitVec.testBit_toNat, hval, Nat.testBit_two_pow_sub_one]

theorem bitTest_and_below (w : Word) {start : Nat} (hstart : start < 64) (i : Nat) :
    bitTest (w &&& ((1#64 <<< start) - 1#64)) i = (bitTest w i && decide (i < start)) := by
  rw [bitTest_eq_getLsbD, bitTest_eq_getLsbD, BitVec.getLsbD_and, getLsbD_below hstart]

theorem bitTest_and_not_below (w : Word) {start : Nat} (hstart : start < 64) (i : Nat) :
    bitTest (w &&& ~~~((1#64 <<< start) - 1#64)) i = (bitTest w i && decide (start ≤ i)) := by
  by_cases hi : i < 64
  · have hnot : decide (start ≤ i) = !decide (i < start) := by
      by_cases hlt : i < start
      · simp [hlt]
      · simp [hlt, Nat.not_lt.mp hlt]
    rw [bitTest_eq_getLsbD, bitTest_eq_getLsbD, BitVec.getLsbD_and, BitVec.getLsbD_not,
      getLsbD_below hstart, hnot]
    simp [hi]
  · rw [bitTest_of_ge _ (Nat.not_lt.mp hi), bitTest_of_ge _ (Nat.not_lt.mp hi)]
    rfl

/-! ### The lowest set bit -/

/-- The index of the lowest set bit: `bsf`, or `__builtin_ctzll`. -/
def lowestBit (w : Word) : Nat := w.ctz.toNat

theorem lowestBit_lt {w : Word} (hw : w ≠ 0#64) : lowestBit w < 64 := by
  have h : w.ctz < 64#64 := by
    have := (BitVec.ctz_lt_iff_ne_zero (x := w)).mpr hw
    simpa using this
  simpa [lowestBit, BitVec.lt_def] using h

theorem bitTest_lowestBit {w : Word} (hw : w ≠ 0#64) : bitTest w (lowestBit w) = true := by
  rw [bitTest_eq_getLsbD]
  exact BitVec.getLsbD_true_ctz_of_ne_zero hw

/-- A word that is not full has a bit that is clear. -/
theorem not_ne_zero {w : Word} (hw : (w != BitVec.allOnes 64) = true) : ~~~w ≠ 0#64 := by
  intro hzero
  have hfull : w = BitVec.allOnes 64 := by
    rw [← BitVec.not_not (b := w), hzero, BitVec.not_zero]
  rw [hfull] at hw
  simp at hw

theorem bitTest_of_lt_lowestBit {w : Word} {i : Nat} (hi : i < lowestBit w) :
    bitTest w i = false := by
  rw [bitTest_eq_getLsbD]
  exact BitVec.getLsbD_false_of_lt_ctz hi

theorem ne_zero_of_bitTest {w : Word} {i : Nat} (hset : bitTest w i = true) : w ≠ 0#64 := by
  intro hzero
  rw [hzero, bitTest_zero] at hset
  exact absurd hset (by simp)

/-- A set bit with no set bit below it is the lowest one. -/
theorem lowestBit_eq {w : Word} {i : Nat} (hset : bitTest w i = true)
    (hbelow : ∀ j < i, bitTest w j = false) : lowestBit w = i := by
  have hlow := bitTest_lowestBit (ne_zero_of_bitTest hset)
  rcases Nat.lt_trichotomy (lowestBit w) i with hlt | heq | hgt
  · rw [hbelow _ hlt] at hlow
    exact absurd hlow (by simp)
  · exact heq
  · rw [bitTest_of_lt_lowestBit hgt] at hset
    exact absurd hset (by simp)

/-- A word is zero exactly when none of its bits is set. -/
theorem eq_zero_iff (w : Word) : w = 0#64 ↔ ∀ i, bitTest w i = false := by
  constructor
  · rintro rfl i
    exact bitTest_zero i
  · intro h
    apply BitVec.eq_of_getLsbD_eq
    intro i _
    rw [← bitTest_eq_getLsbD, h i]
    simp

/-! ### 64-bit values as natural numbers -/

/-- Subtraction of 64-bit values. -/
def sub64 (a b : Nat) : Nat := (a + (2 ^ 64 - b)) % 2 ^ 64

/-- The bitwise complement of a 64-bit value. -/
def lnot64 (x : Nat) : Nat := 2 ^ 64 - 1 - x

/-- `x & ~(2^k - 1)` rounds `x` down to a multiple of `2^k`. -/
theorem and_lnot64_mask {x k : Nat} (hx : x < 2 ^ 64) (hk : k ≤ 64) :
    x &&& lnot64 (2 ^ k - 1) = x / 2 ^ k * 2 ^ k := by
  have hpow : 2 ^ k ≤ 2 ^ 64 := Nat.pow_le_pow_right (by decide) hk
  have hpos : 0 < 2 ^ k := Nat.two_pow_pos k
  apply Nat.eq_of_testBit_eq
  intro i
  have hmask : (lnot64 (2 ^ k - 1)).testBit i = (decide (i < 64) && decide (k ≤ i)) := by
    unfold lnot64
    rw [show 2 ^ 64 - 1 - (2 ^ k - 1) = 2 ^ 64 - ((2 ^ k - 1) + 1) by omega,
      Nat.testBit_two_pow_sub_succ (by omega), Nat.testBit_two_pow_sub_one]
    by_cases hki : k ≤ i
    · simp [hki, Nat.not_lt.mpr hki]
    · simp [hki, Nat.lt_of_not_le hki]
  rw [Nat.testBit_and, hmask, Nat.testBit_mul_two_pow, Nat.testBit_div_two_pow]
  by_cases hki : k ≤ i
  · rw [Nat.sub_add_cancel hki]
    by_cases hi : i < 64
    · simp [hi, hki]
    · have : x.testBit i = false := Nat.testBit_eq_false_of_lt
        (Nat.lt_of_lt_of_le hx (Nat.pow_le_pow_right (by decide) (Nat.not_lt.mp hi)))
      simp [this]
  · simp [hki]

end Words
