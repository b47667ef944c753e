/-
Sums with end-around carry.

Adding the digits above a base to those below it does not change a number modulo the base less
one.  Folded until nothing is left above, a number is its `residue`, which is zero for zero only;
the base less one stands for zero in all other cases.  So a sum that its complement is added to
has the residue `b - 1`, whatever the sum was (`residue_add_complement`).
-/
import Mathlib.Tactic.Ring

namespace OnesComplement

variable {b n : Nat}

/-- Add the carry to what is below it. -/
def fold (b n : Nat) : Nat := n % b + n / b

theorem fold_add_mul (hb : 0 < b) : fold b n + (b - 1) * (n / b) = n := by
  have hn := Nat.mod_add_div n b
  obtain ⟨c, rfl⟩ := Nat.exists_eq_add_of_lt hb
  unfold fold
  rw [Nat.zero_add, Nat.add_sub_cancel]
  rw [Nat.zero_add] at hn
  calc n % (c + 1) + n / (c + 1) + c * (n / (c + 1))
      = n % (c + 1) + (c + 1) * (n / (c + 1)) := by ring
    _ = n := hn

theorem fold_of_lt (h : n < b) : fold b n = n := by
  unfold fold
  rw [Nat.mod_eq_of_lt h, Nat.div_eq_of_lt h, Nat.add_zero]

theorem fold_eq_zero_iff (hb : 0 < b) : fold b n = 0 ↔ n = 0 := by
  constructor
  · intro h
    have hsum := fold_add_mul (n := n) hb
    have hdiv : n / b = 0 := (Nat.add_eq_zero_iff.mp h).2
    rw [h, hdiv, Nat.mul_zero] at hsum
    exact hsum.symm
  · rintro rfl
    exact fold_of_lt hb

/-- Two folds are enough for a number of two digits. -/
theorem fold_fold_lt (hb : 2 ≤ b) (h : n < b * b) : fold b (fold b n) < b := by
  have hdiv : n / b < b := Nat.div_lt_of_lt_mul h
  have hmod : n % b < b := Nat.mod_lt n (by omega)
  have hfirst : fold b n ≤ b + (b - 2) := by
    unfold fold
    omega
  by_cases hlt : fold b n < b
  · rw [fold_of_lt hlt]
    exact hlt
  · have hcarry : fold b n / b = 1 :=
      Nat.div_eq_of_lt_le (by omega) (by omega)
    have hrest : fold b n % b = fold b n - b := by
      rw [Nat.mod_eq_sub_mod (Nat.not_lt.mp hlt), Nat.mod_eq_of_lt (by omega)]
    show fold b n % b + fold b n / b < b
    omega

/-! ### Residues -/

/-- The number from 1 to `b - 1` that is the same modulo `b - 1`; zero is its own. -/
def residue (b n : Nat) : Nat := if n = 0 then 0 else (n - 1) % (b - 1) + 1

theorem residue_of_lt (h : n < b) : residue b n = n := by
  unfold residue
  split_ifs with hzero
  · exact hzero.symm
  · rw [Nat.mod_eq_of_lt (by omega)]
    omega

theorem residue_add_mul (hn : n ≠ 0) (k : Nat) : residue b (n + (b - 1) * k) = residue b n := by
  unfold residue
  rw [if_neg (by omega), if_neg hn]
  have hpred : n + (b - 1) * k - 1 = n - 1 + (b - 1) * k := by omega
  rw [hpred, Nat.add_mul_mod_self_left]

/-- A fold keeps the residue. -/
theorem residue_fold (hb : 0 < b) : residue b (fold b n) = residue b n := by
  by_cases hzero : n = 0
  · rw [hzero, fold_of_lt hb]
  · have hne : fold b n ≠ 0 := fun h => hzero ((fold_eq_zero_iff hb).mp h)
    rw [← residue_add_mul hne (n / b), fold_add_mul hb]

/-- **With its complement added** every number is zero in its other form. -/
theorem residue_add_complement (hb : 2 ≤ b) :
    residue b (n + (b - 1 - residue b n)) = b - 1 := by
  by_cases hzero : n = 0
  · have hself : residue b 0 = 0 := if_pos rfl
    rw [hzero, hself, Nat.zero_add, Nat.sub_zero, residue_of_lt (by omega)]
  · have hdiv := Nat.mod_add_div (n - 1) (b - 1)
    have hmod := Nat.mod_lt (n - 1) (show b - 1 > 0 by omega)
    have hres : residue b n = (n - 1) % (b - 1) + 1 := if_neg hzero
    have hsum : n + (b - 1 - residue b n) = b - 1 + (b - 1) * ((n - 1) / (b - 1)) := by
      rw [hres]
      omega
    rw [hsum, residue_add_mul (by omega), residue_of_lt (by omega)]

end OnesComplement
