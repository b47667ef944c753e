/-
Which pixels a line consists of.

Pixel `i` of a line is `i` steps along the longer axis and as many along the other as keep the
error between 0 and the length, which is the quotient `minorSteps`.  From this closed form
(`lineLoop_eq`) follow the number of the pixels, their ends, the single steps between them and
the distance from the ideal line.  In the `int`s of the source the loop is defined exactly as far
as the step behind the last pixel is (`lineLoopInt_eq`).
-/
import Mathlib
import BrightS.Kernel.Lines
import BrightS.Proofs.Framebuffer

namespace BrightS

open Raster

/-! ### The steps along the shorter axis -/

/-- The steps along the shorter axis at step `i` along the longer one. -/
def minorSteps (major minor e i : Int) : Int := -((e - i * minor) / major)

section

variable {major minor majorInc minorInc a b e i : Int}

theorem minorSteps_track (hmajor : 0 < major) (minor e i : Int) :
    OnTrack major minor e i (minorSteps major minor e i) := by
  have hsplit := Int.ediv_mul_add_emod (e - i * minor) major
  have hlo := Int.emod_nonneg (e - i * minor) hmajor.ne'
  have hhi := Int.emod_lt_of_pos (e - i * minor) hmajor
  unfold OnTrack minorSteps
  rw [neg_mul]
  omega

theorem minorSteps_zero (he : 0 ≤ e) (helt : e < major) : minorSteps major minor e 0 = 0 := by
  rw [minorSteps, zero_mul, sub_zero, Int.ediv_eq_zero_of_lt he helt, neg_zero]

/-- At the end of the longer axis is the end of the shorter one. -/
theorem minorSteps_major (he : 0 ≤ e) (helt : e < major) :
    minorSteps major minor e major = minor := by
  have hpos : 0 < major := lt_of_le_of_lt he helt
  rw [minorSteps, sub_eq_add_neg, neg_mul_eq_mul_neg, Int.add_mul_ediv_left _ _ hpos.ne',
    Int.ediv_eq_zero_of_lt he helt, zero_add, neg_neg]

/-- What the first round leaves to do. -/
theorem minorSteps_succ (hmajor : major ≠ 0) (step : Int) :
    minorSteps major minor e (i + 1) =
      step + minorSteps major minor (e - minor + step * major) i := by
  have hsame : e - minor + step * major - i * minor = e - (i + 1) * minor + step * major := by ring
  unfold minorSteps
  rw [hsame, Int.add_mul_ediv_right _ _ hmajor]
  ring

/-- The step behind the last one. -/
theorem minorSteps_beyond (hminor : 0 ≤ minor) (hle : minor ≤ major) (he : 0 ≤ e)
    (helt : e < major) :
    minorSteps major minor e (major + 1) = minor + if e < minor then 1 else 0 := by
  have hpos : 0 < major := lt_of_le_of_lt he helt
  split_ifs with hless
  · rw [minorSteps_succ hpos.ne' 1, minorSteps_major (by omega) (by omega), add_comm]
  · rw [minorSteps_succ hpos.ne' 0, minorSteps_major (by omega) (by omega), add_comm]

theorem minorSteps_nonneg (hmajor : 0 < major) (hminor : 0 ≤ minor) (helt : e < major)
    (hi : 0 ≤ i) : 0 ≤ minorSteps major minor e i := by
  obtain ⟨h₁, -⟩ := minorSteps_track hmajor minor e i
  have hprod : 0 ≤ i * minor := mul_nonneg hi hminor
  by_contra hneg
  nlinarith

/-- One step along the longer axis takes one along the shorter axis, or none. -/
theorem minorSteps_step (hmajor : 0 < major) (hminor : 0 ≤ minor) (hle : minor ≤ major)
    (e i : Int) :
    minorSteps major minor e (i + 1) = minorSteps major minor e i ∨
      minorSteps major minor e (i + 1) = minorSteps major minor e i + 1 := by
  obtain ⟨h₁, h₂⟩ := minorSteps_track hmajor minor e i
  obtain ⟨h₃, h₄⟩ := minorSteps_track hmajor minor e (i + 1)
  generalize minorSteps major minor e i = k at *
  generalize minorSteps major minor e (i + 1) = k' at *
  have hlo : k ≤ k' := by
    by_contra hgt
    nlinarith
  have hhi : k' ≤ k + 1 := by
    by_contra hgt
    nlinarith
  omega

/-- The steps stay within half a pixel of their share. -/
theorem minorSteps_near (hmajor : 0 < major) (minor i : Int) :
    |2 * (minorSteps major minor (major / 2) i * major - i * minor)| ≤ major := by
  obtain ⟨h₁, h₂⟩ := minorSteps_track hmajor minor (major / 2) i
  rw [abs_le]
  omega

/-- **The loop in closed form.** -/
theorem lineLoop_eq (hminor : 0 ≤ minor) (hle : minor ≤ major) (he : 0 ≤ e) (helt : e < major)
    (rounds : Nat) :
    lineLoop major minor majorInc minorInc rounds a b e =
      (List.range rounds).map fun i : Nat =>
        (a + i * majorInc, b + minorSteps major minor e i * minorInc) := by
  have hmajor : major ≠ 0 := by omega
  induction rounds generalizing a b e with
  | zero => rfl
  | succ rounds ih =>
      have hnext : ∀ step : Int, 0 ≤ e - minor + step * major → e - minor + step * major < major →
          lineLoop major minor majorInc minorInc rounds (a + majorInc) (b + step * minorInc)
              (e - minor + step * major) =
            (List.range rounds).map fun i : Nat =>
              (a + ((i + 1 : Nat) : Int) * majorInc,
                b + minorSteps major minor e ((i + 1 : Nat) : Int) * minorInc) := by
        intro step h₁ h₂
        rw [ih h₁ h₂]
        refine List.map_congr_left fun i _ => ?_
        rw [Nat.cast_succ, minorSteps_succ hmajor step, Prod.mk.injEq]
        exact ⟨by ring, by ring⟩
      have hfirst : (a + ((0 : Nat) : Int) * majorInc,
          b + minorSteps major minor e ((0 : Nat) : Int) * minorInc) = (a, b) := by
        rw [Nat.cast_zero, minorSteps_zero he helt, zero_mul, zero_mul, add_zero, add_zero]
      rw [List.range_succ_eq_map, List.map_cons, List.map_map, hfirst]
      by_cases hneg : e - minor < 0
      · have hstep := hnext 1 (by omega) (by omega)
        rw [one_mul, one_mul] at hstep
        rw [lineLoop, if_pos hneg, hstep]
        rfl
      · have hstep := hnext 0 (by omega) (by omega)
        rw [zero_mul, zero_mul, add_zero, add_zero] at hstep
        rw [lineLoop, if_neg hneg, hstep]
        rfl

end

/-! ### The pixels -/

/-- A line of pixels: from one end to the other in single steps along the longer axis, which are
steps along both when the axes are equal, each pixel at most half a pixel from the ideal line. -/
structure Rasterizes (x0 y0 x1 y1 : Int) (points : List (Int × Int)) : Prop where
  count : (points.length : Int) = max |x1 - x0| |y1 - y0| + 1
  first : points.head? = some (x0, y0)
  last : points.getLast? = some (x1, y1)
  steps : points.IsChain fun p q => |q.1 - p.1| ≤ 1 ∧ |q.2 - p.2| ≤ 1 ∧
    (|y1 - y0| ≤ |x1 - x0| → |q.1 - p.1| = 1) ∧ (|x1 - x0| ≤ |y1 - y0| → |q.2 - p.2| = 1)
  near : ∀ p ∈ points,
    (|y1 - y0| ≤ |x1 - x0| →
      |(p.2 : ℚ) - (y0 + (p.1 - x0) * (y1 - y0) / (x1 - x0))| ≤ 1 / 2) ∧
    (|x1 - x0| ≤ |y1 - y0| →
      |(p.1 : ℚ) - (x0 + (p.2 - y0) * (x1 - x0) / (y1 - y0))| ≤ 1 / 2)

theorem Rasterizes.swap {x0 y0 x1 y1 : Int} {points : List (Int × Int)}
    (h : Rasterizes y0 x0 y1 x1 points) : Rasterizes x0 y0 x1 y1 (points.map Prod.swap) where
  count := by
    rw [List.length_map, h.count, max_comm]
  first := by
    rw [List.head?_map, h.first]
    rfl
  last := by
    rw [List.getLast?_map, h.last]
    rfl
  steps := by
    rw [List.isChain_map]
    exact h.steps.imp fun p q hpq => ⟨hpq.2.1, hpq.1, hpq.2.2.2, hpq.2.2.1⟩
  near := by
    intro p hp
    obtain ⟨q, hq, rfl⟩ := List.mem_map.mp hp
    exact (h.near q hq).symm

theorem absDiff_eq_abs (d : Int) : absDiff d = |d| := by
  unfold absDiff
  split_ifs with hd
  · exact (abs_of_nonneg hd).symm
  · exact (abs_of_neg (not_le.mp hd)).symm

theorem increment_cases (d : Int) :
    increment d = 1 ∧ 0 < d ∨ increment d = -1 ∧ d < 0 ∨ increment d = 0 ∧ d = 0 := by
  unfold increment
  split_ifs <;> omega

theorem abs_increment_le (d : Int) : |increment d| ≤ 1 := by
  rcases increment_cases d with ⟨hinc, -⟩ | ⟨hinc, -⟩ | ⟨hinc, -⟩ <;> rw [hinc] <;> decide

theorem abs_increment {d : Int} (hd : 0 < |d|) : |increment d| = 1 := by
  rcases increment_cases d with ⟨hinc, -⟩ | ⟨hinc, -⟩ | ⟨-, hzero⟩
  · rw [hinc]
    rfl
  · rw [hinc]
    rfl
  · rw [hzero, abs_zero] at hd
    exact absurd hd (lt_irrefl 0)

theorem increment_ne_zero {d : Int} (hd : 0 < |d|) : increment d ≠ 0 := by
  intro hzero
  have hone := abs_increment hd
  rw [hzero, abs_zero] at hone
  exact absurd hone (by decide)

theorem absDiff_mul_increment (d : Int) : absDiff d * increment d = d := by
  unfold absDiff
  rcases increment_cases d with ⟨hinc, hd⟩ | ⟨hinc, hd⟩ | ⟨hinc, hd⟩
  · rw [hinc, if_pos hd.le, mul_one]
  · rw [hinc, if_neg (not_le.mpr hd), mul_neg_one, neg_neg]
  · rw [hinc, mul_zero, hd]

/-- Half a pixel in exact arithmetic. -/
theorem near_of_steps {a b length steps s t k i : Int} (hlength : 0 < length) (hs : s ≠ 0)
    (ht : |t| ≤ 1) (hnear : |2 * (k * length - i * steps)| ≤ length) :
    |((b + k * t : Int) : ℚ) - (b + ((a + i * s : Int) - a) * ((steps * t : Int) : ℚ) /
      ((length * s : Int) : ℚ))| ≤ 1 / 2 := by
  have hlength' : (0 : ℚ) < length := by exact_mod_cast hlength
  have hs' : (s : ℚ) ≠ 0 := by exact_mod_cast hs
  have ht' : |(t : ℚ)| ≤ 1 := by exact_mod_cast ht
  have hnear' : |2 * ((k : ℚ) * length - i * steps)| ≤ length := by exact_mod_cast hnear
  have hvalue : ((b + k * t : Int) : ℚ) - (b + ((a + i * s : Int) - a) * ((steps * t : Int) : ℚ) /
      ((length * s : Int) : ℚ)) = t * (k * length - i * steps) / length := by
    push_cast
    field_simp
    ring
  rw [abs_mul, abs_two] at hnear'
  rw [hvalue, abs_div, abs_mul, abs_of_pos hlength', div_le_iff₀ hlength']
  calc |(t : ℚ)| * |(k : ℚ) * length - i * steps| ≤ 1 * |(k : ℚ) * length - i * steps| :=
        mul_le_mul_of_nonneg_right ht' (abs_nonneg _)
    _ ≤ 1 / 2 * length := by linarith

/-- When the axes are equal, every step is one along both. -/
theorem minorSteps_diagonal {major : Int} (hmajor : 0 < major) (i : Int) :
    minorSteps major major (major / 2) i = i := by
  have hnear := abs_le.mp (minorSteps_near hmajor major i)
  have hfactor : 2 * (minorSteps major major (major / 2) i * major - i * major) =
      2 * (minorSteps major major (major / 2) i - i) * major := by ring
  rw [hfactor] at hnear
  generalize minorSteps major major (major / 2) i = k at *
  have hlo : -1 ≤ 2 * (k - i) := by
    by_contra hlt
    nlinarith
  have hhi : 2 * (k - i) ≤ 1 := by
    by_contra hgt
    nlinarith
  omega

/-- The pixel at step `i` along the longer axis. -/
def linePixel (x0 y0 x1 y1 i : Int) : Int × Int :=
  (x0 + i * increment (x1 - x0),
    y0 + minorSteps (absDiff (x1 - x0)) (absDiff (y1 - y0)) (absDiff (x1 - x0) / 2) i *
      increment (y1 - y0))

section

variable {x0 y0 x1 y1 : Int}

theorem linePixel_near (hle : |y1 - y0| ≤ |x1 - x0|) (hpos : 0 < |x1 - x0|) (i : Int) :
    |((linePixel x0 y0 x1 y1 i).2 : ℚ) -
        (y0 + ((linePixel x0 y0 x1 y1 i).1 - x0) * (y1 - y0) / (x1 - x0))| ≤ 1 / 2 ∧
      (|x1 - x0| ≤ |y1 - y0| →
        |((linePixel x0 y0 x1 y1 i).1 : ℚ) -
          (x0 + ((linePixel x0 y0 x1 y1 i).2 - y0) * (x1 - x0) / (y1 - y0))| ≤ 1 / 2) := by
  have hdx : ((x1 : ℚ) - x0) = ((absDiff (x1 - x0) * increment (x1 - x0) : Int) : ℚ) := by
    rw [absDiff_mul_increment]
    push_cast
    ring
  have hdy : ((y1 : ℚ) - y0) = ((absDiff (y1 - y0) * increment (y1 - y0) : Int) : ℚ) := by
    rw [absDiff_mul_increment]
    push_cast
    ring
  have hlength : 0 < absDiff (x1 - x0) := by
    rw [absDiff_eq_abs]
    exact hpos
  constructor
  · have hnear := near_of_steps (a := x0) (b := y0) hlength (increment_ne_zero hpos)
      (abs_increment_le (y1 - y0)) (minorSteps_near hlength (absDiff (y1 - y0)) i)
    unfold linePixel
    rw [hdx, hdy]
    push_cast at hnear ⊢
    exact hnear
  · intro htie
    have hsame : absDiff (y1 - y0) = absDiff (x1 - x0) := by
      rw [absDiff_eq_abs, absDiff_eq_abs]
      exact le_antisymm hle htie
    have hdiag := minorSteps_diagonal hlength i
    have hzero : |2 * (i * absDiff (x1 - x0) - i * absDiff (x1 - x0))| ≤ absDiff (x1 - x0) := by
      rw [sub_self, mul_zero, abs_zero]
      exact hlength.le
    have hnear := near_of_steps (a := y0) (b := x0) (k := i) (i := i) hlength
      (increment_ne_zero (lt_of_lt_of_le hpos htie)) (abs_increment_le (x1 - x0)) hzero
    unfold linePixel
    rw [hdx, hdy, hsame, hdiag]
    push_cast at hnear ⊢
    exact hnear

theorem linePixel_step (hle : |y1 - y0| ≤ |x1 - x0|) (hpos : 0 < |x1 - x0|) (i : Int) :
    |(linePixel x0 y0 x1 y1 (i + 1)).1 - (linePixel x0 y0 x1 y1 i).1| = 1 ∧
      |(linePixel x0 y0 x1 y1 (i + 1)).2 - (linePixel x0 y0 x1 y1 i).2| ≤ 1 ∧
      (|x1 - x0| ≤ |y1 - y0| →
        |(linePixel x0 y0 x1 y1 (i + 1)).2 - (linePixel x0 y0 x1 y1 i).2| = 1) := by
  have hlength : 0 < absDiff (x1 - x0) := by
    rw [absDiff_eq_abs]
    exact hpos
  have hsteps : absDiff (y1 - y0) ≤ absDiff (x1 - x0) := by
    rw [absDiff_eq_abs, absDiff_eq_abs]
    exact hle
  have hx : (linePixel x0 y0 x1 y1 (i + 1)).1 - (linePixel x0 y0 x1 y1 i).1 =
      increment (x1 - x0) := by
    unfold linePixel
    ring
  have hy : (linePixel x0 y0 x1 y1 (i + 1)).2 - (linePixel x0 y0 x1 y1 i).2 =
      (minorSteps (absDiff (x1 - x0)) (absDiff (y1 - y0)) (absDiff (x1 - x0) / 2) (i + 1) -
        minorSteps (absDiff (x1 - x0)) (absDiff (y1 - y0)) (absDiff (x1 - x0) / 2) i) *
          increment (y1 - y0) := by
    unfold linePixel
    ring
  rw [hx, hy]
  refine ⟨abs_increment hpos, ?_, fun htie => ?_⟩
  · have hbound := abs_increment_le (y1 - y0)
    rcases minorSteps_step hlength absDiff_nonneg hsteps (absDiff (x1 - x0) / 2) i with h | h
    · rw [h, sub_self, zero_mul, abs_zero]
      exact zero_le_one
    · rw [h, add_sub_cancel_left, one_mul]
      exact hbound
  · have hsame : absDiff (y1 - y0) = absDiff (x1 - x0) := by
      rw [absDiff_eq_abs, absDiff_eq_abs]
      exact le_antisymm hle htie
    rw [hsame, minorSteps_diagonal hlength, minorSteps_diagonal hlength, add_sub_cancel_left,
      one_mul]
    exact abs_increment (lt_of_lt_of_le hpos htie)

/-- **Along the longer axis the loop draws a line.** -/
theorem lineLoop_rasterizes (hle : |y1 - y0| ≤ |x1 - x0|) (hpos : 0 < |x1 - x0|) :
    Rasterizes x0 y0 x1 y1 (lineLoop (absDiff (x1 - x0)) (absDiff (y1 - y0))
      (increment (x1 - x0)) (increment (y1 - y0)) (absDiff (x1 - x0) + 1).toNat x0 y0
      (absDiff (x1 - x0) / 2)) := by
  have hlength : 0 < absDiff (x1 - x0) := by
    rw [absDiff_eq_abs]
    exact hpos
  have hsteps : absDiff (y1 - y0) ≤ absDiff (x1 - x0) := by
    rw [absDiff_eq_abs, absDiff_eq_abs]
    exact hle
  have hhalf : absDiff (x1 - x0) / 2 < absDiff (x1 - x0) := by omega
  have hhalf0 : 0 ≤ absDiff (x1 - x0) / 2 := by omega
  have hrounds : (absDiff (x1 - x0) + 1).toNat = (absDiff (x1 - x0)).toNat + 1 := by omega
  have hlast : (((absDiff (x1 - x0)).toNat : Nat) : Int) = absDiff (x1 - x0) :=
    Int.toNat_of_nonneg absDiff_nonneg
  have hpoints : lineLoop (absDiff (x1 - x0)) (absDiff (y1 - y0)) (increment (x1 - x0))
      (increment (y1 - y0)) (absDiff (x1 - x0) + 1).toNat x0 y0 (absDiff (x1 - x0) / 2) =
      (List.range ((absDiff (x1 - x0)).toNat + 1)).map fun i : Nat =>
        linePixel x0 y0 x1 y1 i := by
    rw [hrounds]
    exact lineLoop_eq absDiff_nonneg hsteps hhalf0 hhalf _
  rw [hpoints]
  refine ⟨?_, ?_, ?_, ?_, ?_⟩
  · rw [List.length_map, List.length_range, Nat.cast_succ, hlast, absDiff_eq_abs, max_eq_left hle]
  · have hzero : linePixel x0 y0 x1 y1 ((0 : Nat) : Int) = (x0, y0) := by
      rw [linePixel, Nat.cast_zero, minorSteps_zero hhalf0 hhalf, zero_mul, zero_mul, add_zero,
        add_zero]
    rw [List.range_succ_eq_map, List.map_cons, List.head?_cons, hzero]
  · have hend : linePixel x0 y0 x1 y1 (absDiff (x1 - x0)) = (x1, y1) := by
      rw [linePixel, minorSteps_major hhalf0 hhalf, absDiff_mul_increment, absDiff_mul_increment,
        add_sub_cancel, add_sub_cancel]
    rw [List.range_succ, List.map_append, List.map_singleton, List.getLast?_concat, hlast, hend]
  · rw [List.isChain_map, List.isChain_range]
    intro i _
    rw [Nat.succ_eq_add_one, Nat.cast_succ]
    obtain ⟨h₁, h₂, h₃⟩ := linePixel_step hle hpos (i : Int)
    exact ⟨h₁.le, h₂, fun _ => h₁, h₃⟩
  · intro p hp
    obtain ⟨i, -, rfl⟩ := List.mem_map.mp hp
    obtain ⟨h₁, h₂⟩ := linePixel_near hle hpos (i : Int)
    exact ⟨fun _ => h₁, h₂⟩

/-- **The points of a line are a line of pixels.** -/
theorem linePoints_rasterizes (x0 y0 x1 y1 : Int) :
    Rasterizes x0 y0 x1 y1 (linePoints x0 y0 x1 y1) := by
  unfold linePoints
  dsimp only
  split_ifs with hlong htall
  · rw [absDiff_eq_abs, absDiff_eq_abs] at hlong
    exact lineLoop_rasterizes hlong.le (lt_of_le_of_lt (abs_nonneg _) hlong)
  · rw [absDiff_eq_abs] at htall
    rw [absDiff_eq_abs, absDiff_eq_abs] at hlong
    exact (lineLoop_rasterizes (not_lt.mp hlong) htall).swap
  · rw [absDiff_eq_abs] at htall
    rw [absDiff_eq_abs, absDiff_eq_abs] at hlong
    have hdy : y1 - y0 = 0 := abs_eq_zero.mp (le_antisymm (not_lt.mp htall) (abs_nonneg _))
    rw [hdy, abs_zero] at hlong
    have hdx : x1 - x0 = 0 := abs_eq_zero.mp (le_antisymm (not_lt.mp hlong) (abs_nonneg _))
    obtain rfl : x1 = x0 := by omega
    obtain rfl : y1 = y0 := by omega
    refine ⟨by simp, rfl, rfl, List.isChain_singleton _, ?_⟩
    intro p hp
    obtain rfl := List.mem_singleton.mp hp
    simp

end

/-! ### The loop in `int` -/

theorem intResult_of_isInt {v : Int} (hv : IsInt v) : intResult v = some v := if_pos hv

theorem intResult_of_not {v : Int} (hv : ¬ IsInt v) : intResult v = none := if_neg hv

/-- A step of an increment, or none. -/
def IsStep (inc : Int) : Prop := inc = 1 ∨ inc = -1 ∨ inc = 0

theorem isStep_increment (d : Int) : IsStep (increment d) := by
  rcases increment_cases d with ⟨hinc, -⟩ | ⟨hinc, -⟩ | ⟨hinc, -⟩
  · exact .inl hinc
  · exact .inr (.inl hinc)
  · exact .inr (.inr hinc)

/-- Steps that have left the range of `int` do not come back. -/
theorem not_isInt_further {v inc n : Int} (hinc : IsStep inc) (hv : IsInt v)
    (hnot : ¬ IsInt (v + inc)) (hn : 1 ≤ n) : ¬ IsInt (v + n * inc) := by
  unfold IsInt at *
  rcases hinc with rfl | rfl | rfl
  · omega
  · omega
  · omega

section

variable {major minor majorInc minorInc a b e i : Int}

/-- One round, in `int` and without bounds: `step` is whether it is a step along both axes. -/
theorem lineLoopInt_succ (hminor : 0 ≤ minor) (hle : minor ≤ major) (hmajor : major < 2 ^ 31)
    (he : 0 ≤ e) (helt : e < major) (hi : 0 ≤ i) (hb : IsInt b) (rounds : Nat) :
    ∃ step, (step = 0 ∨ step = 1) ∧
      0 ≤ e - minor + step * major ∧ e - minor + step * major < major ∧
      lineLoop major minor majorInc minorInc (rounds + 1) a b e =
        (a, b) :: lineLoop major minor majorInc minorInc rounds (a + majorInc)
          (b + step * minorInc) (e - minor + step * major) ∧
      lineLoopInt major minor majorInc minorInc (rounds + 1) i a b e =
        if IsInt (a + majorInc) ∧ IsInt (b + step * minorInc) ∧ i + 1 < 2 ^ 31 then
          (lineLoopInt major minor majorInc minorInc rounds (i + 1) (a + majorInc)
            (b + step * minorInc) (e - minor + step * major)).map ((a, b) :: ·)
        else none := by
  have herr : IsInt (e - minor) := ⟨by omega, by omega⟩
  have hcount : IsInt (i + 1) ↔ i + 1 < 2 ^ 31 := ⟨And.right, fun h => ⟨by omega, h⟩⟩
  -- What the round does once both steps are made.
  have hrest : ∀ b' e', (do
      let i ← intResult (i + 1)
      let rest ← lineLoopInt major minor majorInc minorInc rounds i (a + majorInc) b' e'
      some ((a, b) :: rest)) =
      if i + 1 < 2 ^ 31 then
        (lineLoopInt major minor majorInc minorInc rounds (i + 1) (a + majorInc) b' e').map
          ((a, b) :: ·)
      else none := by
    intro b' e'
    by_cases hi' : IsInt (i + 1)
    · rw [intResult_of_isInt hi', if_pos (hcount.mp hi')]
      exact Option.map_eq_bind.symm
    · rw [intResult_of_not hi', if_neg (fun h => hi' (hcount.mpr h))]
      rfl
  by_cases hneg : e - minor < 0
  · have hback : IsInt (e - minor + major) := ⟨by omega, by omega⟩
    refine ⟨1, .inr rfl, by omega, by omega, ?_, ?_⟩
    · rw [lineLoop, if_pos hneg, one_mul, one_mul]
    · rw [one_mul, one_mul, lineLoopInt]
      by_cases ha' : IsInt (a + majorInc)
      · by_cases hb' : IsInt (b + minorInc)
        · simp only [ha', hb', true_and]
          rw [← hrest, intResult_of_isInt ha', intResult_of_isInt herr]
          dsimp only [bind, Option.bind]
          simp only [if_pos hneg, intResult_of_isInt hb', intResult_of_isInt hback]
        · rw [if_neg (fun h => hb' h.2.1), intResult_of_isInt ha', intResult_of_isInt herr]
          dsimp only [bind, Option.bind]
          simp only [if_pos hneg, intResult_of_not hb']
      · rw [if_neg (fun h => ha' h.1), intResult_of_not ha']
        rfl
  · refine ⟨0, .inl rfl, by omega, by omega, ?_, ?_⟩
    · rw [lineLoop, if_neg hneg, zero_mul, zero_mul, add_zero, add_zero]
    · rw [zero_mul, zero_mul, add_zero, add_zero, lineLoopInt]
      by_cases ha' : IsInt (a + majorInc)
      · simp only [ha', hb, true_and]
        rw [← hrest, intResult_of_isInt ha', intResult_of_isInt herr]
        dsimp only [bind, Option.bind]
        simp only [if_neg hneg]
      · rw [if_neg (fun h => ha' h.1), intResult_of_not ha']
        rfl

/-- **The loop is defined exactly if the values behind the last round are.** -/
theorem lineLoopInt_eq (hminor : 0 ≤ minor) (hle : minor ≤ major) (hmajor : major < 2 ^ 31)
    (hmajorInc : IsStep majorInc) (hminorInc : IsStep minorInc) {rounds : Nat} (he : 0 ≤ e)
    (helt : e < major) (hi : 0 ≤ i ∧ i < 2 ^ 31) (ha : IsInt a) (hb : IsInt b) :
    lineLoopInt major minor majorInc minorInc rounds i a b e =
      if i + rounds < 2 ^ 31 ∧ IsInt (a + rounds * majorInc) ∧
          IsInt (b + minorSteps major minor e rounds * minorInc) then
        some (lineLoop major minor majorInc minorInc rounds a b e)
      else none := by
  have hpos : 0 < major := lt_of_le_of_lt he helt
  induction rounds generalizing i a b e with
  | zero =>
      rw [Nat.cast_zero, minorSteps_zero he helt, zero_mul, zero_mul, add_zero, add_zero, add_zero,
        if_pos ⟨hi.2, ha, hb⟩]
      rfl
  | succ rounds ih =>
      obtain ⟨step, hstep, h₁, h₂, hloop, hint⟩ :=
        lineLoopInt_succ hminor hle hmajor he helt hi.1 hb rounds
      have hsteps : minorSteps major minor e (rounds + 1 : Nat) =
          step + minorSteps major minor (e - minor + step * major) rounds := by
        rw [Nat.cast_succ, minorSteps_succ hpos.ne' step]
      rw [hint, hloop]
      by_cases hnext : IsInt (a + majorInc) ∧ IsInt (b + step * minorInc) ∧ i + 1 < 2 ^ 31
      · obtain ⟨ha', hb', hi'⟩ := hnext
        have hend : a + (rounds + 1 : Nat) * majorInc = a + majorInc + rounds * majorInc := by
          rw [Nat.cast_succ]
          ring
        have hcount : i + (rounds + 1 : Nat) = i + 1 + rounds := by omega
        rw [if_pos ⟨ha', hb', hi'⟩, ih h₁ h₂ ⟨by omega, hi'⟩ ha' hb', hsteps, hend, hcount,
          add_mul, ← add_assoc]
        split_ifs <;> rfl
      · -- What is undefined in this round would be out of range at the end as well.
        rw [if_neg hnext, if_neg]
        rintro ⟨hcount, hmajorEnd, hminorEnd⟩
        have ha' : IsInt (a + majorInc) := by
          by_contra hno
          exact not_isInt_further hmajorInc ha hno (by omega) hmajorEnd
        have hb' : IsInt (b + step * minorInc) := by
          rcases hstep with rfl | rfl
          · rwa [zero_mul, add_zero]
          · rw [one_mul]
            by_contra hno
            have hmore := minorSteps_nonneg (i := (rounds : Int)) hpos hminor h₂ (by omega)
            exact not_isInt_further hminorInc hb hno (by omega) hminorEnd
        exact hnext ⟨ha', hb', by omega⟩

end

/-- The values behind the last pixel, along the longer axis and, if the last step is one along both,
along the other. -/
def AxisFits (x0 y0 x1 y1 : Int) : Prop :=
  |x1 - x0| ≤ 2 ^ 31 - 2 ∧ IsInt (x1 + increment (x1 - x0)) ∧
    (|x1 - x0| < 2 * |y1 - y0| → IsInt (y1 + increment (y1 - y0)))

/-- No operation of the line is undefined. -/
def LineFits (x0 y0 x1 y1 : Int) : Prop :=
  (|y1 - y0| < |x1 - x0| → AxisFits x0 y0 x1 y1) ∧
    (|x1 - x0| ≤ |y1 - y0| → 0 < |y1 - y0| → AxisFits y0 x0 y1 x1)

section

variable {x0 y0 x1 y1 : Int}

theorem lineLoopInt_axis (hle : |y1 - y0| ≤ |x1 - x0|) (hpos : 0 < |x1 - x0|)
    (hlength : |x1 - x0| < 2 ^ 31) (hx0 : IsInt x0) (hy0 : IsInt y0) (hy1 : IsInt y1) :
    lineLoopInt (absDiff (x1 - x0)) (absDiff (y1 - y0)) (increment (x1 - x0))
        (increment (y1 - y0)) (absDiff (x1 - x0) + 1).toNat 0 x0 y0 (absDiff (x1 - x0) / 2) =
      some (lineLoop (absDiff (x1 - x0)) (absDiff (y1 - y0)) (increment (x1 - x0))
        (increment (y1 - y0)) (absDiff (x1 - x0) + 1).toNat x0 y0 (absDiff (x1 - x0) / 2)) ∧
        AxisFits x0 y0 x1 y1 ∨
      lineLoopInt (absDiff (x1 - x0)) (absDiff (y1 - y0)) (increment (x1 - x0))
        (increment (y1 - y0)) (absDiff (x1 - x0) + 1).toNat 0 x0 y0 (absDiff (x1 - x0) / 2) =
        none ∧ ¬ AxisFits x0 y0 x1 y1 := by
  have hx := absDiff_mul_increment (x1 - x0)
  have hy := absDiff_mul_increment (y1 - y0)
  have hcast : (((absDiff (x1 - x0) + 1).toNat : Nat) : Int) = absDiff (x1 - x0) + 1 :=
    Int.toNat_of_nonneg (by have := absDiff_nonneg (d := x1 - x0); omega)
  have habs : AxisFits x0 y0 x1 y1 ↔ absDiff (x1 - x0) ≤ 2 ^ 31 - 2 ∧
      IsInt (x1 + increment (x1 - x0)) ∧
      (absDiff (x1 - x0) < 2 * absDiff (y1 - y0) → IsInt (y1 + increment (y1 - y0))) := by
    rw [AxisFits, absDiff_eq_abs, absDiff_eq_abs]
  rw [habs]
  rw [← absDiff_eq_abs] at hpos hlength
  rw [← absDiff_eq_abs, ← absDiff_eq_abs] at hle
  have hbeyond := minorSteps_beyond absDiff_nonneg hle (e := absDiff (x1 - x0) / 2)
    (by omega) (by omega)
  rw [lineLoopInt_eq absDiff_nonneg hle hlength (isStep_increment _) (isStep_increment _)
    (by omega) (by omega) ⟨le_refl _, by decide⟩ hx0 hy0, hcast, hbeyond]
  have hxend : x0 + (absDiff (x1 - x0) + 1) * increment (x1 - x0) =
      x1 + increment (x1 - x0) := by
    rw [add_mul, one_mul, hx]
    ring
  have hyend : IsInt (y0 + (absDiff (y1 - y0) +
      if absDiff (x1 - x0) / 2 < absDiff (y1 - y0) then 1 else 0) * increment (y1 - y0)) ↔
      (absDiff (x1 - x0) < 2 * absDiff (y1 - y0) → IsInt (y1 + increment (y1 - y0))) := by
    have hsum : y0 + absDiff (y1 - y0) * increment (y1 - y0) = y1 := by
      rw [hy]
      ring
    split_ifs with hless
    · have hmore : absDiff (x1 - x0) < 2 * absDiff (y1 - y0) := by omega
      rw [add_mul, one_mul, ← add_assoc, hsum]
      exact ⟨fun h _ => h, fun h => h hmore⟩
    · have hmore : ¬ absDiff (x1 - x0) < 2 * absDiff (y1 - y0) := by omega
      rw [add_zero, hsum]
      exact ⟨fun _ h => absurd h hmore, fun _ => hy1⟩
  have hcount : 0 + (absDiff (x1 - x0) + 1) < 2 ^ 31 ↔ absDiff (x1 - x0) ≤ 2 ^ 31 - 2 := by omega
  rw [← hcount, ← hyend, ← hxend]
  exact (Decidable.em _).imp (fun hfits => ⟨if_pos hfits, hfits⟩) fun hno => ⟨if_neg hno, hno⟩

/-- A line that is too long for the counter, or for the negation of a difference. -/
theorem not_lineFits_of_long (hlong : 2 ^ 31 - 2 < |x1 - x0| ∨ 2 ^ 31 - 2 < |y1 - y0|) :
    ¬ LineFits x0 y0 x1 y1 := by
  intro hfits
  rcases lt_or_ge |y1 - y0| |x1 - x0| with hlt | hge
  · have := (hfits.1 hlt).1
    omega
  · have := (hfits.2 hge (by omega)).1
    omega

/-- **In the `int`s of the source the points are those of the line, or the line is undefined.** -/
theorem linePointsInt_cases (hx0 : IsInt x0) (hy0 : IsInt y0) (hx1 : IsInt x1) (hy1 : IsInt y1)
    (hdx : IsInt (x1 - x0)) (hdy : IsInt (y1 - y0)) :
    linePointsInt x0 y0 x1 y1 = some (linePoints x0 y0 x1 y1) ∧ LineFits x0 y0 x1 y1 ∨
      linePointsInt x0 y0 x1 y1 = none ∧ ¬ LineFits x0 y0 x1 y1 := by
  have hmin : ∀ d, IsInt d → ¬ IsInt (absDiff d) → 2 ^ 31 - 2 < |d| := by
    intro d hd hnot
    rw [← absDiff_eq_abs]
    unfold IsInt absDiff at *
    split_ifs at * <;> omega
  have hless : ∀ d, IsInt (absDiff d) → |d| < 2 ^ 31 := by
    intro d hd
    rw [← absDiff_eq_abs]
    exact hd.2
  unfold linePointsInt linePoints
  rw [intResult_of_isInt hdx, intResult_of_isInt hdy]
  dsimp only [bind, Option.bind]
  by_cases hx : IsInt (absDiff (x1 - x0))
  · rw [intResult_of_isInt hx]
    by_cases hy : IsInt (absDiff (y1 - y0))
    · rw [intResult_of_isInt hy]
      dsimp only
      by_cases hlong : absDiff (y1 - y0) < absDiff (x1 - x0)
      · -- The x axis is the longer one.
        rw [if_pos hlong, if_pos hlong]
        rw [absDiff_eq_abs, absDiff_eq_abs] at hlong
        have hfits : LineFits x0 y0 x1 y1 ↔ AxisFits x0 y0 x1 y1 :=
          ⟨fun h => h.1 hlong, fun h => ⟨fun _ => h, fun hle => absurd hlong (not_lt.mpr hle)⟩⟩
        rw [hfits]
        exact lineLoopInt_axis hlong.le (lt_of_le_of_lt (abs_nonneg _) hlong) (hless _ hx) hx0 hy0
          hy1
      · rw [if_neg hlong, if_neg hlong]
        rw [absDiff_eq_abs, absDiff_eq_abs, not_lt] at hlong
        by_cases htall : 0 < absDiff (y1 - y0)
        · -- The y axis is, or both are equal.
          rw [if_pos htall, if_pos htall]
          rw [absDiff_eq_abs] at htall
          have hfits : LineFits x0 y0 x1 y1 ↔ AxisFits y0 x0 y1 x1 :=
            ⟨fun h => h.2 hlong htall,
              fun h => ⟨fun hlt => absurd hlong (not_le.mpr hlt), fun _ _ => h⟩⟩
          rw [hfits]
          rcases lineLoopInt_axis hlong htall (hless _ hy) hy0 hx0 hx1 with ⟨hrun, h⟩ | ⟨hrun, h⟩
          · rw [hrun]
            exact .inl ⟨rfl, h⟩
          · rw [hrun]
            exact .inr ⟨rfl, h⟩
        · -- There is only one pixel.
          rw [if_neg htall, if_neg htall]
          rw [absDiff_eq_abs] at htall
          exact .inl ⟨rfl, fun hlt => absurd (lt_of_le_of_lt (abs_nonneg _) hlt) (by omega),
            fun _ hpos => absurd hpos htall⟩
    · rw [intResult_of_not hy]
      exact .inr ⟨rfl, not_lineFits_of_long (.inr (hmin _ hdy hy))⟩
  · rw [intResult_of_not hx]
    exact .inr ⟨rfl, not_lineFits_of_long (.inl (hmin _ hdx hx))⟩

end

/-- The points that the dots are meant for. -/
def dotPoints {α : Type} (dots : List (Dot α)) : List (Int × Int) := dots.map fun d => (d.x, d.y)

/-- The line is drawn as one. -/
def DrawsLine (fb : FbInfo) (x0 y0 x1 y1 : Int) (color : Color) : Prop :=
  ∃ dots, fbDrawLineInt fb x0 y0 x1 y1 color = some dots ∧ Rasterizes x0 y0 x1 y1 (dotPoints dots)

/-- **A line is drawn exactly when it is short enough and the pixel behind it has coordinates.** -/
theorem fbDrawLineInt_iff (fb : FbInfo) (color : Color) {x0 y0 x1 y1 : Int} (hx0 : IsInt x0)
    (hy0 : IsInt y0) (hx1 : IsInt x1) (hy1 : IsInt y1) (hdx : IsInt (x1 - x0))
    (hdy : IsInt (y1 - y0)) :
    DrawsLine fb x0 y0 x1 y1 color ↔ LineFits x0 y0 x1 y1 := by
  have hpoints : dotPoints ((linePoints x0 y0 x1 y1).map fun p =>
      setPixelFast fb (colorToPixelFast fb color) p.1 p.2) = linePoints x0 y0 x1 y1 := by
    unfold dotPoints
    rw [List.map_map]
    exact List.map_id _
  unfold DrawsLine fbDrawLineInt
  rcases linePointsInt_cases hx0 hy0 hx1 hy1 hdx hdy with ⟨hrun, hfits⟩ | ⟨hrun, hno⟩
  · rw [hrun]
    refine iff_of_true ⟨_, rfl, ?_⟩ hfits
    rw [hpoints]
    exact linePoints_rasterizes x0 y0 x1 y1
  · rw [hrun]
    refine iff_of_false ?_ hno
    rintro ⟨dots, hdots, -⟩
    exact absurd hdots (by simp)

/-- A short line, with its four points. -/
theorem fbDrawLineInt_small :
    DrawsLine smallFb 0 0 3 1 ⟨1, 2, 3⟩ ∧
      linePointsInt 0 0 3 1 = some [(0, 0), (1, 0), (2, 1), (3, 1)] := by
  refine ⟨(fbDrawLineInt_iff smallFb ⟨1, 2, 3⟩ (by decide) (by decide) (by decide) (by decide)
    (by decide) (by decide)).mpr ⟨fun _ => ?_, fun hsteep => absurd hsteep (by decide)⟩, by decide⟩
  exact ⟨by decide, by decide, fun _ => by decide⟩

/-- The length of this line is no `int`. -/
theorem fbDrawLineInt_undefined : ¬ DrawsLine smallFb 0 0 (-2147483648) 0 ⟨1, 2, 3⟩ := by
  rintro ⟨dots, hdots, -⟩
  have hnone : linePointsInt 0 0 (-2147483648) 0 = none := by decide
  rw [fbDrawLineInt, hnone] at hdots
  exact absurd hdots (by simp)

end BrightS
