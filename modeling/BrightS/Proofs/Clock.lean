/-
Nanoseconds from the time stamp counter.

From 1 GHz on the counter is divided by the whole gigahertz of the frequency, which is exact only
as long as the part that is dropped does not add up to a nanosecond (`scaled_div_eq_iff`).  Below
1 GHz the counter is multiplied first, which is exact until the product has more than 64 bits
(`wrapped_div_eq_iff`).
-/
import BrightS.Kernel.Clock

namespace BrightS

/-! ### Two roundings -/

/-- Dividing by the whole part of a divisor only. -/
theorem scaled_div_eq_iff {q r u : Nat} (t : Nat) (hq : 0 < q) (hr : r < u) :
    t / q = t * u / (q * u + r) ↔ t / q * r ≤ t % q * u := by
  have hpos : 0 < q * u + r := Nat.add_pos_left (Nat.mul_pos hq (by omega)) r
  have hsplit : t * u = q * (t / q) * u + t % q * u := by
    rw [← Nat.add_mul, Nat.div_add_mod]
  have hrest : t % q * u < q * u := Nat.mul_lt_mul_of_pos_right (Nat.mod_lt t hq) (by omega)
  have hwhole : t / q * (q * u + r) = q * (t / q) * u + t / q * r := by ring
  rw [eq_comm, Nat.div_eq_iff hpos, hwhole, hsplit]
  omega

/-- Reducing a product first gives less as soon as there is something to reduce. -/
theorem wrapped_div_eq_iff {x f m : Nat} (hf : 0 < f) (hfm : f ≤ m) :
    x % m / f = x / f ↔ x < m := by
  constructor
  · intro heq
    by_contra hge
    have hle : x % m ≤ x - m := by
      rw [Nat.mod_eq_sub_mod (Nat.not_lt.mp hge)]
      exact Nat.mod_le _ _
    have hless : x % m / f ≤ x / f - 1 :=
      calc x % m / f ≤ (x - f * 1) / f := Nat.div_le_div_right (by omega)
        _ = x / f - 1 := Nat.sub_mul_div x f 1
    have hone : 0 < x / f := Nat.div_pos (by omega) hf
    omega
  · intro hlt
    rw [Nat.mod_eq_of_lt hlt]

/-! ### The conversion -/

section

variable {hw : ClockHw} {c : Clock}

/-- The frequency that a call works with. -/
def clockFreq (hw : ClockHw) (c : Clock) : Nat := (clockCalibrate hw c).tscFreq.toNat

/-- Calibration finds a frequency wherever there is a counter. -/
theorem clockFreq_pos (htsc : hw.hasTsc = true) : 0 < (clockCalibrate hw c).tscFreq := by
  unfold clockCalibrate
  split_ifs with hset hnone
  · exact hset
  · rw [htsc] at hnone
    exact absurd hnone (by simp)
  · split
    · exact show (0 : UInt64) < clockDefaultFreq by decide
    · split_ifs with hf
      · exact hf
      · exact show (0 : UInt64) < clockDefaultFreq by decide

/-- The two branches, with the numbers they compute. -/
theorem clockNs_toNat (hw : ClockHw) (htsc : hw.hasTsc = true) :
    (clockNs hw c).2.toNat =
      if 10 ^ 9 ≤ clockFreq hw c then hw.tsc.toNat / (clockFreq hw c / 10 ^ 9)
      else hw.tsc.toNat * 10 ^ 9 % 2 ^ 64 / clockFreq hw c := by
  have hpos := clockFreq_pos (c := c) htsc
  have hsame : (if c.tscFreq = 0 then clockCalibrate hw c else c) = clockCalibrate hw c := by
    split_ifs with hzero
    · rfl
    · unfold clockCalibrate
      rw [if_pos (UInt64.pos_iff_ne_zero.mpr hzero)]
  have hbranch : nsPerSecond ≤ (clockCalibrate hw c).tscFreq ↔ 10 ^ 9 ≤ clockFreq hw c :=
    UInt64.le_iff_toNat_le
  unfold clockNs
  dsimp only
  rw [hsame, if_pos ⟨hpos, htsc⟩]
  by_cases hfast : 10 ^ 9 ≤ clockFreq hw c
  · rw [if_pos (hbranch.mpr hfast), if_pos hfast, UInt64.toNat_div, UInt64.toNat_div]
    rfl
  · rw [if_neg (fun h => hfast (hbranch.mp h)), if_neg hfast, UInt64.toNat_div, UInt64.toNat_mul]
    rfl

/-- The conversion is exact: the dropped part of the frequency is worth less than a nanosecond, or
the product fits. -/
def ClockFits (f tsc : Nat) : Prop :=
  if 10 ^ 9 ≤ f then tsc / (f / 10 ^ 9) * (f % 10 ^ 9) ≤ tsc % (f / 10 ^ 9) * 10 ^ 9
  else tsc * 10 ^ 9 < 2 ^ 64 ∨ 2 ^ 64 ≤ tsc * 10 ^ 9 / f

/-- The time is exact where that fits 64 bits, and none of an earlier counter is later. -/
def ClockRight (hw : ClockHw) (c : Clock) : Prop :=
  hw.tsc.toNat * 10 ^ 9 / clockFreq hw c < 2 ^ 64 →
    (clockNs hw c).2.toNat = hw.tsc.toNat * 10 ^ 9 / clockFreq hw c ∧
      ∀ earlier ≤ hw.tsc, (clockNs { hw with tsc := earlier } c).2 ≤ (clockNs hw c).2

/-- **The time is right exactly when the conversion is one of those that lose nothing.** -/
theorem clockNs_right_iff (hw : ClockHw) (c : Clock) (htsc : hw.hasTsc = true) :
    ClockRight hw c ↔ ClockFits (clockFreq hw c) hw.tsc.toNat := by
  have hpos : 0 < clockFreq hw c := by
    have := UInt64.lt_iff_toNat_lt.mp (clockFreq_pos (c := c) htsc)
    exact this
  have hns := clockNs_toNat (c := c) hw htsc
  have hearlier : ∀ earlier : UInt64, (clockNs { hw with tsc := earlier } c).2.toNat =
      if 10 ^ 9 ≤ clockFreq hw c then earlier.toNat / (clockFreq hw c / 10 ^ 9)
      else earlier.toNat * 10 ^ 9 % 2 ^ 64 / clockFreq hw c := by
    intro earlier
    exact clockNs_toNat { hw with tsc := earlier } htsc
  have hless : clockFreq hw c < 2 ^ 64 := (clockCalibrate hw c).tscFreq.toNat_lt
  unfold ClockRight
  generalize clockFreq hw c = f at hpos hns hearlier hless ⊢
  unfold ClockFits
  by_cases hfast : 10 ^ 9 ≤ f
  · rw [if_pos hfast] at hns ⊢
    simp only [if_pos hfast] at hearlier
    have hq : 0 < f / 10 ^ 9 := Nat.div_pos hfast (by decide)
    have hf : f / 10 ^ 9 * 10 ^ 9 + f % 10 ^ 9 = f := Nat.div_add_mod' f (10 ^ 9)
    have hiff := scaled_div_eq_iff hw.tsc.toNat hq (Nat.mod_lt f (by decide : 0 < 10 ^ 9))
    rw [hf] at hiff
    rw [← hiff, hns]
    constructor
    · intro hexact
      refine (hexact ?_).1
      have hle : hw.tsc.toNat * 10 ^ 9 / f ≤ hw.tsc.toNat :=
        Nat.div_le_of_le_mul (by rw [Nat.mul_comm f]; exact Nat.mul_le_mul_left _ hfast)
      exact Nat.lt_of_le_of_lt hle hw.tsc.toNat_lt
    · intro heq _
      refine ⟨heq, fun earlier hle => ?_⟩
      rw [UInt64.le_iff_toNat_le, hearlier, hns]
      exact Nat.div_le_div_right (UInt64.le_iff_toNat_le.mp hle)
  · rw [if_neg hfast] at hns ⊢
    simp only [if_neg hfast] at hearlier
    have hiff := wrapped_div_eq_iff (x := hw.tsc.toNat * 10 ^ 9) hpos hless.le
    rw [hns]
    constructor
    · intro hexact
      rcases Nat.lt_or_ge (hw.tsc.toNat * 10 ^ 9 / f) (2 ^ 64) with hfit | hbig
      · exact .inl (hiff.mp (hexact hfit).1)
      · exact .inr hbig
    · rintro hor hfit
      have hlt : hw.tsc.toNat * 10 ^ 9 < 2 ^ 64 := hor.resolve_right (Nat.not_le.mpr hfit)
      refine ⟨hiff.mpr hlt, fun earlier hle => ?_⟩
      have hprod : earlier.toNat * 10 ^ 9 ≤ hw.tsc.toNat * 10 ^ 9 :=
        Nat.mul_le_mul_right _ (UInt64.le_iff_toNat_le.mp hle)
      rw [UInt64.le_iff_toNat_le, hearlier, hns, Nat.mod_eq_of_lt hlt,
        Nat.mod_eq_of_lt (Nat.lt_of_le_of_lt hprod hlt)]
      exact Nat.div_le_div_right hprod

/-- A processor whose frequency is found by `hwinfo`, or is not. -/
def hwReading (freq : Option UInt64) (tsc : UInt64) : ClockHw :=
  { hasTsc := true, cpuTscFreq := freq, tsc := tsc }

/-- At 2 GHz, 7 ticks are 3 nanoseconds, as they should be. -/
theorem clockNs_right_two_ghz :
    ClockRight (hwReading (some 2000000000) 7) clockInit ∧
      (clockNs (hwReading (some 2000000000) 7) clockInit).2 = 3 := by
  obtain ⟨hfreq, hns⟩ : clockFreq (hwReading (some 2000000000) 7) clockInit = 2000000000 ∧
      (clockNs (hwReading (some 2000000000) 7) clockInit).2 = 3 := by decide +kernel
  refine ⟨(clockNs_right_iff _ _ rfl).mpr ?_, hns⟩
  rw [hfreq]
  unfold ClockFits
  decide

/-- A second at the frequency that is assumed when none is known comes out as 1.2 seconds. -/
theorem clockNs_default_wrong : ¬ ClockRight (hwReading none 2400000000) clockInit := by
  intro hright
  have hfreq : clockFreq (hwReading none 2400000000) clockInit = 2400000000 := by decide +kernel
  have hns : (clockNs (hwReading none 2400000000) clockInit).2.toNat = 1200000000 := by
    decide +kernel
  have htsc : (hwReading none 2400000000).tsc.toNat = 2400000000 := by decide +kernel
  unfold ClockRight at hright
  rw [hfreq, hns, htsc] at hright
  exact absurd (hright (by decide)).1 (by decide)

end

end BrightS
