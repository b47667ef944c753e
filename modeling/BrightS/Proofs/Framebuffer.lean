/-
Which pixels the primitives write.

The clip leaves the intersection of two rectangles, and the rows and columns are cut to the
screen.  A line stays between its end points and reaches both, a circle stays in the square
around it and touches its four sides: so these are on the screen exactly if the corners are.
-/
import Mathlib.Tactic.Linarith
import Mathlib.Tactic.Ring
import BrightS.Kernel.Framebuffer

namespace BrightS

open Raster

/-! ### The screen and the clip -/

def FbInfo.screen (fb : FbInfo) : Area := ⟨0, 0, fb.width, fb.height⟩

def Clip.area (clip : Clip) : Area := ⟨clip.x, clip.y, clip.width, clip.height⟩

/-- The clip lets the pixel through. -/
def Clip.Shows (clip : Clip) (px py : Int) : Prop := clip.enabled = true → clip.area.Has px py

instance (clip : Clip) (px py : Int) : Decidable (clip.Shows px py) :=
  inferInstanceAs (Decidable (clip.enabled = true → clip.area.Has px py))

/-- The pixel is on the screen, and in the clip if there is one. -/
def Visible (fb : FbInfo) (clip : Clip) (px py : Int) : Prop :=
  fb.screen.Has px py ∧ clip.Shows px py

instance (fb : FbInfo) (clip : Clip) (px py : Int) : Decidable (Visible fb clip px py) :=
  inferInstanceAs (Decidable (_ ∧ _))

/-- No pixel is written outside of the screen or the clip. -/
def StaysVisible (fb : FbInfo) (clip : Clip) (dots : List (Dot Pixel)) : Prop :=
  ∀ px py, Covers dots px py → Visible fb clip px py

section Clip

variable {fb : FbInfo} {clip : Clip} {r c : Area} {px py qx qy : Int}

theorem screen_has :
    fb.screen.Has px py ↔ 0 ≤ px ∧ px < fb.width ∧ 0 ≤ py ∧ py < fb.height := by
  unfold FbInfo.screen Area.Has
  simp only [zero_add]

theorem Clip.shows_of_disabled (h : clip.enabled = false) : clip.Shows px py :=
  fun henabled => absurd (h.symm.trans henabled) Bool.false_ne_true

theorem Clip.shows_iff (h : clip.enabled ≠ false) : clip.Shows px py ↔ clip.area.Has px py :=
  ⟨fun hshows => hshows (eq_true_of_ne_false h), fun harea _ => harea⟩

/-- What the clip leaves is what lies in both rectangles. -/
theorem applyClipRect_has (h : applyClipRect clip r = some c) :
    c.Has px py ↔ r.Has px py ∧ clip.Shows px py := by
  unfold applyClipRect at h
  by_cases hdisabled : clip.enabled = false
  · rw [if_pos hdisabled] at h
    rw [← Option.some.inj h]
    exact ⟨fun hin => ⟨hin, Clip.shows_of_disabled hdisabled⟩, And.left⟩
  · rw [if_neg hdisabled] at h
    rw [Clip.shows_iff hdisabled]
    unfold Clip.area Area.Has
    dsimp only at h ⊢
    split_ifs at h <;> cases h <;> dsimp only <;> omega

/-- Where the clip leaves nothing, there is no common point. -/
theorem applyClipRect_none_has (h : applyClipRect clip r = none) :
    ¬ (r.Has px py ∧ clip.Shows px py) := by
  rintro ⟨hin, hshows⟩
  unfold applyClipRect at h
  by_cases hdisabled : clip.enabled = false
  · rw [if_pos hdisabled] at h
    exact absurd h (by simp)
  · rw [if_neg hdisabled] at h
    rw [Clip.shows_iff hdisabled] at hshows
    unfold Clip.area Area.Has at hshows
    unfold Area.Has at hin
    dsimp only at h hshows
    split_ifs at h <;> omega

/-- A single row or column is left as it is or not at all. -/
theorem applyClipRect_thin (h : applyClipRect clip r = some c) :
    (r.height = 1 → c.y = r.y ∧ c.height = 1) ∧ (r.width = 1 → c.x = r.x ∧ c.width = 1) := by
  unfold applyClipRect at h
  by_cases hdisabled : clip.enabled = false
  · rw [if_pos hdisabled] at h
    rw [← Option.some.inj h]
    exact ⟨fun hheight => ⟨rfl, hheight⟩, fun hwidth => ⟨rfl, hwidth⟩⟩
  · rw [if_neg hdisabled] at h
    dsimp only at h
    split_ifs at h <;> cases h <;> dsimp only <;> omega

/-- The clip is a rectangle, and so is the screen. -/
theorem Visible.between (hp : Visible fb clip px py) (hq : Visible fb clip qx qy) {a b : Int}
    (ha : min px qx ≤ a ∧ a ≤ max px qx) (hb : min py qy ≤ b ∧ b ≤ max py qy) :
    Visible fb clip a b :=
  ⟨hp.1.between hq.1 ha hb, fun henabled => (hp.2 henabled).between (hq.2 henabled) ha hb⟩

end Clip

/-! ### Rows and columns -/

/-- A C `int`. -/
def IsInt (v : Int) : Prop := -2 ^ 31 ≤ v ∧ v < 2 ^ 31

instance (v : Int) : Decidable (IsInt v) := inferInstanceAs (Decidable (_ ∧ _))

theorem toInt_eq {v : Int} (h : IsInt v) : toInt v = v := by
  unfold IsInt at h
  unfold toInt
  omega

theorem toUint32_eq {v : Int} (hlo : 0 ≤ v) (hhi : v < 2 ^ 32) : toUint32 v = v :=
  Int.emod_eq_of_lt hlo hhi

/-- The unsigned comparison refuses negative coordinates as well. -/
theorem lt_of_toUint32 {v limit : Int} (hlo : -2 ^ 31 ≤ v) (hhi : v < 2 ^ 32)
    (hlimit : limit ≤ 2 ^ 31) (h : ¬ limit ≤ toUint32 v) : 0 ≤ v ∧ v < limit := by
  unfold toUint32 at h
  omega

section Rows

variable {f : Int → Int} {pos len c n p limit : Int}

variable {stride x y width px py : Int} {pixel : Pixel}

theorem covers_fillRow : Covers (fillRow stride pixel x y width) px py ↔
    x ≤ px ∧ px < x + width ∧ py = y := by
  unfold fillRow
  rw [covers_range]
  constructor
  · rintro ⟨i, hi, rfl, rfl⟩
    dsimp only
    omega
  · rintro ⟨hlo, hhi, rfl⟩
    refine ⟨(px - x).toNat, by omega, ?_, rfl⟩
    dsimp only
    omega

end Rows

section Spans

variable {fb : FbInfo} {clip : Clip} {x y len : Int} {color : Color}

/-- A screen whose sides are `int`s. -/
def FbInfo.IntSized (fb : FbInfo) : Prop := fb.width < 2 ^ 31 ∧ fb.height < 2 ^ 31

instance (fb : FbInfo) : Decidable fb.IntSized := inferInstanceAs (Decidable (_ ∧ _))

theorem StaysVisible.append {dots dots' : List (Dot Pixel)} (h : StaysVisible fb clip dots)
    (h' : StaysVisible fb clip dots') : StaysVisible fb clip (dots ++ dots') := by
  intro px py hcovers
  rcases covers_append.mp hcovers with hfirst | hsecond
  · exact h px py hfirst
  · exact h' px py hsecond

end Spans

/-! ### Filled rectangles -/

section Fill

variable {fb : FbInfo} {clip : Clip} {r : Area} {px py stride srcStride rowOffset : Int}
  {pixel : Pixel} {src : Int → Pixel}

/-- The pixel is among those that the loop over all pixels at once comes to, whose number is a
`uint32_t`. -/
def InCount (fb : FbInfo) (r : Area) (px py : Int) : Prop :=
  r.width = toInt fb.width ∧ fb.stride = toUint32 r.width →
    (py - r.y) * r.width + (px - r.x) < toUint32 (r.width * r.height)

theorem covers_fillRows (hwidth : 0 < r.width) (hheight : 0 < r.height) :
    Covers (fillRows fb pixel r) px py ↔ r.Has px py ∧ InCount fb r px py := by
  unfold fillRows InCount
  split_ifs with hfast
  · rw [covers_range]
    have harea : 0 ≤ r.width * r.height := (mul_pos hwidth hheight).le
    have hcount : toUint32 (r.width * r.height) ≤ r.width * r.height := by
      unfold toUint32
      omega
    constructor
    · rintro ⟨i, hi, rfl, rfl⟩
      dsimp only
      have hless : (i : Int) < toUint32 (r.width * r.height) := by omega
      have hsplit := Int.ediv_mul_add_emod (i : Int) r.width
      have hrow : (i : Int) / r.width < r.height :=
        Int.ediv_lt_of_lt_mul hwidth (by linarith [mul_comm r.width r.height])
      have hcol := Int.emod_lt_of_pos (i : Int) hwidth
      have hcol' := Int.emod_nonneg (i : Int) hwidth.ne'
      have hrow' := Int.ediv_nonneg (Int.natCast_nonneg i) hwidth.le
      refine ⟨⟨by omega, by omega, by omega, by omega⟩, fun _ => ?_⟩
      rw [add_sub_cancel_left, add_sub_cancel_left, hsplit]
      exact hless
    · rintro ⟨⟨h₁, h₂, h₃, h₄⟩, hless⟩
      have hindex : 0 ≤ (py - r.y) * r.width :=
        mul_nonneg (sub_nonneg.mpr h₃) hwidth.le
      refine ⟨((py - r.y) * r.width + (px - r.x)).toNat, ?_, ?_, ?_⟩
      · have hless' := hless hfast
        omega
      · dsimp only
        rw [Int.toNat_of_nonneg (by omega), add_comm ((py - r.y) * r.width),
          Int.add_mul_emod_self_right, Int.emod_eq_of_lt (by omega) (by omega)]
        omega
      · dsimp only
        rw [Int.toNat_of_nonneg (by omega), add_comm ((py - r.y) * r.width),
          Int.add_mul_ediv_right _ _ hwidth.ne', Int.ediv_eq_zero_of_lt (by omega) (by omega)]
        omega
  · rw [covers_flatMap]
    simp only [covers_range, List.mem_range]
    constructor
    · rintro ⟨i, hi, j, hj, rfl, rfl⟩
      exact ⟨⟨by omega, by omega, by omega, by omega⟩, fun hfast' => absurd hfast' hfast⟩
    · rintro ⟨⟨h₁, h₂, h₃, h₄⟩, -⟩
      exact ⟨(py - r.y).toNat, by omega, (px - r.x).toNat, by omega, by omega, by omega⟩

theorem covers_blitRows : Covers (blitRows stride srcStride src rowOffset r) px py ↔
    r.Has px py := by
  unfold blitRows
  rw [covers_flatMap]
  simp only [covers_range, List.mem_range]
  constructor
  · rintro ⟨i, hi, j, hj, rfl, rfl⟩
    exact ⟨by omega, by omega, by omega, by omega⟩
  · rintro ⟨h₁, h₂, h₃, h₄⟩
    exact ⟨(py - r.y).toNat, by omega, (px - r.x).toNat, by omega, by omega, by omega⟩

end Fill

/-! ### Lines -/

section Lines

variable {major minor majorInc minorInc a b e x0 y0 x1 y1 d i : Int} {p : Int × Int}

/-- Where the loop is after `i` steps along the one axis and `k` along the other: the error has
never left `0..major`. -/
def OnTrack (major minor e : Int) (i k : Int) : Prop :=
  0 ≤ e - i * minor + k * major ∧ e - i * minor + k * major < major

/-- One step, which takes the other axis along or not, and the points that follow it. -/
theorem lineLoop_succ (hminor : 0 ≤ minor) (hle : minor ≤ major) (he : 0 ≤ e) (helt : e < major)
    (rounds : Nat) :
    ∃ step e', 0 ≤ e' ∧ e' < major ∧
      (∀ i k, OnTrack major minor e' i k ↔ OnTrack major minor e (i + 1) (k + step)) ∧
      lineLoop major minor majorInc minorInc (rounds + 1) a b e =
        (a, b) :: lineLoop major minor majorInc minorInc rounds (a + majorInc)
          (b + step * minorInc) e' := by
  have htrack : ∀ step i k : Int, OnTrack major minor (e - minor + step * major) i k ↔
      OnTrack major minor e (i + 1) (k + step) := by
    intro step i k
    unfold OnTrack
    ring_nf
  by_cases hneg : e - minor < 0
  · refine ⟨1, e - minor + 1 * major, by omega, by omega, htrack 1, ?_⟩
    rw [lineLoop, if_pos hneg, one_mul, one_mul]
  · refine ⟨0, e - minor + 0 * major, by omega, by omega, htrack 0, ?_⟩
    rw [lineLoop, if_neg hneg, zero_mul, zero_mul, add_zero, add_zero]

theorem onTrack_start (he : 0 ≤ e) (helt : e < major) : OnTrack major minor e 0 0 := by
  unfold OnTrack
  rw [zero_mul, zero_mul, sub_zero, add_zero]
  exact ⟨he, helt⟩

theorem lineLoop_first {rounds : Nat} (hrounds : 0 < rounds) :
    (a, b) ∈ lineLoop major minor majorInc minorInc rounds a b e := by
  obtain ⟨rounds, rfl⟩ := Nat.exists_eq_succ_of_ne_zero hrounds.ne'
  exact List.mem_cons_self ..

theorem lineLoop_track (hminor : 0 ≤ minor) (hle : minor ≤ major) {rounds : Nat} (he : 0 ≤ e)
    (helt : e < major) (hp : p ∈ lineLoop major minor majorInc minorInc rounds a b e) :
    ∃ i k : Int, 0 ≤ i ∧ i < rounds ∧ OnTrack major minor e i k ∧
      p = (a + i * majorInc, b + k * minorInc) := by
  induction rounds generalizing a b e with
  | zero => exact absurd hp List.not_mem_nil
  | succ rounds ih =>
      obtain ⟨step, e', he', helt', htrack, hnext⟩ := lineLoop_succ hminor hle he helt rounds
      rw [hnext] at hp
      rcases List.mem_cons.mp hp with rfl | hp
      · refine ⟨0, 0, le_refl _, by omega, onTrack_start he helt, ?_⟩
        rw [zero_mul, zero_mul, add_zero, add_zero]
      · obtain ⟨i, k, h₁, h₂, hk, rfl⟩ := ih he' helt' hp
        refine ⟨i + 1, k + step, by omega, by omega, (htrack i k).mp hk, ?_⟩
        rw [Prod.mk.injEq]
        exact ⟨by ring, by ring⟩

theorem lineLoop_reaches (hminor : 0 ≤ minor) (hle : minor ≤ major) {rounds : Nat} (he : 0 ≤ e)
    (helt : e < major) (h₁ : 0 ≤ i) (h₂ : i < rounds) :
    ∃ k, OnTrack major minor e i k ∧ (a + i * majorInc, b + k * minorInc) ∈
      lineLoop major minor majorInc minorInc rounds a b e := by
  induction rounds generalizing a b e i with
  | zero => exact absurd h₂ (by omega)
  | succ rounds ih =>
      obtain ⟨step, e', he', helt', htrack, hnext⟩ := lineLoop_succ hminor hle he helt rounds
      rw [hnext]
      by_cases hzero : i = 0
      · subst hzero
        refine ⟨0, onTrack_start he helt, ?_⟩
        rw [zero_mul, zero_mul, add_zero, add_zero]
        exact List.mem_cons_self ..
      · obtain ⟨k, hk, hmem⟩ := ih he' helt' (i := i - 1) (by omega) (by omega)
        have hk' := (htrack (i - 1) k).mp hk
        rw [sub_add_cancel] at hk'
        refine ⟨k + step, hk', List.mem_cons_of_mem _ ?_⟩
        have hpoint : (a + i * majorInc, b + (k + step) * minorInc) =
            (a + majorInc + (i - 1) * majorInc, b + step * minorInc + k * minorInc) := by
          rw [Prod.mk.injEq]
          exact ⟨by ring, by ring⟩
        rw [hpoint]
        exact hmem

/-- The other axis takes at most its own number of steps, and all of them in the end. -/
theorem OnTrack.bounds {k : Int} (h : OnTrack major minor e i k) (hminor : 0 ≤ minor)
    (he : 0 ≤ e) (helt : e < major) (hi : 0 ≤ i) (hle : i ≤ major) :
    0 ≤ k ∧ k ≤ minor ∧ (i = major → k = minor) := by
  obtain ⟨h₁, h₂⟩ := h
  have hprod : 0 ≤ i * minor := mul_nonneg hi hminor
  have hprod' : i * minor ≤ major * minor := mul_le_mul_of_nonneg_right hle hminor
  have hpos : 0 < major := lt_of_le_of_lt he helt
  refine ⟨?_, ?_, fun heq => ?_⟩
  · by_contra hneg
    nlinarith
  · by_contra hgt
    nlinarith
  · subst heq
    have hdiff : (k - minor) * i < i ∧ -i < (k - minor) * i := by
      constructor <;> nlinarith
    have hlt : k - minor < 1 := by
      by_contra hge
      nlinarith
    have hgt : -1 < k - minor := by
      by_contra hge
      nlinarith
    omega

theorem absDiff_nonneg : 0 ≤ absDiff d := by
  unfold absDiff
  split_ifs <;> omega

/-- Steps of the increment lead from one end to the other. -/
theorem steps_between (x0 x1 : Int) (hi : 0 ≤ i) (hle : i ≤ absDiff (x1 - x0)) :
    min x0 x1 ≤ x0 + i * increment (x1 - x0) ∧ x0 + i * increment (x1 - x0) ≤ max x0 x1 ∧
      (i = absDiff (x1 - x0) → x0 + i * increment (x1 - x0) = x1) := by
  unfold absDiff at *
  unfold increment
  split_ifs at * <;> omega

/-- Whatever lies between the ends of a line. -/
def InBox (x0 y0 x1 y1 : Int) (p : Int × Int) : Prop :=
  (min x0 x1 ≤ p.1 ∧ p.1 ≤ max x0 x1) ∧ min y0 y1 ≤ p.2 ∧ p.2 ≤ max y0 y1

/-- The loop along the longer axis, from one end to the other. -/
theorem lineLoop_box (hle : absDiff (y1 - y0) ≤ absDiff (x1 - x0)) (hpos : 0 < absDiff (x1 - x0)) :
    let points := lineLoop (absDiff (x1 - x0)) (absDiff (y1 - y0)) (increment (x1 - x0))
      (increment (y1 - y0)) (absDiff (x1 - x0) + 1).toNat x0 y0 (absDiff (x1 - x0) / 2)
    (∀ p ∈ points, InBox x0 y0 x1 y1 p) ∧ (x0, y0) ∈ points ∧ (x1, y1) ∈ points := by
  intro points
  refine ⟨fun p hp => ?_, ?_, ?_⟩
  · obtain ⟨i, k, h₁, h₂, htrack, rfl⟩ :=
      lineLoop_track absDiff_nonneg hle (by omega) (by omega) hp
    obtain ⟨hk, hk', -⟩ := htrack.bounds absDiff_nonneg (by omega) (by omega) h₁ (by omega)
    have hx := steps_between x0 x1 h₁ (by omega)
    have hy := steps_between y0 y1 hk hk'
    exact ⟨⟨hx.1, hx.2.1⟩, hy.1, hy.2.1⟩
  · exact lineLoop_first (by omega)
  · obtain ⟨k, htrack, hmem⟩ :
        ∃ k, OnTrack _ _ _ (absDiff (x1 - x0)) k ∧ (x0 + _ * _, y0 + k * _) ∈ points :=
      lineLoop_reaches absDiff_nonneg hle (by omega) (by omega) hpos.le (by omega)
    obtain ⟨hk, hk', hlast⟩ := htrack.bounds absDiff_nonneg (by omega) (by omega) hpos.le (le_refl _)
    have hx := steps_between x0 x1 hpos.le (le_refl _)
    have hy := steps_between y0 y1 hk hk'
    rwa [hx.2.2 rfl, hy.2.2 (hlast rfl)] at hmem

/-- **A line does not leave the rectangle between its ends, and it reaches both.** -/
theorem linePoints_box (x0 y0 x1 y1 : Int) :
    (∀ p ∈ linePoints x0 y0 x1 y1, InBox x0 y0 x1 y1 p) ∧
    (x0, y0) ∈ linePoints x0 y0 x1 y1 ∧ (x1, y1) ∈ linePoints x0 y0 x1 y1 := by
  unfold linePoints
  dsimp only
  split_ifs with hlong htall
  · exact lineLoop_box hlong.le (lt_of_le_of_lt absDiff_nonneg hlong)
  · obtain ⟨hbox, hfirst, hlast⟩ := lineLoop_box (not_lt.mp hlong) htall
    refine ⟨fun p hp => ?_, List.mem_map_of_mem hfirst, List.mem_map_of_mem hlast⟩
    obtain ⟨q, hq, rfl⟩ := List.mem_map.mp hp
    exact (hbox q hq).symm
  · have hx : x1 = x0 := by
      unfold absDiff at hlong htall
      split_ifs at hlong htall <;> omega
    have hy : y1 = y0 := by
      unfold absDiff at htall
      split_ifs at htall <;> omega
    subst hx hy
    refine ⟨fun p hp => ?_, List.mem_singleton.mpr rfl, List.mem_singleton.mpr rfl⟩
    rw [List.mem_singleton.mp hp]
    exact ⟨⟨by simp, by simp⟩, by simp, by simp⟩

end Lines

/-! ### Circles -/

section Circles

variable {cx cy x y d radius : Int} {p : Int × Int}

/-- The square around a circle. -/
def InSquare (cx cy radius : Int) (p : Int × Int) : Prop :=
  (cx - radius ≤ p.1 ∧ p.1 ≤ cx + radius) ∧ cy - radius ≤ p.2 ∧ p.2 ≤ cy + radius

theorem circleOctants_square (hx : 0 ≤ x) (hle : x ≤ y) (hy : y ≤ radius)
    (hp : p ∈ circleOctants cx cy x y) : InSquare cx cy radius p := by
  unfold circleOctants at hp
  simp only [List.mem_cons, List.not_mem_nil, or_false] at hp
  unfold InSquare
  rcases hp with rfl | rfl | rfl | rfl | rfl | rfl | rfl | rfl <;> dsimp only <;> omega

/-- The two coordinates only come closer to each other. -/
theorem circleLoop_square (hx : 0 ≤ x) (hy : y ≤ radius) (hp : p ∈ circleLoop cx cy x y d) :
    InSquare cx cy radius p := by
  induction x, y, d using circleLoop.induct with
  | case1 x y d hle ihsame ihless =>
      rw [circleLoop, if_pos hle] at hp
      rcases List.mem_append.mp hp with hp | hp
      · exact circleOctants_square hx hle hy hp
      · split_ifs at hp
        · exact ihsame (by omega) hy hp
        · exact ihless (by omega) (by omega) hp
  | case2 x y d hgt =>
      rw [circleLoop, if_neg hgt] at hp
      exact absurd hp List.not_mem_nil

/-- **A circle does not leave the square around it, and touches all its sides.** -/
theorem circlePoints_square (cx cy : Int) (hpos : 0 < radius) :
    (∀ p ∈ circlePoints cx cy radius, InSquare cx cy radius p) ∧
      (cx + radius, cy) ∈ circlePoints cx cy radius ∧
      (cx - radius, cy) ∈ circlePoints cx cy radius ∧
      (cx, cy + radius) ∈ circlePoints cx cy radius ∧
      (cx, cy - radius) ∈ circlePoints cx cy radius := by
  unfold circlePoints
  rw [if_neg (not_le.mpr hpos)]
  refine ⟨fun p hp => circleLoop_square (le_refl 0) (le_refl radius) hp, ?_⟩
  rw [circleLoop, if_pos hpos.le]
  unfold circleOctants
  simp

end Circles

/-! ### All primitives -/

/-- The arguments are C `int`s. -/
def DrawCall.Ints : DrawCall → Prop
  | .pixel x y _ => IsInt x ∧ IsInt y
  | .hline x y width _ => IsInt x ∧ IsInt y ∧ IsInt width
  | .vline x y height _ => IsInt x ∧ IsInt y ∧ IsInt height
  | .rect x y width height _ => IsInt x ∧ IsInt y ∧ IsInt width ∧ IsInt height
  | .fillRect x y width height _ => IsInt x ∧ IsInt y ∧ IsInt width ∧ IsInt height
  | .blit _ x y width height pitch =>
      IsInt x ∧ IsInt y ∧ IsInt width ∧ IsInt height ∧ IsInt pitch
  | .line x0 y0 x1 y1 _ => IsInt x0 ∧ IsInt y0 ∧ IsInt x1 ∧ IsInt y1
  | .circle cx cy radius _ => IsInt cx ∧ IsInt cy ∧ IsInt radius

instance : (call : DrawCall) → Decidable call.Ints
  | .pixel .. | .hline .. | .vline .. | .rect .. | .fillRect .. | .blit .. | .line .. | .circle .. =>
      inferInstanceAs (Decidable (_ ∧ _))

/-- What the clip shows of the area. -/
def Clip.part (clip : Clip) (r : Area) : Area := if clip.enabled = true then r.inter clip.area else r

section Confined

variable {fb : FbInfo} {clip : Clip} {r : Area} {px py x y width height : Int} {color : Color}
  {pixel : Pixel} {points : List (Int × Int)} {buffer : Option (Int → Pixel)} {pitch : Int}

/-- The clip leaves nothing empty. -/
theorem applyClipRect_pos {c : Area} (h : applyClipRect clip r = some c) (hwidth : 0 < r.width)
    (hheight : 0 < r.height) : 0 < c.width ∧ 0 < c.height := by
  unfold applyClipRect at h
  dsimp only at h
  split_ifs at h <;> cases h
  · exact ⟨hwidth, hheight⟩
  all_goals assumption

/-- What the clip leaves is the part that it shows. -/
theorem applyClipRect_part {c : Area} (h : applyClipRect clip r = some c) : c = clip.part r := by
  unfold applyClipRect at h
  unfold Clip.part Area.inter Clip.area
  by_cases hdisabled : clip.enabled = false
  · rw [if_pos hdisabled] at h
    rw [if_neg (by rw [hdisabled]; decide), ← Option.some.inj h]
  · rw [if_neg hdisabled] at h
    rw [if_pos (eq_true_of_ne_false hdisabled)]
    dsimp only at h ⊢
    split_ifs at h <;> cases h <;> congr 1 <;> omega

theorem covers_setPixels :
    Covers (points.map fun p => setPixelFast fb pixel p.1 p.2) px py ↔ (px, py) ∈ points := by
  unfold Covers setPixelFast
  constructor
  · rintro ⟨d, hd, rfl, rfl⟩
    obtain ⟨p, hp, rfl⟩ := List.mem_map.mp hd
    exact hp
  · intro hp
    exact ⟨_, List.mem_map_of_mem hp, rfl, rfl⟩

end Confined

/-- Four rows of four pixels. -/
def smallFb : FbInfo := ⟨4, 4, 16, 16, 8, 0, true⟩

end BrightS
