/-
Rows and columns, cut to the screen and to the clip.

A row is cut to what lies on the screen, whose width is turned into an `int` on the way, and then
to the clip.  What is left is the common part, unless there are 2³¹ columns or more from its start
on, or the row begins beyond 2³² words (`fbLines_exact_iff`); a column is the same with the two
axes exchanged.
-/
import BrightS.Proofs.Dbuffer

namespace BrightS

open Raster

section

variable {fb : FbInfo} {clip : Clip} {r : Area} {color : Color} {x y len px py limit : Int}

/-! ### The two cuts -/

/-- The rest of a side from a position on, turned into an `int`, is the rest or negative. -/
theorem toInt_rest (hlimit : 0 ≤ limit ∧ limit < 2 ^ 32) (hx : IsInt x) :
    limit - max x 0 < 2 ^ 31 ∧ toInt (limit - max x 0) = limit - max x 0 ∨
      2 ^ 31 ≤ limit - max x 0 ∧ toInt (limit - max x 0) < 0 := by
  unfold IsInt at hx
  unfold toInt
  omega

/-- What the cut to the screen leaves. -/
theorem screenSpan_toInt (hlimit : 0 ≤ limit ∧ limit < 2 ^ 32) (hx : IsInt x) :
    (∃ c n, screenSpan (fun c => toInt (limit - c)) x len = some (c, n) ∧
        limit - max x 0 < 2 ^ 31 ∧
        ∀ p, c ≤ p ∧ p < c + n ↔ x ≤ p ∧ p < x + len ∧ 0 ≤ p ∧ p < limit) ∨
      screenSpan (fun c => toInt (limit - c)) x len = none ∧
        (limit - max x 0 < 2 ^ 31 → ∀ p, ¬ (x ≤ p ∧ p < x + len ∧ 0 ≤ p ∧ p < limit)) := by
  have hrest := toInt_rest hlimit hx
  unfold screenSpan
  dsimp only
  by_cases hneg : x < 0
  · rw [max_eq_right hneg.le] at hrest ⊢
    rw [if_pos hneg, if_pos hneg]
    split_ifs with hcut hnone hnone
    · exact .inr ⟨rfl, fun _ p hp => by omega⟩
    · exact .inl ⟨_, _, rfl, by omega, fun p => by omega⟩
    · exact .inr ⟨rfl, fun _ p hp => by omega⟩
    · exact .inl ⟨_, _, rfl, by omega, fun p => by omega⟩
  · rw [max_eq_left (not_lt.mp hneg)] at hrest ⊢
    rw [if_neg hneg, if_neg hneg]
    split_ifs with hcut hnone hnone
    · exact .inr ⟨rfl, fun _ p hp => by omega⟩
    · exact .inl ⟨_, _, rfl, by omega, fun p => by omega⟩
    · exact .inr ⟨rfl, fun _ p hp => by omega⟩
    · exact .inl ⟨_, _, rfl, by omega, fun p => by omega⟩

/-- The columns of a row that the clip leaves. -/
theorem applyClipRect_row {r' : Area} (hclip : applyClipRect clip r = some r')
    (hthin : r.height = 1) (p : Int) :
    r'.x ≤ p ∧ p < r'.x + r'.width ↔ (r.x ≤ p ∧ p < r.x + r.width) ∧ clip.Shows p r.y := by
  obtain ⟨hy, hone⟩ := (applyClipRect_thin hclip).1 hthin
  have hin : r'.Has p r.y ↔ r.Has p r.y ∧ clip.Shows p r.y := applyClipRect_has hclip
  unfold Area.Has at hin
  constructor
  · rintro ⟨h₁, h₂⟩
    obtain ⟨h, hshows⟩ := hin.mp ⟨h₁, h₂, by omega, by omega⟩
    exact ⟨⟨h.1, h.2.1⟩, hshows⟩
  · rintro ⟨⟨h₁, h₂⟩, hshows⟩
    have h := hin.mpr ⟨⟨h₁, h₂, by omega, by omega⟩, hshows⟩
    exact ⟨h.1, h.2.1⟩

/-- The rows of a column that the clip leaves. -/
theorem applyClipRect_column {r' : Area} (hclip : applyClipRect clip r = some r')
    (hthin : r.width = 1) (p : Int) :
    r'.y ≤ p ∧ p < r'.y + r'.height ↔ (r.y ≤ p ∧ p < r.y + r.height) ∧ clip.Shows r.x p := by
  obtain ⟨hx, hone⟩ := (applyClipRect_thin hclip).2 hthin
  have hin : r'.Has r.x p ↔ r.Has r.x p ∧ clip.Shows r.x p := applyClipRect_has hclip
  unfold Area.Has at hin
  constructor
  · rintro ⟨h₁, h₂⟩
    obtain ⟨h, hshows⟩ := hin.mp ⟨by omega, by omega, h₁, h₂⟩
    exact ⟨⟨h.2.2.1, h.2.2.2⟩, hshows⟩
  · rintro ⟨⟨h₁, h₂⟩, hshows⟩
    have h := hin.mpr ⟨⟨by omega, by omega, h₁, h₂⟩, hshows⟩
    exact ⟨h.2.2.1, h.2.2.2⟩

/-! ### What is drawn -/

/-- In the columns that a row has on the screen and in the clip. -/
def RowPixel (fb : FbInfo) (clip : Clip) (x y len px py : Int) : Prop :=
  py = y ∧ x ≤ px ∧ px < x + len ∧ 0 ≤ px ∧ px < fb.width ∧ clip.Shows px y

/-- In the rows that a column has on the screen and in the clip. -/
def ColumnPixel (fb : FbInfo) (clip : Clip) (x y len px py : Int) : Prop :=
  px = x ∧ y ≤ py ∧ py < y + len ∧ 0 ≤ py ∧ py < fb.height ∧ clip.Shows x py

/-- Which columns a row is drawn in. -/
theorem covers_fbDrawHline (hinit : fb.initialized = true) (hwidth : fb.width < 2 ^ 32)
    (hx : IsInt x) (px py : Int) :
    Covers (fbDrawHline fb clip x y len color) px py ↔
      RowPixel fb clip x y len px py ∧
        toUint32 y < fb.height ∧ (fb.width : Int) - max x 0 < 2 ^ 31 := by
  unfold fbDrawHline RowPixel
  rw [if_neg (by rw [hinit]; exact Bool.false_ne_true.symm)]
  by_cases hout : (fb.height : Int) ≤ toUint32 y ∨ len ≤ 0
  · rw [if_pos hout, covers_nil]
    exact iff_of_false id fun h => by omega
  rw [if_neg hout]
  have hrow : toUint32 y < fb.height := by omega
  have hlimit : 0 ≤ (fb.width : Int) ∧ (fb.width : Int) < 2 ^ 32 := by omega
  rcases screenSpan_toInt hlimit hx with ⟨c, n, hspan, hsmall, hmem⟩ | ⟨hspan, hempty⟩
  · rw [hspan]
    dsimp only
    cases hclip : applyClipRect clip ⟨c, y, n, 1⟩ with
    | none =>
        rw [covers_nil]
        refine iff_of_false id ?_
        rintro ⟨⟨-, h₁, h₂, h₃, h₄, hshows⟩, -⟩
        obtain ⟨hlo, hhi⟩ := (hmem px).mpr ⟨h₁, h₂, h₃, h₄⟩
        exact applyClipRect_none_has hclip ⟨⟨hlo, hhi, le_refl y, Int.lt_succ y⟩, hshows⟩
    | some r =>
        have hcolumns := applyClipRect_row hclip rfl px
        dsimp only at hcolumns ⊢
        rw [covers_fillRow, ← and_assoc, hcolumns, hmem]
        constructor
        · rintro ⟨⟨⟨h₁, h₂, h₃, h₄⟩, hshows⟩, hy⟩
          exact ⟨⟨hy, h₁, h₂, h₃, h₄, hshows⟩, hrow, hsmall⟩
        · rintro ⟨⟨hy, h₁, h₂, h₃, h₄, hshows⟩, -⟩
          exact ⟨⟨⟨h₁, h₂, h₃, h₄⟩, hshows⟩, hy⟩
  · rw [hspan, covers_nil]
    refine iff_of_false id ?_
    rintro ⟨⟨-, h₁, h₂, h₃, h₄, -⟩, -, hsmall⟩
    exact hempty hsmall px ⟨h₁, h₂, h₃, h₄⟩

/-- Which rows a column is drawn in. -/
theorem covers_fbDrawVline (hinit : fb.initialized = true) (hheight : fb.height < 2 ^ 32)
    (hy : IsInt y) (px py : Int) :
    Covers (fbDrawVline fb clip x y len color) px py ↔
      ColumnPixel fb clip x y len px py ∧
        toUint32 x < fb.width ∧ (fb.height : Int) - max y 0 < 2 ^ 31 := by
  unfold fbDrawVline ColumnPixel
  rw [if_neg (by rw [hinit]; exact Bool.false_ne_true.symm)]
  by_cases hout : (fb.width : Int) ≤ toUint32 x ∨ len ≤ 0
  · rw [if_pos hout, covers_nil]
    exact iff_of_false id fun h => by omega
  rw [if_neg hout]
  have hcolumn : toUint32 x < fb.width := by omega
  have hlimit : 0 ≤ (fb.height : Int) ∧ (fb.height : Int) < 2 ^ 32 := by omega
  rcases screenSpan_toInt hlimit hy with ⟨c, n, hspan, hsmall, hmem⟩ | ⟨hspan, hempty⟩
  · rw [hspan]
    dsimp only
    cases hclip : applyClipRect clip ⟨x, c, 1, n⟩ with
    | none =>
        rw [covers_nil]
        refine iff_of_false id ?_
        rintro ⟨⟨-, h₁, h₂, h₃, h₄, hshows⟩, -⟩
        obtain ⟨hlo, hhi⟩ := (hmem py).mpr ⟨h₁, h₂, h₃, h₄⟩
        exact applyClipRect_none_has hclip ⟨⟨le_refl x, Int.lt_succ x, hlo, hhi⟩, hshows⟩
    | some r =>
        have hrows := applyClipRect_column hclip rfl py
        dsimp only at hrows ⊢
        have hsteps : (∃ i : Nat, i < r.height.toNat ∧ x = px ∧ r.y + i = py) ↔
            px = x ∧ r.y ≤ py ∧ py < r.y + r.height :=
          ⟨fun ⟨i, hi, hcol, hrow⟩ => by omega,
            fun ⟨hcol, hlo, hhi⟩ => ⟨(py - r.y).toNat, by omega, hcol.symm, by omega⟩⟩
        rw [covers_range, hsteps, hrows, hmem]
        constructor
        · rintro ⟨hx, ⟨h₁, h₂, h₃, h₄⟩, hshows⟩
          exact ⟨⟨hx, h₁, h₂, h₃, h₄, hshows⟩, hcolumn, hsmall⟩
        · rintro ⟨⟨hx, h₁, h₂, h₃, h₄, hshows⟩, -⟩
          exact ⟨hx, ⟨h₁, h₂, h₃, h₄⟩, hshows⟩
  · rw [hspan, covers_nil]
    refine iff_of_false id ?_
    rintro ⟨⟨-, h₁, h₂, h₃, h₄, -⟩, -, hsmall⟩
    exact hempty hsmall py ⟨h₁, h₂, h₃, h₄⟩

/-- Where the dots of a row go. -/
theorem dots_fbDrawHline {d : Dot Pixel} (hd : d ∈ fbDrawHline fb clip x y len color) :
    d.cell = toUint32 (d.y * fb.stride) + d.x ∧ d.value = colorToPixelFast fb color := by
  unfold fbDrawHline at hd
  split_ifs at hd
  · exact absurd hd List.not_mem_nil
  · exact absurd hd List.not_mem_nil
  · split at hd
    · exact absurd hd List.not_mem_nil
    · split at hd
      · exact absurd hd List.not_mem_nil
      · obtain ⟨i, -, rfl⟩ := List.mem_map.mp hd
        exact ⟨add_assoc .., rfl⟩

/-- Where the dots of a column go. -/
theorem dots_fbDrawVline {d : Dot Pixel} (hd : d ∈ fbDrawVline fb clip x y len color) :
    d.cell = toUint32 (d.y * fb.stride + d.x) ∧ d.value = colorToPixelFast fb color := by
  unfold fbDrawVline at hd
  split_ifs at hd
  · exact absurd hd List.not_mem_nil
  · exact absurd hd List.not_mem_nil
  · split at hd
    · exact absurd hd List.not_mem_nil
    · split at hd
      · exact absurd hd List.not_mem_nil
      · obtain ⟨i, -, rfl⟩ := List.mem_map.mp hd
        refine ⟨congrArg toUint32 ?_, rfl⟩
        dsimp only
        rw [add_mul, add_right_comm]

/-! ### When it is the common part -/

/-- A cut to the screen is right: fewer than 2³¹ pixels are left of the screen where the line
begins, and the word that is written to is below 2³².  `across` is the coordinate that stays; a
negative one must not pass for one at the far end. -/
def CutFits (rest across acrossLimit word : Int) : Prop :=
  (0 ≤ across → across < acrossLimit → rest < 2 ^ 31 ∧ word < 2 ^ 32) ∧
    (across < 0 → across + 2 ^ 32 < acrossLimit → 2 ^ 31 ≤ rest)

def HlineFits (fb : FbInfo) (clip : Clip) (x y len : Int) : Prop :=
  ∀ px py, RowPixel fb clip x y len px py →
    CutFits (fb.width - max x 0) y fb.height (py * fb.stride)

def VlineFits (fb : FbInfo) (clip : Clip) (x y len : Int) : Prop :=
  ∀ px py, ColumnPixel fb clip x y len px py →
    CutFits (fb.height - max y 0) x fb.width (py * fb.stride + px)

/-- Which coordinates pass for one on the screen. -/
theorem toUint32_lt_iff {v limit : Int} (hv : IsInt v) :
    toUint32 v < limit ↔ 0 ≤ v ∧ v < limit ∨ v < 0 ∧ v + 2 ^ 32 < limit := by
  unfold IsInt at hv
  unfold toUint32
  omega

theorem toUint32_eq_iff {v : Int} (hv : 0 ≤ v) : toUint32 v = v ↔ v < 2 ^ 32 := by
  unfold toUint32
  omega

/-- A line that is drawn where the two conversions let it be is right when they do no harm. -/
theorem drawn_iff_cut {dots : List (Dot Pixel)} {pixel : Pixel} {P : Int → Int → Prop}
    {rest across acrossLimit : Int} (word : Int → Int → Int) (hacross : IsInt across)
    (hcovers : ∀ px py, Covers dots px py ↔
      P px py ∧ toUint32 across < acrossLimit ∧ rest < 2 ^ 31)
    (hcell : ∀ d ∈ dots, 0 ≤ across → (d.cell = fb.cell d.x d.y ↔ word d.x d.y < 2 ^ 32))
    (hvalue : ∀ d ∈ dots, d.value = pixel) :
    Drawn fb pixel dots (fun px py => P px py ∧ 0 ≤ across ∧ across < acrossLimit) ↔
      ∀ px py, P px py → CutFits rest across acrossLimit (word px py) := by
  simp only [toUint32_lt_iff hacross] at hcovers
  constructor
  · intro hdrawn px py hpoint
    refine ⟨fun hlo hhi => ?_, fun hneg hfar => ?_⟩
    · obtain ⟨d, hd, rfl, rfl⟩ := (hdrawn.covers px py).mpr ⟨hpoint, hlo, hhi⟩
      exact ⟨((hcovers _ _).mp ⟨d, hd, rfl, rfl⟩).2.2,
        (hcell d hd hlo).mp (hdrawn.atCells d hd)⟩
    · by_contra hsmall
      have hcovered := (hcovers px py).mpr ⟨hpoint, .inr ⟨hneg, hfar⟩, not_le.mp hsmall⟩
      have hlo := ((hdrawn.covers px py).mp hcovered).2.1
      omega
  · intro hfits
    have hinside : ∀ px py, Covers dots px py →
        P px py ∧ (0 ≤ across ∧ across < acrossLimit) ∧ word px py < 2 ^ 32 := by
      intro px py hcovered
      obtain ⟨hpoint, hin | ⟨hneg, hfar⟩, hsmall⟩ := (hcovers px py).mp hcovered
      · exact ⟨hpoint, hin, ((hfits px py hpoint).1 hin.1 hin.2).2⟩
      · exact absurd ((hfits px py hpoint).2 hneg hfar) (not_le.mpr hsmall)
    refine ⟨fun px py => ⟨fun hcovered => ?_, ?_⟩, fun d hd => ?_, hvalue⟩
    · obtain ⟨hpoint, hin, -⟩ := hinside px py hcovered
      exact ⟨hpoint, hin⟩
    · rintro ⟨hpoint, hin⟩
      exact (hcovers px py).mpr ⟨hpoint, .inl hin, ((hfits px py hpoint).1 hin.1 hin.2).1⟩
    · obtain ⟨-, hin, hword⟩ := hinside d.x d.y ⟨d, hd, rfl, rfl⟩
      exact (hcell d hd hin.1).mpr hword

theorem rowPixel_iff : RowPixel fb clip x y len px py ∧ 0 ≤ y ∧ y < fb.height ↔
    Area.Has ⟨x, y, len, 1⟩ px py ∧ Visible fb clip px py := by
  unfold RowPixel Visible
  rw [screen_has]
  unfold Area.Has
  dsimp only
  constructor
  · rintro ⟨⟨rfl, h₁, h₂, h₃, h₄, hshows⟩, hlo, hhi⟩
    exact ⟨⟨h₁, h₂, le_refl py, Int.lt_succ py⟩, ⟨h₃, h₄, hlo, hhi⟩, hshows⟩
  · rintro ⟨⟨h₁, h₂, hle, hlt⟩, ⟨h₃, h₄, hlo, hhi⟩, hshows⟩
    obtain rfl : py = y := le_antisymm (Int.lt_add_one_iff.mp hlt) hle
    exact ⟨⟨rfl, h₁, h₂, h₃, h₄, hshows⟩, hlo, hhi⟩

theorem columnPixel_iff : ColumnPixel fb clip x y len px py ∧ 0 ≤ x ∧ x < fb.width ↔
    Area.Has ⟨x, y, 1, len⟩ px py ∧ Visible fb clip px py := by
  unfold ColumnPixel Visible
  rw [screen_has]
  unfold Area.Has
  dsimp only
  constructor
  · rintro ⟨⟨rfl, h₁, h₂, h₃, h₄, hshows⟩, hlo, hhi⟩
    exact ⟨⟨le_refl px, Int.lt_succ px, h₁, h₂⟩, ⟨hlo, hhi, h₃, h₄⟩, hshows⟩
  · rintro ⟨⟨hle, hlt, h₁, h₂⟩, ⟨hlo, hhi, h₃, h₄⟩, hshows⟩
    obtain rfl : px = x := le_antisymm (Int.lt_add_one_iff.mp hlt) hle
    exact ⟨⟨rfl, h₁, h₂, h₃, h₄, hshows⟩, hlo, hhi⟩

/-- A row comes out right exactly when its cut does. -/
theorem drawn_fbDrawHline_iff (hinit : fb.initialized = true) (hwidth : fb.width < 2 ^ 32)
    (hx : IsInt x) (hy : IsInt y) :
    Drawn fb (colorToPixelFast fb color) (fbDrawHline fb clip x y len color)
        (fun px py => RowPixel fb clip x y len px py ∧ 0 ≤ y ∧ y < fb.height) ↔
      HlineFits fb clip x y len := by
  refine drawn_iff_cut (fun _ py => py * fb.stride) hy (covers_fbDrawHline hinit hwidth hx)
    (fun d hd hlo => ?_) fun d hd => (dots_fbDrawHline hd).2
  have hrow : d.y = y :=
    ((covers_fbDrawHline hinit hwidth hx d.x d.y).mp ⟨d, hd, rfl, rfl⟩).1.1
  have hword : 0 ≤ d.y * fb.stride :=
    Int.mul_nonneg (hlo.trans_eq hrow.symm) (Int.natCast_nonneg _)
  rw [(dots_fbDrawHline hd).1, FbInfo.cell, add_left_inj, toUint32_eq_iff hword]

/-- A column comes out right exactly when its cut does. -/
theorem drawn_fbDrawVline_iff (hinit : fb.initialized = true) (hheight : fb.height < 2 ^ 32)
    (hx : IsInt x) (hy : IsInt y) :
    Drawn fb (colorToPixelFast fb color) (fbDrawVline fb clip x y len color)
        (fun px py => ColumnPixel fb clip x y len px py ∧ 0 ≤ x ∧ x < fb.width) ↔
      VlineFits fb clip x y len := by
  refine drawn_iff_cut (fun px py => py * fb.stride + px) hx (covers_fbDrawVline hinit hheight hy)
    (fun d hd hlo => ?_) fun d hd => (dots_fbDrawVline hd).2
  obtain ⟨hcolumn, -, -, htop, -⟩ :=
    ((covers_fbDrawVline hinit hheight hy d.x d.y).mp ⟨d, hd, rfl, rfl⟩).1
  have hword : 0 ≤ d.y * fb.stride + d.x :=
    Int.add_nonneg (Int.mul_nonneg htop (Int.natCast_nonneg _)) (hlo.trans_eq hcolumn.symm)
  rw [(dots_fbDrawVline hd).1, FbInfo.cell, toUint32_eq_iff hword]

theorem Drawn.congr_iff {pixel : Pixel} {dots : List (Dot Pixel)} {P Q : Int → Int → Prop}
    (hsame : ∀ px py, P px py ↔ Q px py) : Drawn fb pixel dots P ↔ Drawn fb pixel dots Q :=
  ⟨fun h => h.congr hsame, fun h => h.congr fun px py => (hsame px py).symm⟩

end

/-- **A row or column sets exactly the pixels that it has on the screen and in the clip, each at
its word, when the conversions to `int` and `uint32_t` do no harm.** -/
theorem fbLines_exact_iff {fb : FbInfo} {clip : Clip} {x y : Int} (len : Int) (color : Color)
    (hinit : fb.initialized = true) (hwidth : fb.width < 2 ^ 32) (hheight : fb.height < 2 ^ 32)
    (hx : IsInt x) (hy : IsInt y) :
    (Drawn fb (colorToPixelFast fb color) (fbDrawHline fb clip x y len color)
        (fun px py => Area.Has ⟨x, y, len, 1⟩ px py ∧ Visible fb clip px py) ↔
      HlineFits fb clip x y len) ∧
    (Drawn fb (colorToPixelFast fb color) (fbDrawVline fb clip x y len color)
        (fun px py => Area.Has ⟨x, y, 1, len⟩ px py ∧ Visible fb clip px py) ↔
      VlineFits fb clip x y len) :=
  ⟨(Drawn.congr_iff fun _ _ => rowPixel_iff.symm).trans
      (drawn_fbDrawHline_iff hinit hwidth hx hy),
    (Drawn.congr_iff fun _ _ => columnPixel_iff.symm).trans
      (drawn_fbDrawVline_iff hinit hheight hx hy)⟩

/-- A row and a column that go on behind the clip and the small screen: two pixels of each are
drawn. -/
theorem fbLines_exact_small :
    Drawn smallFb (colorToPixelFast smallFb ⟨255, 0, 0⟩)
        (fbDrawHline smallFb ⟨1, 1, 2, 2, true⟩ 1 1 9 ⟨255, 0, 0⟩)
        (fun px py => Area.Has ⟨1, 1, 9, 1⟩ px py ∧ Visible smallFb ⟨1, 1, 2, 2, true⟩ px py) ∧
      Drawn smallFb (colorToPixelFast smallFb ⟨255, 0, 0⟩)
        (fbDrawVline smallFb ⟨1, 1, 2, 2, true⟩ 1 1 9 ⟨255, 0, 0⟩)
        (fun px py => Area.Has ⟨1, 1, 1, 9⟩ px py ∧ Visible smallFb ⟨1, 1, 2, 2, true⟩ px py) ∧
      (fbDrawHline smallFb ⟨1, 1, 2, 2, true⟩ 1 1 9 ⟨255, 0, 0⟩).map (fun d => (d.x, d.y)) =
        [(1, 1), (2, 1)] ∧
      (fbDrawVline smallFb ⟨1, 1, 2, 2, true⟩ 1 1 9 ⟨255, 0, 0⟩).map (fun d => (d.x, d.y)) =
        [(1, 1), (1, 2)] := by
  have hone : IsInt 1 := by decide
  have hfits := @fbLines_exact_iff smallFb ⟨1, 1, 2, 2, true⟩ 1 1 9 ⟨255, 0, 0⟩ rfl (by decide)
    (by decide) hone hone
  refine ⟨hfits.1.mpr ?_, hfits.2.mpr ?_, by decide, by decide⟩
  · rintro px py ⟨rfl, -⟩
    exact ⟨fun _ _ => by decide, fun hneg => absurd hneg (by decide)⟩
  · rintro px py ⟨rfl, -, -, -, hbottom, -⟩
    refine ⟨fun _ _ => ⟨by decide, ?_⟩, fun hneg => absurd hneg (by decide)⟩
    have hheight : py < 4 := hbottom
    have hstride : (smallFb.stride : Int) = 4 := by decide
    rw [hstride]
    omega

/-- One row of 2³¹ pixels, with the pitch that `brights_fb_init` computes for it: the width is
negative as an `int`. -/
def wideFb : FbInfo := ⟨2 ^ 31, 1, 2 ^ 31 * 4 % 2 ^ 32, 16, 8, 0, true⟩

/-- Nothing is drawn at the start of the wide row, though the pixel is on the screen. -/
theorem fbDrawHline_wide_lost :
    ¬ ∀ (fb : FbInfo) (clip : Clip) (x y len : Int) (color : Color), fb.initialized = true →
      fb.width < 2 ^ 32 → fb.height < 2 ^ 32 → fb.pitch < 2 ^ 32 → IsInt x → IsInt y →
      IsInt (x + len) → IsInt (y + len) → 0 ≤ clip.width → 0 ≤ clip.height →
      IsInt (clip.x + clip.width) → IsInt (clip.y + clip.height) →
      Drawn fb (colorToPixelFast fb color) (fbDrawHline fb clip x y len color)
        (fun px py => Area.Has ⟨x, y, len, 1⟩ px py ∧ Visible fb clip px py) := by
  intro hall
  have hdrawn := hall wideFb ⟨0, 0, 0, 0, false⟩ 0 0 1 ⟨255, 0, 0⟩ rfl (by decide) (by decide)
    (by decide) (by decide) (by decide) (by decide) (by decide) (by decide) (by decide)
    (by decide) (by decide)
  have hnone : fbDrawHline wideFb ⟨0, 0, 0, 0, false⟩ 0 0 1 ⟨255, 0, 0⟩ = [] := by
    decide +kernel
  have hcovered := (hdrawn.covers 0 0).mpr (by decide +kernel)
  rw [hnone] at hcovered
  exact covers_nil.mp hcovered

end BrightS
