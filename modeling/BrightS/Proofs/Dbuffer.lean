/-
Drawing into the double buffer.

On the screen every pixel has its own word, in the framebuffer and in the buffer at the same
place.  Two drawings in one color that cover the same pixels leave the same memory, so for each
pair of functions it is the pixels that have to be compared.  The buffered functions that do not
look for the clip cover the same as the others only where the clip does not cut.
-/
import BrightS.Proofs.Framebuffer

namespace BrightS

open Raster

/-- What the firmware promises of a mode: a scan line holds a row, and the size in bytes is an
`int`. -/
structure FbInfo.Mode (fb : FbInfo) : Prop where
  width_pos : 0 < fb.width
  height_pos : 0 < fb.height
  row : 4 * fb.width ≤ fb.pitch
  size : fb.pitch * fb.height < 2 ^ 31

/-- The word of a pixel. -/
def FbInfo.cell (fb : FbInfo) (x y : Int) : Int := y * fb.stride + x

/-- The buffer is laid out like the framebuffer. -/
structure Dbuffer.Matches (db : Dbuffer) (fb : FbInfo) : Prop where
  width : db.width = fb.width
  height : db.height = fb.height
  pitch : db.pitch = fb.pitch

section Layout

variable {fb : FbInfo} {db : Dbuffer} {px py : Int}

theorem FbInfo.Mode.bounds (h : fb.Mode) : (fb.width : Int) ≤ fb.stride ∧ fb.pitch < 2 ^ 31 ∧
    fb.height < 2 ^ 31 ∧ fb.width < 2 ^ 31 ∧ fb.stride * fb.height < 2 ^ 31 := by
  obtain ⟨hwidth, hheight, hrow, hsize⟩ := h
  have hpitch : fb.pitch ≤ fb.pitch * fb.height := Nat.le_mul_of_pos_right _ hheight
  have hheight' : fb.height ≤ fb.pitch * fb.height := Nat.le_mul_of_pos_left _ (by omega)
  have hstride : fb.stride = (fb.pitch / 4 : Nat) := rfl
  have hwords : fb.pitch / 4 * fb.height ≤ fb.pitch * fb.height :=
    Nat.mul_le_mul_right _ (Nat.div_le_self _ _)
  refine ⟨by omega, by omega, by omega, by omega, ?_⟩
  rw [hstride]
  exact_mod_cast lt_of_le_of_lt hwords hsize

/-- The words of the screen's pixels are those that the flip copies. -/
theorem FbInfo.Mode.cell_bounds (h : fb.Mode) (hon : fb.screen.Has px py) :
    0 ≤ py * fb.stride ∧ 0 ≤ fb.cell px py ∧ fb.cell px py < fb.stride * fb.height := by
  obtain ⟨hwidth, -, -, -, -⟩ := h.bounds
  obtain ⟨h₁, h₂, h₃, h₄⟩ := screen_has.mp hon
  have hrow : 0 ≤ py * fb.stride := mul_nonneg h₃ (by omega)
  have hlast : py * fb.stride ≤ (fb.height - 1) * fb.stride :=
    mul_le_mul_of_nonneg_right (by omega) (by omega)
  unfold FbInfo.cell
  refine ⟨hrow, by omega, ?_⟩
  rw [sub_mul, one_mul, mul_comm (fb.height : Int)] at hlast
  omega

/-- The start of a row needs no reduction. -/
theorem FbInfo.Mode.row_eq (h : fb.Mode) (hon : fb.screen.Has px py) :
    toUint32 (py * fb.stride) = py * fb.stride := by
  obtain ⟨-, -, -, -, hwords⟩ := h.bounds
  obtain ⟨hrow, -, hlt⟩ := h.cell_bounds hon
  have hpx := (screen_has.mp hon).1
  unfold FbInfo.cell at hlt
  exact toUint32_eq hrow (by omega)

theorem FbInfo.Mode.cell_eq (h : fb.Mode) (hon : fb.screen.Has px py) :
    toUint32 (py * fb.stride + px) = fb.cell px py := by
  obtain ⟨-, -, -, -, hwords⟩ := h.bounds
  obtain ⟨-, hnonneg, hlt⟩ := h.cell_bounds hon
  exact toUint32_eq hnonneg (lt_trans (hlt.trans hwords) (by norm_num))

theorem Dbuffer.Matches.stride (h : db.Matches fb) (hmode : fb.Mode) :
    db.pitch.tdiv 4 = fb.stride ∧ db.stride = fb.stride ∧ db.words = fb.stride * fb.height := by
  obtain ⟨-, hpitch, -, -, hwords⟩ := hmode.bounds
  have hdiv : db.pitch.tdiv 4 = fb.stride := by
    rw [h.pitch]
    exact Int.ofNat_tdiv fb.pitch 4
  have hstride : fb.stride = (fb.pitch / 4 : Nat) := rfl
  refine ⟨hdiv, ?_, ?_⟩
  · unfold Dbuffer.stride
    rw [hdiv]
    exact toUint32_eq (by omega) (by omega)
  · unfold Dbuffer.words
    rw [hdiv, h.height]
    exact toUint32_eq (mul_nonneg (by omega) (by omega)) (by omega)

end Layout

/-! ### Dots at the words of their pixels -/

section Cells

variable {fb : FbInfo} {db : Dbuffer} {pixel : Pixel} {x y width : Int} {r : Area}
  {points : List (Int × Int)} {srcStride rowOffset : Int} {src : Int → Pixel}
  {dots dots' : List (Dot Pixel)}

/-- All the dots are on the screen. -/
def OnScreen (fb : FbInfo) (dots : List (Dot Pixel)) : Prop :=
  ∀ px py, Covers dots px py → fb.screen.Has px py

theorem atCells_append (h : AtCells fb.cell dots) (h' : AtCells fb.cell dots') :
    AtCells fb.cell (dots ++ dots') := by
  intro d hd
  rcases List.mem_append.mp hd with hd | hd
  · exact h d hd
  · exact h' d hd

theorem atCells_setPixels (hmode : fb.Mode)
    (hon : OnScreen fb (points.map fun p => setPixelFast fb pixel p.1 p.2)) :
    AtCells fb.cell (points.map fun p => setPixelFast fb pixel p.1 p.2) := by
  intro d hd
  have hin := hon d.x d.y ⟨d, hd, rfl, rfl⟩
  obtain ⟨p, -, rfl⟩ := List.mem_map.mp hd
  exact hmode.cell_eq hin

theorem atCells_dbufferSetPixels (hdb : db.Matches fb) (hmode : fb.Mode) :
    AtCells fb.cell (points.map fun p => dbufferSetPixelFast db pixel p.1 p.2) := by
  intro d hd
  obtain ⟨p, -, rfl⟩ := List.mem_map.mp hd
  unfold dbufferSetPixelFast FbInfo.cell
  dsimp only
  rw [(hdb.stride hmode).1]

theorem atCells_fillRow (hmode : fb.Mode) (hon : OnScreen fb (fillRow fb.stride pixel x y width)) :
    AtCells fb.cell (fillRow fb.stride pixel x y width) := by
  intro d hd
  have hin := hon d.x d.y ⟨d, hd, rfl, rfl⟩
  obtain ⟨i, -, rfl⟩ := List.mem_map.mp hd
  have hrow := hmode.row_eq hin
  dsimp only at hrow ⊢
  rw [hrow, add_assoc]
  rfl

/-- All rows of the screen are at once a row of words, where a scan line is no longer than it. -/
theorem atCells_fillRows (hmode : fb.Mode) (hwidth : 0 < r.width) (hheight : 0 < r.height)
    (hon : r.Inside fb.screen) : AtCells fb.cell (fillRows fb pixel r) := by
  obtain ⟨-, -, -, hwide, -⟩ := hmode.bounds
  have hcorner := hon r.x r.y ⟨le_refl _, by omega, le_refl _, by omega⟩
  have hfirst := hmode.row_eq hcorner
  unfold fillRows
  split_ifs with hfast
  · obtain ⟨hfull, hstride⟩ := hfast
    rw [toInt_eq ⟨by omega, by omega⟩] at hfull
    rw [toUint32_eq hwidth.le (by omega)] at hstride
    intro d hd
    obtain ⟨i, -, rfl⟩ := List.mem_map.mp hd
    have hsplit := Int.ediv_mul_add_emod (i : Int) r.width
    dsimp only [FbInfo.cell]
    rw [hfirst, add_mul, hstride]
    linarith
  · intro d hd
    obtain ⟨i, hi, hd⟩ := List.mem_flatMap.mp hd
    obtain ⟨j, -, rfl⟩ := List.mem_map.mp hd
    have hi' := List.mem_range.mp hi
    obtain ⟨h₁, h₂, h₃, -⟩ := screen_has.mp hcorner
    obtain ⟨-, -, -, hlast⟩ := screen_has.mp
      (hon r.x (r.y + i) ⟨le_refl _, by omega, by omega, by omega⟩)
    have hupper : fb.screen.Has r.x i := screen_has.mpr ⟨h₁, h₂, Int.natCast_nonneg i, by omega⟩
    have hrows := hmode.row_eq hupper
    dsimp only [FbInfo.cell]
    rw [hfirst, hrows]
    ring

theorem atCells_blitRows (hmode : fb.Mode) (hon : r.Inside fb.screen) :
    AtCells fb.cell (blitRows fb.stride srcStride src rowOffset r) := by
  intro d hd
  obtain ⟨i, hi, hd⟩ := List.mem_flatMap.mp hd
  obtain ⟨j, hj, rfl⟩ := List.mem_map.mp hd
  have hi' := List.mem_range.mp hi
  have hj' := List.mem_range.mp hj
  have hrow := hmode.row_eq (hon (r.x + j) (r.y + i) ⟨by omega, by omega, by omega, by omega⟩)
  dsimp only
  rw [hrow, add_assoc]
  rfl

end Cells

/-! ### Drawings in one color -/

/-- The dots are those of the points, each at its word, in one color. -/
structure Drawn (fb : FbInfo) (pixel : Pixel) (dots : List (Dot Pixel)) (P : Int → Int → Prop) :
    Prop where
  covers : ∀ px py, Covers dots px py ↔ P px py
  atCells : AtCells fb.cell dots
  value : ∀ d ∈ dots, d.value = pixel

/-- The same drawing, on the screen, in the framebuffer and in the buffer. -/
structure SameDrawing (fb : FbInfo) (dots dots' : List (Dot Pixel)) : Prop where
  onScreen : OnScreen fb dots
  atCells : AtCells fb.cell dots
  paints : ∀ m : Int → Pixel, paint m dots = paint m dots'

section Drawn

variable {fb : FbInfo} {db : Dbuffer} {clip : Clip} {pixel : Pixel} {color : Color}
  {x y width height px py : Int} {r : Area} {points : List (Int × Int)}
  {dots dots' : List (Dot Pixel)} {P Q : Int → Int → Prop}

theorem Drawn.append (h : Drawn fb pixel dots P) (h' : Drawn fb pixel dots' Q) :
    Drawn fb pixel (dots ++ dots') fun px py => P px py ∨ Q px py := by
  refine ⟨fun px py => ?_, atCells_append h.atCells h'.atCells, fun d hd => ?_⟩
  · rw [covers_append, h.covers, h'.covers]
  · rcases List.mem_append.mp hd with hd | hd
    · exact h.value d hd
    · exact h'.value d hd

theorem Drawn.congr (h : Drawn fb pixel dots P) (hsame : ∀ px py, P px py ↔ Q px py) :
    Drawn fb pixel dots Q :=
  ⟨fun px py => (h.covers px py).trans (hsame px py), h.atCells, h.value⟩

theorem drawn_nil (hnone : ∀ px py, ¬ P px py) : Drawn fb pixel [] P :=
  ⟨fun px py => covers_nil.trans (iff_of_false id (hnone px py)),
    fun _ hd => absurd hd List.not_mem_nil, fun _ hd => absurd hd List.not_mem_nil⟩

theorem Drawn.same (h : Drawn fb pixel dots P) (h' : Drawn fb pixel dots' P)
    (hon : ∀ px py, P px py → fb.screen.Has px py) : SameDrawing fb dots dots' where
  onScreen px py hcovers := hon px py ((h.covers px py).mp hcovers)
  atCells := h.atCells
  paints _ := paint_same_points h.atCells h'.atCells h.value h'.value
    fun px py => (h.covers px py).trans (h'.covers px py).symm

theorem drawn_setPixels (hmode : fb.Mode) (hon : ∀ p ∈ points, fb.screen.Has p.1 p.2) :
    Drawn fb pixel (points.map fun p => setPixelFast fb pixel p.1 p.2)
      fun px py => (px, py) ∈ points := by
  refine ⟨fun px py => covers_setPixels, atCells_setPixels hmode fun px py hcovers => ?_,
    fun d hd => ?_⟩
  · exact hon (px, py) (covers_setPixels.mp hcovers)
  · obtain ⟨p, -, rfl⟩ := List.mem_map.mp hd
    rfl

theorem drawn_dbufferSetPixels (hdb : db.Matches fb) (hmode : fb.Mode) :
    Drawn fb pixel (points.map fun p => dbufferSetPixelFast db pixel p.1 p.2)
      fun px py => (px, py) ∈ points := by
  refine ⟨fun px py => ⟨?_, fun hp => ⟨_, List.mem_map_of_mem hp, rfl, rfl⟩⟩,
    atCells_dbufferSetPixels hdb hmode, fun d hd => ?_⟩
  · rintro ⟨d, hd, rfl, rfl⟩
    obtain ⟨p, hp, rfl⟩ := List.mem_map.mp hd
    exact hp
  · obtain ⟨p, -, rfl⟩ := List.mem_map.mp hd
    rfl

theorem drawn_fillRow (hmode : fb.Mode) (hin : Area.Inside ⟨x, y, width, 1⟩ fb.screen) :
    Drawn fb pixel (fillRow fb.stride pixel x y width) (Area.Has ⟨x, y, width, 1⟩) := by
  have hpoints : ∀ px py, Covers (fillRow fb.stride pixel x y width) px py ↔
      Area.Has ⟨x, y, width, 1⟩ px py := by
    intro px py
    rw [covers_fillRow]
    unfold Area.Has
    dsimp only
    omega
  refine ⟨hpoints, atCells_fillRow hmode fun px py hcovers => ?_, fun d hd => ?_⟩
  · exact hin px py ((hpoints px py).mp hcovers)
  · obtain ⟨i, -, rfl⟩ := List.mem_map.mp hd
    rfl

/-- On the screen the number of pixels does not wrap. -/
theorem inCount_of_inside (hmode : fb.Mode) (hwidth : 0 < r.width) (hheight : 0 < r.height)
    (hin : r.Inside fb.screen) (hpoint : r.Has px py) : InCount fb r px py := by
  obtain ⟨hrow, -, htall, hwide, hwords⟩ := hmode.bounds
  obtain ⟨hfirst, hlast⟩ := (Area.corners_iff hwidth hheight).mp hin
  obtain ⟨h₁, h₂, h₃, h₄⟩ := screen_has.mp hfirst
  obtain ⟨k₁, k₂, k₃, k₄⟩ := screen_has.mp hlast
  obtain ⟨p₁, p₂, p₃, p₄⟩ := hpoint
  have hcount : r.width * r.height ≤ fb.stride * fb.height :=
    mul_le_mul (by omega) (by omega) hheight.le (by omega)
  have hrows : (py - r.y) * r.width ≤ (r.height - 1) * r.width :=
    mul_le_mul_of_nonneg_right (by omega) hwidth.le
  intro _
  rw [toUint32_eq (mul_pos hwidth hheight).le (by omega)]
  linarith

theorem drawn_fillRows (hmode : fb.Mode) (hwidth : 0 < r.width) (hheight : 0 < r.height)
    (hin : r.Inside fb.screen) : Drawn fb pixel (fillRows fb pixel r) r.Has := by
  refine ⟨fun px py => ?_, atCells_fillRows hmode hwidth hheight hin, fun d hd => ?_⟩
  · rw [covers_fillRows hwidth hheight]
    exact ⟨And.left, fun hpoint => ⟨hpoint, inCount_of_inside hmode hwidth hheight hin hpoint⟩⟩
  · unfold fillRows at hd
    split_ifs at hd
    · obtain ⟨i, -, rfl⟩ := List.mem_map.mp hd
      rfl
    · obtain ⟨i, -, hd⟩ := List.mem_flatMap.mp hd
      obtain ⟨j, -, rfl⟩ := List.mem_map.mp hd
      rfl

/-! ### Rows and columns on the screen -/

/-- The clip shows all of the area. -/
def Clip.ShowsAll (clip : Clip) (r : Area) : Prop := ∀ px py, r.Has px py → clip.Shows px py

theorem applyClipRect_all (hwidth : 0 < r.width) (hheight : 0 < r.height)
    (hshown : clip.ShowsAll r) : applyClipRect clip r = some r := by
  unfold applyClipRect
  by_cases hdisabled : clip.enabled = false
  · rw [if_pos hdisabled]
  · rw [if_neg hdisabled]
    have hinside : r.Inside clip.area :=
      fun px py hpoint => (Clip.shows_iff hdisabled).mp (hshown px py hpoint)
    obtain ⟨⟨h₁, h₂, h₃, h₄⟩, k₁, k₂, k₃, k₄⟩ := (Area.corners_iff hwidth hheight).mp hinside
    unfold Clip.area at h₁ h₂ h₃ h₄ k₁ k₂ k₃ k₄
    dsimp only at h₁ h₂ h₃ h₄ k₁ k₂ k₃ k₄ ⊢
    have hleft : ¬ r.x < clip.x := not_lt.mpr h₁
    have htop : ¬ r.y < clip.y := not_lt.mpr h₃
    have hright : ¬ clip.x + clip.width < r.x + r.width := by omega
    have hbottom : ¬ clip.y + clip.height < r.y + r.height := by omega
    have hmeets : ¬ (r.x + r.width ≤ clip.x ∨ r.y + r.height ≤ clip.y ∨
      clip.x + clip.width ≤ r.x ∨ clip.y + clip.height ≤ r.y) := by omega
    simp only [if_neg hmeets, if_neg hleft, if_neg htop, if_neg hright, if_neg hbottom,
      if_pos (And.intro hwidth hheight)]

theorem screenSpan_inside {f : Int → Int} {pos len : Int} (limit : Int) (hpos : 0 ≤ pos)
    (hlen : 0 < len)
    (hlimit : pos + len ≤ limit) (hf : f pos = limit - pos) :
    screenSpan f pos len = some (pos, len) := by
  unfold screenSpan
  have hnonneg : ¬ pos < 0 := not_lt.mpr hpos
  have hfits : ¬ f pos < len := by omega
  simp only [if_neg hnonneg, if_neg hfits, if_neg (not_le.mpr hlen)]

theorem drawn_fbDrawHline (hmode : fb.Mode) (hinit : fb.initialized = true)
    (hin : Area.Inside ⟨x, y, width, 1⟩ fb.screen) (hshown : clip.ShowsAll ⟨x, y, width, 1⟩) :
    Drawn fb (colorToPixelFast fb color) (fbDrawHline fb clip x y width color)
      (Area.Has ⟨x, y, width, 1⟩) := by
  by_cases hwidth : 0 < width
  · obtain ⟨-, -, htall, hwide, -⟩ := hmode.bounds
    obtain ⟨hfirst, hlast⟩ := (Area.corners_iff hwidth one_pos).mp hin
    obtain ⟨h₁, h₂, h₃, h₄⟩ := screen_has.mp hfirst
    obtain ⟨-, k₂, -, -⟩ := screen_has.mp hlast
    dsimp only at h₁ h₂ h₃ h₄ k₂
    have hspan : screenSpan (fun cx => toInt (fb.width - cx)) x width = some (x, width) :=
      screenSpan_inside _ h₁ hwidth (by omega) (toInt_eq ⟨by omega, by omega⟩)
    have hclip := applyClipRect_all hwidth one_pos hshown
    unfold fbDrawHline
    rw [hinit, if_neg Bool.false_ne_true.symm, toUint32_eq h₃ (by omega), if_neg (by omega), hspan]
    dsimp only
    rw [hclip]
    exact drawn_fillRow hmode hin
  · unfold fbDrawHline
    rw [hinit, if_neg Bool.false_ne_true.symm, if_pos (.inr (not_lt.mp hwidth))]
    refine drawn_nil ?_
    rintro px py ⟨h₁, h₂, -, -⟩
    dsimp only at h₁ h₂
    omega

theorem drawn_fbDrawVline (hmode : fb.Mode) (hinit : fb.initialized = true)
    (hin : Area.Inside ⟨x, y, 1, height⟩ fb.screen) (hshown : clip.ShowsAll ⟨x, y, 1, height⟩)
    (hheight : 0 < height) :
    Drawn fb (colorToPixelFast fb color) (fbDrawVline fb clip x y height color)
      (Area.Has ⟨x, y, 1, height⟩) := by
  obtain ⟨-, -, htall, hwide, -⟩ := hmode.bounds
  obtain ⟨hfirst, hlast⟩ := (Area.corners_iff one_pos hheight).mp hin
  obtain ⟨h₁, h₂, h₃, h₄⟩ := screen_has.mp hfirst
  obtain ⟨-, -, -, k₄⟩ := screen_has.mp hlast
  dsimp only at h₁ h₂ h₃ h₄ k₄
  have hspan : screenSpan (fun cy => toInt (fb.height - cy)) y height = some (y, height) :=
    screenSpan_inside _ h₃ hheight (by omega) (toInt_eq ⟨by omega, by omega⟩)
  have hclip := applyClipRect_all one_pos hheight hshown
  unfold fbDrawVline
  rw [hinit, if_neg Bool.false_ne_true.symm, toUint32_eq h₁ (by omega), if_neg (by omega), hspan]
  dsimp only
  rw [hclip]
  dsimp only
  refine ⟨fun px py => ?_, fun d hd => ?_, fun d hd => ?_⟩
  · rw [covers_range]
    unfold Area.Has
    dsimp only
    constructor
    · rintro ⟨i, hi, rfl, rfl⟩
      omega
    · rintro ⟨p₁, p₂, p₃, p₄⟩
      exact ⟨(py - y).toNat, by omega, by omega, by omega⟩
  · obtain ⟨i, hi, rfl⟩ := List.mem_map.mp hd
    have hi' := List.mem_range.mp hi
    have hpoint : fb.screen.Has x (y + i) := screen_has.mpr ⟨h₁, h₂, by omega, by omega⟩
    have hcell := hmode.cell_eq hpoint
    dsimp only
    rw [← hcell, add_mul]
    exact congrArg toUint32 (by ring)
  · obtain ⟨i, -, rfl⟩ := List.mem_map.mp hd
    rfl

theorem Dbuffer.Matches.unsigned (h : db.Matches fb) (hmode : fb.Mode) :
    toUint32 db.width = fb.width ∧ toUint32 db.height = fb.height := by
  obtain ⟨-, -, htall, hwide, -⟩ := hmode.bounds
  rw [h.width, h.height]
  exact ⟨toUint32_eq (by omega) (by omega), toUint32_eq (by omega) (by omega)⟩

theorem drawn_dbufferDrawHline (hdb : db.Matches fb) (hmode : fb.Mode)
    (hin : Area.Inside ⟨x, y, width, 1⟩ fb.screen) :
    Drawn fb (colorToPixelFast fb color) (dbufferDrawHline fb db x y width color)
      (Area.Has ⟨x, y, width, 1⟩) := by
  by_cases hwidth : 0 < width
  · obtain ⟨-, -, htall, hwide, -⟩ := hmode.bounds
    obtain ⟨hfirst, hlast⟩ := (Area.corners_iff hwidth one_pos).mp hin
    obtain ⟨h₁, h₂, h₃, h₄⟩ := screen_has.mp hfirst
    obtain ⟨-, k₂, -, -⟩ := screen_has.mp hlast
    dsimp only at h₁ h₂ h₃ h₄ k₂
    have hspan : screenSpan (fun cx => db.width - cx) x width = some (x, width) :=
      screenSpan_inside fb.width h₁ hwidth (by omega) (by rw [hdb.width])
    unfold dbufferDrawHline
    rw [(hdb.unsigned hmode).2, toUint32_eq h₃ (by omega), if_neg (by omega), hspan]
    dsimp only
    rw [(hdb.stride hmode).2.1]
    exact drawn_fillRow hmode hin
  · unfold dbufferDrawHline
    rw [if_pos (.inr (not_lt.mp hwidth))]
    refine drawn_nil ?_
    rintro px py ⟨h₁, h₂, -, -⟩
    dsimp only at h₁ h₂
    omega

/-! ### Rectangles -/

theorem absDiff_of_nonneg {d : Int} (h : 0 ≤ d) : absDiff d = d := if_pos h

theorem increment_of_pos {d : Int} (h : 0 < d) : increment d = 1 := if_pos h

/-- A line along one axis never takes a step along the other. -/
theorem lineLoop_straight {major majorInc minorInc a b e i : Int} {rounds : Nat} (he : 0 ≤ e)
    (helt : e < major) (h₁ : 0 ≤ i) (h₂ : i < rounds) :
    (a + i * majorInc, b) ∈ lineLoop major 0 majorInc minorInc rounds a b e := by
  have hmajor : (0 : Int) ≤ major := (lt_of_le_of_lt he helt).le
  obtain ⟨k, hk, hmem⟩ := lineLoop_reaches (a := a) (b := b) (le_refl 0) hmajor he helt h₁ h₂
  have hzero : k = 0 := by
    obtain ⟨hlo, hhi⟩ := hk
    have hlt : k < 1 := by
      by_contra hge
      nlinarith
    have hgt : -1 < k := by
      by_contra hle
      nlinarith
    omega
  rw [hzero, zero_mul, add_zero] at hmem
  exact hmem

theorem linePoints_row {x0 x1 : Int} (hle : x0 ≤ x1) :
    (px, py) ∈ linePoints x0 y x1 y ↔ Area.Has ⟨x0, y, x1 - x0 + 1, 1⟩ px py := by
  unfold Area.Has
  dsimp only
  constructor
  · intro hp
    obtain ⟨⟨h₁, h₂⟩, h₃, h₄⟩ := (linePoints_box x0 y x1 y).1 _ hp
    dsimp only at h₁ h₂ h₃ h₄
    omega
  · rintro ⟨h₁, h₂, h₃, h₄⟩
    have hrow : py = y := by omega
    have hzero : absDiff (y - y) = 0 := absDiff_of_nonneg (by omega) |>.trans (sub_self y)
    have hlen : absDiff (x1 - x0) = x1 - x0 := absDiff_of_nonneg (by omega)
    unfold linePoints
    dsimp only
    rw [hzero, hlen]
    by_cases hpos : 0 < x1 - x0
    · rw [if_pos hpos, increment_of_pos hpos, hrow]
      have hmem : (x0 + (px - x0) * 1, y) ∈ lineLoop (x1 - x0) 0 1 (increment (y - y))
          (x1 - x0 + 1).toNat x0 y ((x1 - x0) / 2) :=
        lineLoop_straight (by omega) (by omega) (by omega) (by omega)
      rwa [mul_one, add_sub_cancel] at hmem
    · rw [if_neg hpos, if_neg (lt_irrefl 0), hrow, show px = x0 by omega]
      exact List.mem_singleton.mpr rfl

theorem linePoints_column {y0 y1 : Int} (hle : y0 ≤ y1) :
    (px, py) ∈ linePoints x y0 x y1 ↔ Area.Has ⟨x, y0, 1, y1 - y0 + 1⟩ px py := by
  unfold Area.Has
  dsimp only
  constructor
  · intro hp
    obtain ⟨⟨h₁, h₂⟩, h₃, h₄⟩ := (linePoints_box x y0 x y1).1 _ hp
    dsimp only at h₁ h₂ h₃ h₄
    omega
  · rintro ⟨h₁, h₂, h₃, h₄⟩
    have hcol : px = x := by omega
    have hzero : absDiff (x - x) = 0 := absDiff_of_nonneg (by omega) |>.trans (sub_self x)
    have hlen : absDiff (y1 - y0) = y1 - y0 := absDiff_of_nonneg (by omega)
    unfold linePoints
    dsimp only
    rw [hzero, hlen, if_neg (by omega)]
    by_cases hpos : 0 < y1 - y0
    · rw [if_pos hpos, increment_of_pos hpos, hcol]
      have hmem : (y0 + (py - y0) * 1, x) ∈ lineLoop (y1 - y0) 0 1 (increment (x - x))
          (y1 - y0 + 1).toNat y0 x ((y1 - y0) / 2) :=
        lineLoop_straight (by omega) (by omega) (by omega) (by omega)
      rw [mul_one, add_sub_cancel] at hmem
      exact List.mem_map_of_mem hmem
    · rw [if_neg hpos, hcol, show py = y0 by omega]
      exact List.mem_singleton.mpr rfl

/-- The sides of a rectangle. -/
def Border (r : Area) (px py : Int) : Prop :=
  r.Has px py ∧
    (py = r.y ∨ py = r.y + r.height - 1 ∨ px = r.x ∨ px = r.x + r.width - 1)

theorem drawn_fbDrawRect (hmode : fb.Mode) (hinit : fb.initialized = true)
    (hin : Area.Inside ⟨x, y, width, height⟩ fb.screen)
    (hshown : clip.ShowsAll ⟨x, y, width, height⟩) :
    Drawn fb (colorToPixelFast fb color) (fbDrawRect fb clip x y width height color)
      (Border ⟨x, y, width, height⟩) := by
  have hrow : ∀ row, y ≤ row → row < y + height → Drawn fb (colorToPixelFast fb color)
      (fbDrawHline fb clip x row width color) (Area.Has ⟨x, row, width, 1⟩) := by
    intro row hlo hhi
    have hpart : Area.Inside ⟨x, row, width, 1⟩ ⟨x, y, width, height⟩ := by
      rintro px py ⟨h₁, h₂, h₃, h₄⟩
      dsimp only at h₁ h₂ h₃ h₄
      exact ⟨h₁, h₂, by dsimp only; omega, by dsimp only; omega⟩
    exact drawn_fbDrawHline hmode hinit (fun px py hp => hin px py (hpart px py hp))
      fun px py hp => hshown px py (hpart px py hp)
  have hcolumn : ∀ col, x ≤ col → col < x + width → 2 < height →
      Drawn fb (colorToPixelFast fb color) (fbDrawVline fb clip col (y + 1) (height - 2) color)
        (Area.Has ⟨col, y + 1, 1, height - 2⟩) := by
    intro col hlo hhi htall
    have hpart : Area.Inside ⟨col, y + 1, 1, height - 2⟩ ⟨x, y, width, height⟩ := by
      rintro px py ⟨h₁, h₂, h₃, h₄⟩
      dsimp only at h₁ h₂ h₃ h₄
      exact ⟨by dsimp only; omega, by dsimp only; omega, by dsimp only; omega,
        by dsimp only; omega⟩
    exact drawn_fbDrawVline hmode hinit (fun px py hp => hin px py (hpart px py hp))
      (fun px py hp => hshown px py (hpart px py hp)) (by omega)
  unfold fbDrawRect
  split_ifs with hempty htwo hthree
  · refine drawn_nil ?_
    rintro px py ⟨⟨h₁, h₂, h₃, h₄⟩, -⟩
    dsimp only at h₁ h₂ h₃ h₄
    omega
  · refine Drawn.congr (((hrow _ (by omega) (by omega)).append (hrow _ (by omega) (by omega))).append
      ((hcolumn _ (by omega) (by omega) hthree).append
        (hcolumn _ (by omega) (by omega) hthree))) fun px py => ?_
    unfold Border Area.Has
    dsimp only
    omega
  · rw [List.append_nil]
    refine Drawn.congr ((hrow _ (by omega) (by omega)).append (hrow _ (by omega) (by omega)))
      fun px py => ?_
    unfold Border Area.Has
    dsimp only
    omega
  · omega
  · rw [List.append_nil, List.append_nil]
    refine Drawn.congr (hrow _ (by omega) (by omega)) fun px py => ?_
    unfold Border Area.Has
    dsimp only
    omega

theorem drawn_dbufferDrawRect (hdb : db.Matches fb) (hmode : fb.Mode) :
    Drawn fb (colorToPixelFast fb color) (dbufferDrawRect fb db x y width height color)
      (Border ⟨x, y, width, height⟩) := by
  unfold dbufferDrawRect
  split_ifs with hempty
  · refine drawn_nil ?_
    rintro px py ⟨⟨h₁, h₂, h₃, h₄⟩, -⟩
    dsimp only at h₁ h₂ h₃ h₄
    omega
  · obtain ⟨hwidth, hheight⟩ := not_or.mp hempty
    have hline : ∀ x0 y0 x1 y1, Drawn fb (colorToPixelFast fb color)
        (dbufferDrawLine fb db x0 y0 x1 y1 color) fun px py => (px, py) ∈ linePoints x0 y0 x1 y1 :=
      fun _ _ _ _ => drawn_dbufferSetPixels hdb hmode
    refine Drawn.congr ((((hline _ _ _ _).append (hline _ _ _ _)).append (hline _ _ _ _)).append
      (hline _ _ _ _)) fun px py => ?_
    rw [linePoints_row (by omega), linePoints_row (by omega), linePoints_column (by omega),
      linePoints_column (by omega)]
    unfold Border Area.Has
    dsimp only
    omega

theorem drawn_dbufferFillRect (hdb : db.Matches fb) (hmode : fb.Mode) (hin : r.Inside fb.screen) :
    Drawn fb pixel ((List.range r.height.toNat).flatMap fun i : Nat =>
      fillRow db.stride pixel r.x (r.y + i) r.width) r.Has := by
  have hrow : ∀ i ∈ List.range r.height.toNat, Drawn fb pixel
      (fillRow db.stride pixel r.x (r.y + i) r.width) (Area.Has ⟨r.x, r.y + i, r.width, 1⟩) := by
    intro i hi
    have hi' := List.mem_range.mp hi
    rw [(hdb.stride hmode).2.1]
    refine drawn_fillRow hmode ?_
    rintro px py ⟨h₁, h₂, h₃, h₄⟩
    dsimp only at h₁ h₂ h₃ h₄
    exact hin px py ⟨h₁, h₂, by omega, by omega⟩
  refine ⟨fun px py => ?_, fun d hd => ?_, fun d hd => ?_⟩
  · rw [covers_flatMap]
    constructor
    · rintro ⟨i, hi, hcovers⟩
      have hi' := List.mem_range.mp hi
      obtain ⟨h₁, h₂, h₃, h₄⟩ := ((hrow i hi).covers px py).mp hcovers
      dsimp only at h₁ h₂ h₃ h₄
      exact ⟨h₁, h₂, by omega, by omega⟩
    · rintro ⟨h₁, h₂, h₃, h₄⟩
      have hi : (py - r.y).toNat ∈ List.range r.height.toNat := List.mem_range.mpr (by omega)
      refine ⟨_, hi, ((hrow _ hi).covers px py).mpr ⟨h₁, h₂, ?_, ?_⟩⟩ <;> dsimp only <;> omega
  · obtain ⟨i, hi, hd⟩ := List.mem_flatMap.mp hd
    exact (hrow i hi).atCells d hd
  · obtain ⟨i, hi, hd⟩ := List.mem_flatMap.mp hd
    exact (hrow i hi).value d hd

end Drawn

/-! ### Pairs of functions -/

/-- What the call draws is on the screen. -/
def DrawCall.OnScreen (fb : FbInfo) : DrawCall → Prop
  | .pixel x y _ => fb.screen.Has x y
  | .hline x y width _ => Area.Inside ⟨x, y, width, 1⟩ fb.screen
  | .vline x y height _ => Area.Inside ⟨x, y, 1, height⟩ fb.screen
  | .rect x y width height _ => Area.Inside ⟨x, y, width, height⟩ fb.screen
  | .fillRect x y width height _ => Area.Inside ⟨x, y, width, height⟩ fb.screen
  | .blit _ x y width height _ => Area.Inside ⟨x, y, width, height⟩ fb.screen
  | .line x0 y0 x1 y1 _ => fb.screen.Has x0 y0 ∧ fb.screen.Has x1 y1
  | .circle cx cy radius _ =>
      0 < radius → fb.screen.Has (cx - radius) (cy - radius) ∧
        fb.screen.Has (cx + radius) (cy + radius)

/-- The clip does not cut what the buffered function draws without it. -/
def DrawCall.Unclipped (clip : Clip) : DrawCall → Prop
  | .pixel .. | .fillRect .. | .line .. | .circle .. => True
  | .hline x y width _ => clip.ShowsAll ⟨x, y, width, 1⟩
  | .rect x y width height _ => clip.ShowsAll ⟨x, y, width, height⟩
  | .blit _ x y width height _ => clip.ShowsAll ⟨x, y, width, height⟩
  -- There is no buffered function.
  | .vline .. => False

/-- What the buffered function writes to an active buffer. -/
def DrawCall.dbufferWrites (fb : FbInfo) (db : Dbuffer) (clip : Clip) : DrawCall → List (Dot Pixel)
  | .pixel x y color => dbufferDrawPixel fb db clip x y color
  | .hline x y width color => dbufferDrawHline fb db x y width color
  | .vline .. => []
  | .rect x y width height color => dbufferDrawRect fb db x y width height color
  | .fillRect x y width height color => dbufferFillRect fb db clip x y width height color
  | .blit buffer x y width height pitch => dbufferBlit db buffer x y width height pitch
  | .line x0 y0 x1 y1 color => dbufferDrawLine fb db x0 y0 x1 y1 color
  | .circle cx cy radius color => dbufferDrawCircle fb db cx cy radius color

section Pairs

variable {fb : FbInfo} {db : Dbuffer} {clip : Clip} {color : Color} {pixel : Pixel}
  {x y width height pitch : Int} {points : List (Int × Int)} {dots : List (Dot Pixel)}
  {buffer : Option (Int → Pixel)}

theorem sameDrawing_nil : SameDrawing fb [] [] where
  onScreen _ _ hcovers := absurd hcovers covers_nil.mp
  atCells _ hd := absurd hd List.not_mem_nil
  paints _ := rfl

theorem sameDrawing_points (hdb : db.Matches fb) (hmode : fb.Mode)
    (hon : ∀ p ∈ points, fb.screen.Has p.1 p.2) :
    SameDrawing fb (points.map fun p => setPixelFast fb pixel p.1 p.2)
      (points.map fun p => dbufferSetPixelFast db pixel p.1 p.2) :=
  (drawn_setPixels hmode hon).same (drawn_dbufferSetPixels hdb hmode)
    fun px py hp => hon (px, py) hp

theorem drawPixel_same (hdb : db.Matches fb) (hmode : fb.Mode) (hinit : fb.initialized = true)
    (hon : fb.screen.Has x y) :
    SameDrawing fb (fbDrawPixel fb clip x y color) (dbufferDrawPixel fb db clip x y color) := by
  obtain ⟨-, -, htall, hwide, -⟩ := hmode.bounds
  obtain ⟨h₁, h₂, h₃, h₄⟩ := screen_has.mp hon
  have hin : ¬ ((fb.width : Int) ≤ x ∨ (fb.height : Int) ≤ y) := by omega
  unfold fbDrawPixel dbufferDrawPixel
  rw [(hdb.unsigned hmode).1, (hdb.unsigned hmode).2, hinit, if_neg Bool.false_ne_true.symm,
    toUint32_eq h₁ (by omega), toUint32_eq h₃ (by omega), if_neg hin, if_neg hin]
  split_ifs with hclip
  · exact sameDrawing_nil
  · have hpoint : ∀ p ∈ [(x, y)], fb.screen.Has p.1 p.2 := by
      intro p hp
      rw [List.mem_singleton.mp hp]
      exact hon
    exact sameDrawing_points hdb hmode hpoint

theorem fillRect_same (hdb : db.Matches fb) (hmode : fb.Mode) (hinit : fb.initialized = true)
    (hon : Area.Inside ⟨x, y, width, height⟩ fb.screen) :
    SameDrawing fb (fbFillRect fb clip x y width height color)
      (dbufferFillRect fb db clip x y width height color) := by
  unfold fbFillRect dbufferFillRect
  rw [hinit]
  by_cases hempty : width ≤ 0 ∨ height ≤ 0
  · rw [if_pos (.inr hempty), if_pos hempty]
    exact sameDrawing_nil
  · rw [if_neg (not_or.mpr ⟨Bool.false_ne_true.symm, hempty⟩), if_neg hempty]
    obtain ⟨hwidth, hheight⟩ := not_or.mp hempty
    cases hclip : applyClipRect clip ⟨x, y, width, height⟩ with
    | none => exact sameDrawing_nil
    | some r =>
        obtain ⟨hrwidth, hrheight⟩ := applyClipRect_pos hclip (not_le.mp hwidth) (not_le.mp hheight)
        have hin : r.Inside fb.screen :=
          fun px py hp => hon px py ((applyClipRect_has hclip).mp hp).1
        exact (drawn_fillRows hmode hrwidth hrheight hin).same
          (drawn_dbufferFillRect hdb hmode hin) hin

theorem eq_nil_of_covers (hnone : ∀ px py, ¬ Covers dots px py) : dots = [] :=
  List.eq_nil_iff_forall_not_mem.mpr fun d hd => hnone d.x d.y ⟨d, hd, rfl, rfl⟩

/-- Where the clip cuts nothing off, the rows of the source are the same as well. -/
theorem blit_same (hdb : db.Matches fb) (hmode : fb.Mode) (hinit : fb.initialized = true)
    (hon : Area.Inside ⟨x, y, width, height⟩ fb.screen)
    (hshown : clip.ShowsAll ⟨x, y, width, height⟩) :
    SameDrawing fb (fbBlit fb clip buffer x y width height pitch)
      (dbufferBlit db buffer x y width height pitch) := by
  unfold fbBlit dbufferBlit
  rw [(hdb.unsigned hmode).1, (hdb.unsigned hmode).2, hinit, (hdb.stride hmode).2.1]
  cases buffer with
  | none => exact sameDrawing_nil
  | some src =>
      dsimp only
      rw [if_neg Bool.false_ne_true.symm]
      split_ifs with hout
      · exact sameDrawing_nil
      · by_cases hsize : 0 < width ∧ 0 < height
        · rw [applyClipRect_all hsize.1 hsize.2 hshown]
          dsimp only
          rw [sub_self]
          exact ⟨fun px py hcovers => hon px py (covers_blitRows.mp hcovers),
            atCells_blitRows hmode hon, fun _ => rfl⟩
        · have hempty : ∀ px py, ¬ Area.Has ⟨x, y, width, height⟩ px py := by
            rintro px py ⟨h₁, h₂, h₃, h₄⟩
            dsimp only at h₁ h₂ h₃ h₄
            omega
          have hbuffered : blitRows fb.stride (toUint32 pitch / 4) src 0 ⟨x, y, width, height⟩ = [] :=
            eq_nil_of_covers fun px py hcovers => hempty px py (covers_blitRows.mp hcovers)
          rw [hbuffered]
          cases hclip : applyClipRect clip ⟨x, y, width, height⟩ with
          | none => exact sameDrawing_nil
          | some r =>
              have hdirect : blitRows fb.stride (toUint32 pitch / 4) src (r.x - x) r = [] := by
                refine eq_nil_of_covers fun px py hcovers => hempty px py ?_
                exact ((applyClipRect_has hclip).mp (covers_blitRows.mp hcovers)).1
              dsimp only
              rw [hdirect]
              exact sameDrawing_nil

/-- The points of a circle lie between the corners of its square. -/
theorem circlePoints_screen {cx cy radius : Int} {p : Int × Int}
    (hon : 0 < radius → fb.screen.Has (cx - radius) (cy - radius) ∧
      fb.screen.Has (cx + radius) (cy + radius)) (hp : p ∈ circlePoints cx cy radius) :
    fb.screen.Has p.1 p.2 := by
  by_cases hpos : 0 < radius
  · obtain ⟨hx, hy⟩ := (circlePoints_square cx cy hpos).1 p hp
    exact (hon hpos).1.between (hon hpos).2 ⟨by omega, by omega⟩ ⟨by omega, by omega⟩
  · unfold circlePoints at hp
    rw [if_pos (not_lt.mp hpos)] at hp
    exact absurd hp List.not_mem_nil

/-- **On the screen, and where the clip does not cut, the two functions draw the same.** -/
theorem dbufferWrites_same (hdb : db.Matches fb) (hmode : fb.Mode) (hinit : fb.initialized = true)
    {call : DrawCall} (hon : call.OnScreen fb) (hclip : call.Unclipped clip) :
    SameDrawing fb (call.fbWrites fb clip) (call.dbufferWrites fb db clip) := by
  cases call with
  | pixel x y color => exact drawPixel_same hdb hmode hinit hon
  | hline x y width color =>
      exact (drawn_fbDrawHline hmode hinit hon hclip).same (drawn_dbufferDrawHline hdb hmode hon) hon
  | vline x y height color => exact hclip.elim
  | rect x y width height color =>
      exact (drawn_fbDrawRect hmode hinit hon hclip).same (drawn_dbufferDrawRect hdb hmode)
        fun px py hp => hon px py hp.1
  | fillRect x y width height color => exact fillRect_same hdb hmode hinit hon
  | blit buffer x y width height pitch => exact blit_same hdb hmode hinit hon hclip
  | line x0 y0 x1 y1 color =>
      refine sameDrawing_points hdb hmode fun p hp => ?_
      obtain ⟨hx, hy⟩ := (linePoints_box x0 y0 x1 y1).1 p hp
      exact hon.1.between hon.2 hx hy
  | circle cx cy radius color =>
      exact sameDrawing_points hdb hmode fun p hp => circlePoints_screen hon hp

end Pairs

end BrightS
