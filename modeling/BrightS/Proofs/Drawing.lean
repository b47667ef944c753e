/-
Where the primitives are defined, and which pixels they write then.

A primitive of the source is the one in exact arithmetic as long as the sums that it computes are
`int`s.  These are the edges of the clip and of what is drawn, where the primitive gets to them,
and in a circle the error of the midpoint, which leaves the range for radii beyond 2²⁹.  With that
a call keeps to the screen and the clip exactly if its sums fit and what it takes no care of is on
the screen.
-/
import BrightS.Kernel.Drawing
import BrightS.Lib.Defined
import BrightS.Proofs.Lines

namespace BrightS

open Raster Defined

/-! ### Sums -/

section Sums

variable {clip : Clip} {r : Area} {x y w a b pos len height limit : Int} {results : List Int}

theorem isInt_one : IsInt 1 := by decide

theorem intResult_defined (v : Int) : DefinedIff (intResult v) v (IsInt v) :=
  ⟨intResult_of_isInt, intResult_of_not⟩

theorem intResults_defined (results : List Int) :
    DefinedIff (intResults results) () (∀ v ∈ results, IsInt v) := by
  have hsome : ∀ v, (intResult v).isSome = true ↔ IsInt v := by
    intro v
    by_cases hv : IsInt v
    · rw [intResult_of_isInt hv]
      exact iff_of_true rfl hv
    · rw [intResult_of_not hv]
      exact iff_of_false (by decide) hv
  unfold intResults
  simp only [hsome]
  exact ⟨fun h => if_pos h, fun h => if_neg h⟩

/-- The edges that `brights_clip_point` computes for the point are `int`s. -/
def Clip.PointSums (clip : Clip) (x y : Int) : Prop :=
  clip.enabled = true → clip.x ≤ x → IsInt (clip.x + clip.width) ∧
    (x < clip.x + clip.width → clip.y ≤ y → IsInt (clip.y + clip.height))

/-- The far edges of the clip are `int`s. -/
def Clip.EdgesFit (clip : Clip) : Prop :=
  clip.enabled = true → IsInt (clip.x + clip.width) ∧ IsInt (clip.y + clip.height)

/-- The far edges of the clip and of the rectangle are `int`s, unless the clip is disabled. -/
def Clip.SumsFit (clip : Clip) (r : Area) : Prop :=
  clip.EdgesFit ∧ (clip.enabled = true → IsInt (r.x + r.width) ∧ IsInt (r.y + r.height))

theorem clipPointInt_defined (clip : Clip) (x y : Int) :
    DefinedIff (clipPointInt clip x y) (clipPoint clip x y) (clip.PointSums x y) := by
  unfold clipPointInt clipPoint Clip.PointSums
  by_cases hdisabled : clip.enabled = false
  · rw [if_pos hdisabled, hdisabled]
    exact (DefinedIff.value true).congr (iff_of_true trivial fun henabled => by simp at henabled)
  · rw [if_neg hdisabled]
    have henabled : clip.enabled = true := eq_true_of_ne_false hdisabled
    simp only [henabled, Bool.not_true, Bool.false_or, forall_const]
    by_cases hleft : x < clip.x
    · rw [if_pos hleft, decide_eq_false (by omega)]
      exact (DefinedIff.value false).congr (iff_of_true trivial fun hle => by omega)
    · rw [if_neg hleft]
      have hright : DefinedIff (if clip.x + clip.width ≤ x ∨ y < clip.y then some false else do
          let bottom ← intResult (clip.y + clip.height)
          some (decide (y < bottom)))
          (decide (clip.x ≤ x ∧ x < clip.x + clip.width ∧ clip.y ≤ y ∧ y < clip.y + clip.height))
          (x < clip.x + clip.width → clip.y ≤ y → IsInt (clip.y + clip.height)) := by
        by_cases hout : clip.x + clip.width ≤ x ∨ y < clip.y
        · rw [if_pos hout, decide_eq_false (by omega)]
          exact (DefinedIff.value false).congr (iff_of_true trivial fun _ _ => by omega)
        · rw [if_neg hout]
          have hsame : decide (clip.x ≤ x ∧ x < clip.x + clip.width ∧ clip.y ≤ y ∧
              y < clip.y + clip.height) = decide (y < clip.y + clip.height) :=
            decide_eq_decide.mpr (by omega)
          rw [hsame]
          refine DefinedIff.congr (.bind (intResult_defined _) fun _ => .value _) ?_
          exact ⟨fun h _ _ => h.1, fun h => ⟨h (by omega) (by omega), trivial⟩⟩
      exact DefinedIff.congr (.bind (intResult_defined _) fun _ => hright)
        ⟨fun h _ => h, fun h => h (not_lt.mp hleft)⟩

theorem cutInt_defined (w a b : Int) :
    DefinedIff (cutInt w a b) (if a < b then w - (b - a) else w)
      (a < b → IsInt (b - a) ∧ IsInt (w - (b - a))) := by
  unfold cutInt
  refine DefinedIff.congr (.ite (fun _ => .bind (intResult_defined _) fun _ => intResult_defined _)
    fun _ => .value w) ?_
  exact ⟨And.left, fun h => ⟨h, fun _ => trivial⟩⟩

/-- **Where the four edges are `int`s, so is everything that the clip computes from them.** -/
theorem applyClipRectInt_defined (hwidth : IsInt r.width) (hheight : IsInt r.height) :
    DefinedIff (applyClipRectInt clip r) (applyClipRect clip r) (clip.SumsFit r) := by
  unfold applyClipRectInt applyClipRect Clip.SumsFit Clip.EdgesFit
  by_cases hdisabled : clip.enabled = false
  · rw [if_pos hdisabled, if_pos hdisabled, hdisabled]
    exact (DefinedIff.value _).congr (by simp)
  · rw [if_neg hdisabled, if_neg hdisabled, eq_true_of_ne_false hdisabled]
    have hrest : ∀ cx2 cy2 tx2 ty2 : Int, tx2 = r.x + r.width → ty2 = r.y + r.height →
        DefinedIff (if tx2 ≤ clip.x ∨ ty2 ≤ clip.y ∨ cx2 ≤ r.x ∨ cy2 ≤ r.y then some none else do
          let w ← cutInt r.width r.x clip.x
          let x := if r.x < clip.x then clip.x else r.x
          let h ← cutInt r.height r.y clip.y
          let y := if r.y < clip.y then clip.y else r.y
          let w ← cutInt w cx2 tx2
          let h ← cutInt h cy2 ty2
          some (if 0 < w ∧ 0 < h then some (⟨x, y, w, h⟩ : Area) else none))
        (if tx2 ≤ clip.x ∨ ty2 ≤ clip.y ∨ cx2 ≤ r.x ∨ cy2 ≤ r.y then none else
          let w := if r.x < clip.x then r.width - (clip.x - r.x) else r.width
          let x := if r.x < clip.x then clip.x else r.x
          let h := if r.y < clip.y then r.height - (clip.y - r.y) else r.height
          let y := if r.y < clip.y then clip.y else r.y
          let w := if cx2 < tx2 then w - (tx2 - cx2) else w
          let h := if cy2 < ty2 then h - (ty2 - cy2) else h
          if 0 < w ∧ 0 < h then some ⟨x, y, w, h⟩ else none) True := by
      intro cx2 cy2 tx2 ty2 htx hty
      unfold IsInt at hwidth hheight
      refine DefinedIff.congr (.ite (fun _ => .value none) fun hmeets =>
        .after ((cutInt_defined _ _ _).of_holds ?_) (.after ((cutInt_defined _ _ _).of_holds ?_)
          (.after ((cutInt_defined _ _ _).of_holds ?_) (.after ((cutInt_defined _ _ _).of_holds ?_)
            (.value _))))) (by simp)
      -- Each part that is cut off is shorter than the side it is cut from.
      · exact fun hcut => ⟨⟨by omega, by omega⟩, by omega, by omega⟩
      · exact fun hcut => ⟨⟨by omega, by omega⟩, by omega, by omega⟩
      · intro hcut
        unfold IsInt
        split_ifs <;> omega
      · intro hcut
        unfold IsInt
        split_ifs <;> omega
    refine DefinedIff.congr (.bind (intResult_defined _) fun _ => .bind (intResult_defined _)
      fun _ => .bind (intResult_defined _) fun _ => .bind (intResult_defined _)
        fun _ => hrest _ _ _ _ rfl rfl) ?_
    simp [and_assoc]

/-- The start and length of what is left of a span; only the rest of the side is converted. -/
theorem screenSpanInt_defined {maxLen : Int → Option Int} {f : Int → Int} (hpos : IsInt pos)
    (hlen : IsInt len) (hpositive : 0 < len) (hmax : maxLen (max pos 0) = some (f (max pos 0))) :
    DefinedIff (screenSpanInt maxLen pos len) (screenSpan f pos len) True := by
  unfold IsInt at hpos hlen
  unfold screenSpanInt screenSpan
  by_cases hneg : pos < 0
  · rw [max_eq_right hneg.le] at hmax
    have hsum : IsInt (len + pos) := ⟨by omega, by omega⟩
    simp only [if_pos hneg, intResult_of_isInt hsum, hmax]
    exact DefinedIff.value _
  · rw [max_eq_left (not_lt.mp hneg)] at hmax
    simp only [if_neg hneg, hmax]
    exact DefinedIff.value _

theorem rowsInt_defined (hy : IsInt y) :
    DefinedIff (rowsInt y height) () (0 < height → IsInt (y + height - 1)) := by
  unfold rowsInt
  refine (intResults_defined _).congr ⟨fun hall hheight => ?_, fun hlast v hv => ?_⟩
  · have hmem : y + ((height.toNat - 1 : Nat) : Int) ∈
        (List.range height.toNat).map fun i : Nat => y + (i : Int) :=
      List.mem_map_of_mem (List.mem_range.mpr (by omega))
    have hsum := hall _ hmem
    rwa [show y + ((height.toNat - 1 : Nat) : Int) = y + height - 1 by omega] at hsum
  · obtain ⟨i, hi, rfl⟩ := List.mem_map.mp hv
    have hi' := List.mem_range.mp hi
    have hlast' := hlast (by omega)
    unfold IsInt at hy hlast' ⊢
    omega

end Sums

/-! ### Rows, columns and areas -/

section Areas

variable {fb : FbInfo} {clip : Clip} {r : Area} {x y width height pitch pos len limit : Int}
  {color : Color} {buffer : Option (Int → Pixel)} {f : Int → Int}

/-- A part of the area is on the screen. -/
def FbInfo.Meets (fb : FbInfo) (r : Area) : Prop := ∃ px py, r.Has px py ∧ fb.screen.Has px py

/-- The clip is looked at for rows and columns of which something is on the screen. -/
def SpanSums (fb : FbInfo) (clip : Clip) (r : Area) : Prop :=
  fb.initialized = true → fb.Meets r → clip.EdgesFit

/-- What is left of a span on the screen. -/
theorem screenSpan_eq (hlen : 0 < len) (hf : f (max pos 0) = limit - max pos 0) :
    screenSpan f pos len = if max pos 0 < min (pos + len) limit then
      some (max pos 0, min (pos + len) limit - max pos 0) else none := by
  unfold screenSpan
  by_cases hneg : pos < 0
  · rw [max_eq_right hneg.le] at hf ⊢
    simp only [if_pos hneg, hf]
    split_ifs <;> first | rfl | (exfalso; omega) | (congr 2; omega)
  · rw [max_eq_left (not_lt.mp hneg)] at hf ⊢
    simp only [if_neg hneg, hf]
    split_ifs <;> first | rfl | (exfalso; omega) | (congr 2; omega)

/-- What the clip decides about an area that is drawn as a whole. -/
theorem clipped_defined {dots : Area → List (Dot Pixel)} (hwidth : IsInt r.width)
    (hheight : IsInt r.height) :
    DefinedIff (do
        let area ← applyClipRectInt clip r
        match area with
        | none => some []
        | some c => some (dots c))
      (match applyClipRect clip r with
        | none => []
        | some c => dots c)
      (clip.SumsFit r) := by
  refine DefinedIff.congr (.bind (applyClipRectInt_defined hwidth hheight) fun _ => ?_)
    (iff_of_eq (and_true _))
  cases applyClipRect clip r <;> exact .value _

/-- Both cuts of a row or column: `area` is the area of a span. -/
theorem span_defined {area : Int → Int → Area} {dots : Area → List (Dot Pixel)} (hpos : IsInt pos)
    (hlen : IsInt len) (hpositive : 0 < len) (hlimit : 0 ≤ limit ∧ limit < 2 ^ 31)
    (harea : ∀ c n, IsInt n → IsInt (c + n) → IsInt (area c n).width ∧ IsInt (area c n).height ∧
      IsInt ((area c n).x + (area c n).width) ∧ IsInt ((area c n).y + (area c n).height)) :
    DefinedIff (do
        let span ← screenSpanInt (fun c => some (toInt (limit - c))) pos len
        match span with
        | none => some []
        | some (c, n) => do
            let a ← applyClipRectInt clip (area c n)
            match a with
            | none => some []
            | some r => some (dots r))
      (match screenSpan (fun c => toInt (limit - c)) pos len with
        | none => []
        | some (c, n) =>
            match applyClipRect clip (area c n) with
            | none => []
            | some r => dots r)
      (max pos 0 < min (pos + len) limit → clip.EdgesFit) := by
  unfold IsInt at hpos hlen
  have hrest : toInt (limit - max pos 0) = limit - max pos 0 := toInt_eq ⟨by omega, by omega⟩
  refine .after (screenSpanInt_defined (f := fun c => toInt (limit - c)) hpos hlen hpositive rfl) ?_
  rw [screenSpan_eq hpositive hrest]
  by_cases hmeets : max pos 0 < min (pos + len) limit
  · rw [if_pos hmeets]
    obtain ⟨hwidth, hheight, hx, hy⟩ := harea (max pos 0) (min (pos + len) limit - max pos 0)
      ⟨by omega, by omega⟩ ⟨by omega, by omega⟩
    exact (clipped_defined hwidth hheight).congr
      ⟨fun h _ => h.1, fun h => ⟨h hmeets, fun _ => ⟨hx, hy⟩⟩⟩
  · rw [if_neg hmeets]
    exact (DefinedIff.value _).congr (iff_of_true trivial fun h => absurd h hmeets)

/-- An area without a common point with the screen, or a framebuffer that is not initialized. -/
theorem spanSums_of_none (h : fb.initialized = false ∨ ¬ fb.Meets r) : SpanSums fb clip r := by
  intro hinit hmeets
  rcases h with hno | hno
  · exact absurd (hno.symm.trans hinit) Bool.false_ne_true
  · exact absurd hmeets hno

theorem meets_row : fb.Meets ⟨x, y, width, 1⟩ ↔
    (0 ≤ y ∧ y < fb.height) ∧ 0 < width ∧ max x 0 < min (x + width) fb.width := by
  unfold FbInfo.Meets Area.Has FbInfo.screen
  dsimp only
  constructor
  · rintro ⟨px, py, hin, hon⟩
    omega
  · intro h
    exact ⟨max x 0, y, by omega, by omega⟩

theorem meets_column : fb.Meets ⟨x, y, 1, height⟩ ↔
    (0 ≤ x ∧ x < fb.width) ∧ 0 < height ∧ max y 0 < min (y + height) fb.height := by
  unfold FbInfo.Meets Area.Has FbInfo.screen
  dsimp only
  constructor
  · rintro ⟨px, py, hin, hon⟩
    omega
  · intro h
    exact ⟨x, max y 0, by omega, by omega⟩

theorem fbDrawHlineInt_defined (hsize : fb.IntSized) (hx : IsInt x) (hy : IsInt y)
    (hwidth : IsInt width) :
    DefinedIff (fbDrawHlineInt fb clip x y width color) (fbDrawHline fb clip x y width color)
      (SpanSums fb clip ⟨x, y, width, 1⟩) := by
  obtain ⟨hwide, htall⟩ := hsize
  unfold fbDrawHlineInt fbDrawHline
  by_cases hinit : fb.initialized = false
  · rw [if_pos hinit, if_pos hinit]
    exact (DefinedIff.value _).congr (iff_of_true trivial (spanSums_of_none (.inl hinit)))
  rw [if_neg hinit, if_neg hinit]
  by_cases hout : (fb.height : Int) ≤ toUint32 y ∨ width ≤ 0
  · rw [if_pos hout, if_pos hout]
    refine (DefinedIff.value _).congr (iff_of_true trivial (spanSums_of_none (.inr fun h => ?_)))
    obtain ⟨⟨h₁, h₂⟩, hpos, -⟩ := meets_row.mp h
    rw [toUint32_eq h₁ (by omega)] at hout
    omega
  rw [if_neg hout, if_neg hout]
  obtain ⟨hrow, hpos⟩ := not_or.mp hout
  have hon := lt_of_toUint32 hy.1 (hy.2.trans (by decide)) (by omega) hrow
  refine (span_defined hx hwidth (not_le.mp hpos) (by omega) fun c n hn hend =>
    ⟨hn, isInt_one, hend, by dsimp only; omega, by dsimp only; omega⟩).congr ?_
  exact ⟨fun h _ hmeets => h (meets_row.mp hmeets).2.2, fun h hcut =>
    h (eq_true_of_ne_false hinit) (meets_row.mpr ⟨hon, not_le.mp hpos, hcut⟩)⟩

theorem fbDrawVlineInt_defined (hsize : fb.IntSized) (hx : IsInt x) (hy : IsInt y)
    (hheight : IsInt height) :
    DefinedIff (fbDrawVlineInt fb clip x y height color) (fbDrawVline fb clip x y height color)
      (SpanSums fb clip ⟨x, y, 1, height⟩) := by
  obtain ⟨hwide, htall⟩ := hsize
  unfold fbDrawVlineInt fbDrawVline
  by_cases hinit : fb.initialized = false
  · rw [if_pos hinit, if_pos hinit]
    exact (DefinedIff.value _).congr (iff_of_true trivial (spanSums_of_none (.inl hinit)))
  rw [if_neg hinit, if_neg hinit]
  by_cases hout : (fb.width : Int) ≤ toUint32 x ∨ height ≤ 0
  · rw [if_pos hout, if_pos hout]
    refine (DefinedIff.value _).congr (iff_of_true trivial (spanSums_of_none (.inr fun h => ?_)))
    obtain ⟨⟨h₁, h₂⟩, hpos, -⟩ := meets_column.mp h
    rw [toUint32_eq h₁ (by omega)] at hout
    omega
  rw [if_neg hout, if_neg hout]
  obtain ⟨hcol, hpos⟩ := not_or.mp hout
  have hon := lt_of_toUint32 hx.1 (hx.2.trans (by decide)) (by omega) hcol
  refine (span_defined hy hheight (not_le.mp hpos) (by omega) fun c n hn hend =>
    ⟨isInt_one, hn, ⟨by dsimp only; omega, by dsimp only; omega⟩, hend⟩).congr ?_
  exact ⟨fun h _ hmeets => h (meets_column.mp hmeets).2.2, fun h hcut =>
    h (eq_true_of_ne_false hinit) (meets_column.mpr ⟨hon, not_le.mp hpos, hcut⟩)⟩

/-- With the clip disabled every point is let through. -/
theorem clipped_point {dots : List (Dot Pixel)} :
    (if clip.enabled = true ∧ clipPoint clip x y = false then [] else dots) =
      if clipPoint clip x y = true then dots else [] := by
  cases hpoint : clipPoint clip x y with
  | true => rw [if_neg fun h => Bool.false_ne_true h.2.symm, if_pos rfl]
  | false =>
      have henabled : clip.enabled = true := by
        by_contra hno
        rw [clipPoint, eq_false_of_ne_true hno] at hpoint
        exact absurd hpoint Bool.false_ne_true.symm
      rw [if_pos ⟨henabled, rfl⟩, if_neg Bool.false_ne_true]

theorem fbDrawPixelInt_defined (hsize : fb.IntSized) (hx : IsInt x) (hy : IsInt y) :
    DefinedIff (fbDrawPixelInt fb clip x y color) (fbDrawPixel fb clip x y color)
      (fb.initialized = true → fb.screen.Has x y → clip.PointSums x y) := by
  obtain ⟨hwide, htall⟩ := hsize
  unfold fbDrawPixelInt fbDrawPixel
  by_cases hinit : fb.initialized = false
  · rw [if_pos hinit, if_pos hinit, hinit]
    exact (DefinedIff.value _).congr (by simp)
  rw [if_neg hinit, if_neg hinit]
  by_cases hout : (fb.width : Int) ≤ toUint32 x ∨ (fb.height : Int) ≤ toUint32 y
  · rw [if_pos hout, if_pos hout]
    refine (DefinedIff.value _).congr (iff_of_true trivial fun _ hon => ?_)
    obtain ⟨h₁, h₂, h₃, h₄⟩ := screen_has.mp hon
    rw [toUint32_eq h₁ (by omega), toUint32_eq h₃ (by omega)] at hout
    omega
  rw [if_neg hout, if_neg hout]
  obtain ⟨hcol, hrow⟩ := not_or.mp hout
  have hx' := lt_of_toUint32 hx.1 (hx.2.trans (by decide)) (by omega) hcol
  have hy' := lt_of_toUint32 hy.1 (hy.2.trans (by decide)) (by omega) hrow
  have hon : fb.screen.Has x y := screen_has.mpr ⟨hx'.1, hx'.2, hy'.1, hy'.2⟩
  rw [clipped_point]
  refine DefinedIff.congr (.bind (clipPointInt_defined clip x y) fun _ => .value _) ?_
  exact ⟨fun h _ _ => h.1, fun h => ⟨h (eq_true_of_ne_false hinit) hon, trivial⟩⟩

/-- What the clip leaves of an area has sides, unless the clip is disabled. -/
theorem applyClipRect_sides {c : Area} (henabled : clip.enabled = true)
    (h : applyClipRect clip r = some c) : 0 < c.width ∧ 0 < c.height := by
  unfold applyClipRect at h
  rw [if_neg (by rw [henabled]; decide)] at h
  dsimp only at h
  split_ifs at h <;> cases h
  all_goals assumption

theorem fbFillRectInt_defined (hwidth : IsInt width) (hheight : IsInt height) :
    DefinedIff (fbFillRectInt fb clip x y width height color)
      (fbFillRect fb clip x y width height color)
      (fb.initialized = true → 0 < width → 0 < height → clip.SumsFit ⟨x, y, width, height⟩) := by
  unfold fbFillRectInt fbFillRect
  refine DefinedIff.congr (.ite (fun _ => .value _)
    fun _ => clipped_defined (r := ⟨x, y, width, height⟩) hwidth hheight) ?_
  rw [not_or, not_or, not_le, not_le]
  constructor
  · exact fun h hinit hw hh => h.2 ⟨by rw [hinit]; decide, hw, hh⟩
  · exact fun h => ⟨fun _ => trivial, fun ⟨hinit, hw, hh⟩ => h (eq_true_of_ne_false hinit) hw hh⟩

theorem fbBlitInt_defined (hsize : fb.IntSized) (hx : IsInt x) (hy : IsInt y)
    (hwidth : IsInt width) (hheight : IsInt height) :
    DefinedIff (fbBlitInt fb clip buffer x y width height pitch)
      (fbBlit fb clip buffer x y width height pitch)
      (buffer.isSome = true → fb.initialized = true → fb.screen.Has x y →
        clip.SumsFit ⟨x, y, width, height⟩ ∧
          (clip.enabled = false → 0 < height → IsInt (y + height - 1))) := by
  obtain ⟨hwide, htall⟩ := hsize
  unfold fbBlitInt fbBlit
  cases buffer with
  | none => exact (DefinedIff.value _).congr (iff_of_true trivial fun h => absurd h (by simp))
  | some src =>
    dsimp only
    by_cases hinit : fb.initialized = false
    · rw [if_pos hinit, if_pos hinit, hinit]
      exact (DefinedIff.value _).congr (by simp)
    rw [if_neg hinit, if_neg hinit]
    by_cases hout : (fb.width : Int) ≤ toUint32 x ∨ (fb.height : Int) ≤ toUint32 y
    · rw [if_pos hout, if_pos hout]
      refine (DefinedIff.value _).congr (iff_of_true trivial fun _ _ hon => ?_)
      obtain ⟨h₁, h₂, h₃, h₄⟩ := screen_has.mp hon
      rw [toUint32_eq h₁ (by omega), toUint32_eq h₃ (by omega)] at hout
      omega
    rw [if_neg hout, if_neg hout]
    obtain ⟨hcol, hrow⟩ := not_or.mp hout
    have hx' := lt_of_toUint32 hx.1 (hx.2.trans (by decide)) (by omega) hcol
    have hy' := lt_of_toUint32 hy.1 (hy.2.trans (by decide)) (by omega) hrow
    have hon : fb.screen.Has x y := screen_has.mpr ⟨hx'.1, hx'.2, hy'.1, hy'.2⟩
    refine DefinedIff.congr (P := clip.SumsFit ⟨x, y, width, height⟩ ∧
      (clip.enabled = false → 0 < height → IsInt (y + height - 1)))
      (.bind (applyClipRectInt_defined (r := ⟨x, y, width, height⟩) hwidth hheight)
        fun hsums => ?_) ?_
    · cases hclip : applyClipRect clip ⟨x, y, width, height⟩ with
      | none =>
          refine (DefinedIff.value _).congr (iff_of_true trivial fun hdisabled => ?_)
          unfold applyClipRect at hclip
          rw [if_pos hdisabled] at hclip
          exact absurd hclip (by simp)
      | some c =>
          have hpart := applyClipRect_part hclip
          by_cases henabled : clip.enabled = true
          · -- The part of the rectangle that the clip shows ends within it.
            obtain ⟨hcw, hch⟩ := applyClipRect_sides henabled hclip
            obtain ⟨hright, hbottom⟩ := hsums.2 henabled
            unfold Clip.part Clip.area Area.inter at hpart
            rw [if_pos henabled] at hpart
            unfold IsInt at hx hy hright hbottom
            have hcx : c.x = max x clip.x ∧ c.x + c.width ≤ x + width := by
              rw [hpart]
              dsimp only
              omega
            have hcy : c.y = max y clip.y ∧ c.y + c.height ≤ y + height := by
              rw [hpart]
              dsimp only
              omega
            dsimp only at hright hbottom
            refine DefinedIff.congr (.after ((intResult_defined _).of_holds ⟨by omega, by omega⟩)
              (.after ((rowsInt_defined ⟨by omega, by omega⟩).of_holds fun _ =>
                ⟨by omega, by omega⟩) (.value _))) ?_
            exact iff_of_true trivial fun hdisabled =>
              absurd (hdisabled.symm.trans henabled) (by decide)
          · unfold Clip.part at hpart
            rw [if_neg henabled] at hpart
            subst hpart
            refine DefinedIff.congr (.after ((intResult_defined _).of_holds ?_)
              (.bind (rowsInt_defined hy) fun _ => .value _)) ?_
            · rw [sub_self]
              decide
            · exact ⟨fun h _ => h.1, fun h => ⟨h (eq_false_of_ne_true henabled), trivial⟩⟩
    · exact ⟨fun h _ _ _ => h, fun h => h rfl (eq_true_of_ne_false hinit) hon⟩

/-- `a + n` and then `a + n - 1`. -/
theorem lastInt_defined {a n : Int} (ha : IsInt a) (hn : 0 < n) :
    DefinedIff (intResults [a + n, a + n - 1]) () (IsInt (a + n)) := by
  refine (intResults_defined _).congr ?_
  simp only [List.forall_mem_cons, List.not_mem_nil, false_implies, implies_true, and_true]
  unfold IsInt at *
  omega

theorem fbDrawRectInt_defined (hsize : fb.IntSized) (hx : IsInt x) (hy : IsInt y)
    (hwidth : IsInt width) (hheight : IsInt height) :
    DefinedIff (fbDrawRectInt fb clip x y width height color)
      (fbDrawRect fb clip x y width height color)
      (0 < width → 0 < height → SpanSums fb clip ⟨x, y, width, 1⟩ ∧
        (1 < height → IsInt (y + height) ∧ SpanSums fb clip ⟨x, y + height - 1, width, 1⟩) ∧
        (2 < height → SpanSums fb clip ⟨x, y + 1, 1, height - 2⟩ ∧ IsInt (x + width) ∧
          SpanSums fb clip ⟨x + width - 1, y + 1, 1, height - 2⟩)) := by
  unfold fbDrawRectInt fbDrawRect
  by_cases hempty : width ≤ 0 ∨ height ≤ 0
  · rw [if_pos hempty, if_pos hempty]
    exact (DefinedIff.value _).congr (iff_of_true trivial fun hw hh => by omega)
  rw [if_neg hempty, if_neg hempty]
  obtain ⟨hw, hh⟩ := not_or.mp hempty
  have hbottom : 1 < height → DefinedIff (do
      intResults [y + height, y + height - 1]
      fbDrawHlineInt fb clip x (y + height - 1) width color)
      (fbDrawHline fb clip x (y + height - 1) width color)
      (IsInt (y + height) ∧ SpanSums fb clip ⟨x, y + height - 1, width, 1⟩) := by
    intro htwo
    refine .bind (lastInt_defined hy (by omega)) fun hsum => ?_
    exact fbDrawHlineInt_defined hsize hx ⟨by have := hy.1; omega, by have := hsum.2; omega⟩ hwidth
  have hsides : 2 < height → IsInt (y + height) → DefinedIff (do
      intResults [y + 1, height - 2]
      let left ← fbDrawVlineInt fb clip x (y + 1) (height - 2) color
      intResults [x + width, x + width - 1]
      let right ← fbDrawVlineInt fb clip (x + width - 1) (y + 1) (height - 2) color
      some (left ++ right))
      (fbDrawVline fb clip x (y + 1) (height - 2) color ++
        fbDrawVline fb clip (x + width - 1) (y + 1) (height - 2) color)
      (SpanSums fb clip ⟨x, y + 1, 1, height - 2⟩ ∧ IsInt (x + width) ∧
        SpanSums fb clip ⟨x + width - 1, y + 1, 1, height - 2⟩) := by
    intro hthree hsum
    unfold IsInt at hy hheight hsum
    have hfirst : IsInt (y + 1) := ⟨by omega, by omega⟩
    have hlen : IsInt (height - 2) := ⟨by omega, by omega⟩
    have hboth : ∀ v ∈ [y + 1, height - 2], IsInt v := by simp [hfirst, hlen]
    refine .after ((intResults_defined _).of_holds hboth) (.bind
      (fbDrawVlineInt_defined hsize hx hfirst hlen) fun _ =>
        .bind (lastInt_defined hx (by omega)) fun hend => ?_)
    have hlast : IsInt (x + width - 1) := ⟨by have := hx.1; omega, by have := hend.2; omega⟩
    exact DefinedIff.congr (.bind (fbDrawVlineInt_defined hsize hlast hfirst hlen) fun _ => .value _)
      (iff_of_eq (and_true _))
  refine DefinedIff.congr (.bind (fbDrawHlineInt_defined hsize hx hy hwidth) fun _ =>
    .bind (.ite hbottom fun _ => .value []) fun hlow =>
      .bind (.ite (fun hthree => hsides hthree (hlow.1 (by omega)).1) fun _ => .value [])
        fun _ => .value _) ?_
  constructor
  · exact fun h _ _ => ⟨h.1, h.2.1.1, h.2.2.1.1⟩
  · intro h
    obtain ⟨htop, hlow, hcols⟩ := h (not_le.mp hw) (not_le.mp hh)
    exact ⟨htop, ⟨hlow, fun _ => trivial⟩, ⟨hcols, fun _ => trivial⟩, trivial⟩

end Areas

/-! ### Circles -/

section Circles

variable {cx cy x y d radius : Int} {points : List (Int × Int)}

/-- The error of the midpoint never leaves `int`: at the first step towards the other axis, `4 *
(x - y)` is at least `-2 ^ 31`. -/
def RadiusFits (radius : Int) : Prop := radius < 2 ^ 29 ∨ (radius - 2 ^ 29) ^ 2 < radius

/-- The state of the loop: `d` is the error of the midpoint, which is small while the loop goes on,
and a step towards the other axis is only made where the two are no further apart than 2²⁹. -/
structure OnCircle (radius x y d : Int) : Prop where
  nonneg : 0 ≤ x
  le : y ≤ radius
  error : d = 2 * (x + 1) ^ 2 + y ^ 2 + (y - 1) ^ 2 - 2 * radius ^ 2
  small : x ≤ y → d ≤ 4 * x + 10
  low : -2 ^ 31 ≤ d
  near : y = radius ∨ y - x ≤ 2 ^ 29

theorem RadiusFits.lt (h : RadiusFits radius) : radius < 2 ^ 29 + 2 ^ 15 := by
  rcases h with h | h
  · omega
  · by_contra hge
    nlinarith only [h, hge]

/-- While the loop goes on, `x` stays well below `radius`. -/
theorem OnCircle.lt (h : OnCircle radius x y d) (hle : x ≤ y) (hradius : radius < 2 ^ 29 + 2 ^ 15) :
    x < 2 ^ 29 - 2 ^ 26 := by
  obtain ⟨hx, hy, herror, hsmall, -, -⟩ := h
  have hd := hsmall hle
  by_contra hge
  have hsquare : radius ^ 2 ≤ (2 ^ 29 + 2 ^ 15) ^ 2 := by nlinarith
  have hcross : 0 ≤ (y - x) * (y + x - 1) := mul_nonneg (by omega) (by omega)
  nlinarith

/-- At a step towards the other axis the axes are close enough. -/
theorem OnCircle.step (h : OnCircle radius x y d) (hle : x ≤ y) (hd : 0 ≤ d)
    (hfits : RadiusFits radius) : y - x ≤ 2 ^ 29 := by
  obtain ⟨hx, hy, herror, -, -, rfl | hnear⟩ := h
  · rcases hfits with hfits | hfits
    · omega
    · have hroot : y ≤ (x + 1) ^ 2 := by nlinarith
      by_contra hfar
      nlinarith
  · exact hnear

theorem OnCircle.right (h : OnCircle radius x y d) (hle : x ≤ y) (hneg : d < 0) :
    OnCircle radius (x + 1) y (d + (4 * x + 6)) where
  nonneg := by have := h.nonneg; omega
  le := h.le
  error := by rw [h.error]; ring
  small _ := by omega
  low := by have := h.low; have := h.nonneg; omega
  near := h.near.imp_right fun hnear => by omega

theorem OnCircle.down (h : OnCircle radius x y d) (hle : x ≤ y) (hd : 0 ≤ d)
    (hfits : RadiusFits radius) : OnCircle radius (x + 1) (y - 1) (d + (4 * (x - y) + 10)) where
  nonneg := by have := h.nonneg; omega
  le := by have := h.le; omega
  error := by rw [h.error]; ring
  small hle' := by have := h.small hle; omega
  low := by have := h.step hle hd hfits; omega
  near := .inr (by have := h.step hle hd hfits; omega)

theorem onCircle_start (hpos : 0 < radius) (hlt : radius < 2 ^ 30) :
    OnCircle radius 0 radius (3 - 2 * radius) :=
  ⟨le_refl 0, le_refl radius, by ring, fun _ => by omega, by omega, .inl rfl⟩

/-- The coordinates of the eight points lie in the square around the circle. -/
theorem octantInts_defined (hx : 0 ≤ x) (hle : x ≤ y) (hy : y ≤ radius)
    (hleft : IsInt (cx - radius)) (hright : IsInt (cx + radius)) (htop : IsInt (cy - radius))
    (hbottom : IsInt (cy + radius)) :
    DefinedIff (intResults [cx + x, cx - x, cy + y, cy - y, cx + y, cx - y, cy + x, cy - x]) ()
      True := by
  unfold IsInt at hleft hright htop hbottom
  refine (intResults_defined _).of_holds fun v hv => ?_
  simp only [List.mem_cons, List.not_mem_nil, or_false] at hv
  unfold IsInt
  omega

/-- **Up to the radius that fits, the loop runs as in exact arithmetic.** -/
theorem circleLoopInt_defined (hfits : RadiusFits radius) (hleft : IsInt (cx - radius))
    (hright : IsInt (cx + radius)) (htop : IsInt (cy - radius)) (hbottom : IsInt (cy + radius))
    (h : OnCircle radius x y d) :
    DefinedIff (circleLoopInt cx cy x y d) (circleLoop cx cy x y d) True := by
  have hbound := hfits.lt
  induction x, y, d using circleLoop.induct with
  | case1 x y d hle ihsame ihless =>
      have hx := h.lt hle hbound
      have hd := h.small hle
      have hnonneg := h.nonneg
      have hlow := h.low
      have hy := h.le
      rw [circleLoopInt, circleLoop, if_pos hle, if_pos hle]
      refine .after (octantInts_defined hnonneg hle hy hleft hright htop hbottom) ?_
      by_cases hneg : d < 0
      · rw [if_pos hneg, if_pos hneg]
        have hints : ∀ v ∈ [4 * x, 4 * x + 6, d + (4 * x + 6), x + 1], IsInt v := by
          intro v hv
          simp only [List.mem_cons, List.not_mem_nil, or_false] at hv
          unfold IsInt
          omega
        exact .after ((intResults_defined _).of_holds hints)
          (.after (ihsame (h.right hle hneg)) (.value _))
      · rw [if_neg hneg, if_neg hneg]
        have hnear := h.step hle (not_lt.mp hneg) hfits
        have hints : ∀ v ∈ [x - y, 4 * (x - y), 4 * (x - y) + 10, d + (4 * (x - y) + 10), x + 1,
            y - 1], IsInt v := by
          intro v hv
          simp only [List.mem_cons, List.not_mem_nil, or_false] at hv
          unfold IsInt
          omega
        exact .after ((intResults_defined _).of_holds hints)
          (.after (ihless (h.down hle (not_lt.mp hneg) hfits)) (.value _))
  | case2 x y d hgt =>
      rw [circleLoopInt, circleLoop, if_neg hgt, if_neg hgt]
      exact .value []

/-- A loop that gets past its first step towards the other axis has a radius that fits: up to
there it has `x ^ 2 < radius`. -/
theorem radiusFits_of_some (h : circleLoopInt cx cy x y d = some points) (hy : y = radius)
    (hx : 0 ≤ x) (hroot : x ^ 2 < radius) (hd : d = 2 * (x + 1) ^ 2 + 1 - 2 * radius) :
    RadiusFits radius := by
  induction x, y, d using circleLoop.induct generalizing points with
  | case1 x y d hle ihsame ihless =>
      rw [circleLoopInt, if_pos hle] at h
      obtain ⟨-, -, h⟩ := Option.bind_eq_some_iff.mp h
      by_cases hneg : d < 0
      · rw [if_pos hneg] at h
        obtain ⟨-, -, h⟩ := Option.bind_eq_some_iff.mp h
        obtain ⟨rest, hrest, -⟩ := Option.bind_eq_some_iff.mp h
        exact ihsame hrest hy (by omega) (by omega) (by rw [hd]; ring)
      · rw [if_neg hneg] at h
        obtain ⟨_, hints, -⟩ := Option.bind_eq_some_iff.mp h
        have hfar : IsInt (4 * (x - y)) :=
          ((intResults_defined _).eq_some hints).1 _ (by simp)
        unfold IsInt at hfar
        by_cases hsmall : radius < 2 ^ 29
        · exact .inl hsmall
        · refine .inr (lt_of_le_of_lt ?_ hroot)
          exact pow_le_pow_left₀ (by omega) (by omega) 2
  | case2 x y d hgt =>
      nlinarith only [hgt, hroot, hx, hy]

/-- **A circle around whose square nothing overflows is drawn as in exact arithmetic, or its radius
does not fit and it is undefined.** -/
theorem circlePointsInt_defined (hpos : 0 < radius) (hlt : radius < 2 ^ 30)
    (hleft : IsInt (cx - radius)) (hright : IsInt (cx + radius)) (htop : IsInt (cy - radius))
    (hbottom : IsInt (cy + radius)) :
    DefinedIff (circlePointsInt cx cy radius) (circlePoints cx cy radius) (RadiusFits radius) := by
  have hfirst : ∀ v ∈ [2 * radius, 3 - 2 * radius], IsInt v := by
    intro v hv
    simp only [List.mem_cons, List.not_mem_nil, or_false] at hv
    unfold IsInt
    omega
  unfold circlePointsInt circlePoints
  rw [if_neg (not_le.mpr hpos), if_neg (not_le.mpr hpos)]
  refine .after ((intResults_defined _).of_holds hfirst) ⟨fun hfits => ?_, fun hno => ?_⟩
  · exact (circleLoopInt_defined hfits hleft hright htop hbottom (onCircle_start hpos hlt)).1 trivial
  · rw [Option.eq_none_iff_forall_ne_some]
    intro points hsome
    exact hno (radiusFits_of_some hsome rfl (le_refl 0) (by omega) (by ring))

end Circles

/-! ### All primitives -/

/-- The sums that the primitive comes to on its way are `int`s; for the last two, as far as their
points are on the screen. -/
def DrawCall.SumsFit (fb : FbInfo) (clip : Clip) : DrawCall → Prop
  | .pixel x y _ => fb.initialized = true → fb.screen.Has x y → clip.PointSums x y
  | .hline x y width _ => SpanSums fb clip ⟨x, y, width, 1⟩
  | .vline x y height _ => SpanSums fb clip ⟨x, y, 1, height⟩
  | .rect x y width height _ =>
      0 < width → 0 < height → SpanSums fb clip ⟨x, y, width, 1⟩ ∧
        (1 < height → IsInt (y + height) ∧ SpanSums fb clip ⟨x, y + height - 1, width, 1⟩) ∧
        (2 < height → SpanSums fb clip ⟨x, y + 1, 1, height - 2⟩ ∧ IsInt (x + width) ∧
          SpanSums fb clip ⟨x + width - 1, y + 1, 1, height - 2⟩)
  | .fillRect x y width height _ =>
      fb.initialized = true → 0 < width → 0 < height → clip.SumsFit ⟨x, y, width, height⟩
  | .blit buffer x y width height _ =>
      buffer.isSome = true → fb.initialized = true → fb.screen.Has x y →
        clip.SumsFit ⟨x, y, width, height⟩ ∧
          (clip.enabled = false → 0 < height → IsInt (y + height - 1))
  | .line .. => True
  | .circle _ _ radius _ => RadiusFits radius

/-- The call is defined, and no pixel is written outside of the screen or the clip. -/
def DrawCall.Confined (fb : FbInfo) (clip : Clip) (call : DrawCall) : Prop :=
  ∃ dots, call.fbWritesInt fb clip = some dots ∧ StaysVisible fb clip dots

section Confined

variable {fb : FbInfo} {clip : Clip} {x0 y0 x1 y1 cx cy radius : Int} {color : Color}
  {points : List (Int × Int)}

/-- A line between two points of the screen is defined. -/
theorem linePointsInt_screen (hsize : fb.IntSized) (hfirst : fb.screen.Has x0 y0)
    (hlast : fb.screen.Has x1 y1) : linePointsInt x0 y0 x1 y1 = some (linePoints x0 y0 x1 y1) := by
  obtain ⟨hwide, htall⟩ := hsize
  obtain ⟨h₁, h₂, h₃, h₄⟩ := screen_has.mp hfirst
  obtain ⟨k₁, k₂, k₃, k₄⟩ := screen_has.mp hlast
  have hfits : ∀ (limit : Int) {a b c d : Int}, limit < 2 ^ 31 → 0 ≤ a → a < limit → 0 ≤ b → b < limit →
      0 ≤ c → c < 2 ^ 31 - 1 → AxisFits a d b c := by
    intro limit a b c d hlimit ha ha' hb hb' hc hc'
    have hstep : ∀ v w : Int, 0 ≤ v → v < 2 ^ 31 - 1 → IsInt (v + increment w) := by
      intro v w hv hv'
      unfold IsInt
      rcases isStep_increment w with hw | hw | hw <;> rw [hw] <;> omega
    exact ⟨abs_le.mpr ⟨by omega, by omega⟩, hstep _ _ hb (by omega), fun _ => hstep _ _ hc hc'⟩
  have hline : LineFits x0 y0 x1 y1 :=
    ⟨fun _ => hfits fb.width (by omega) h₁ h₂ k₁ k₂ k₃ (by omega),
      fun _ _ => hfits fb.height (by omega) h₃ h₄ k₃ k₄ k₁ (by omega)⟩
  have hints : IsInt x0 ∧ IsInt y0 ∧ IsInt x1 ∧ IsInt y1 ∧ IsInt (x1 - x0) ∧ IsInt (y1 - y0) := by
    unfold IsInt
    omega
  obtain ⟨hx0, hy0, hx1, hy1, hdx, hdy⟩ := hints
  rcases linePointsInt_cases hx0 hy0 hx1 hy1 hdx hdy with ⟨hrun, -⟩ | ⟨-, hno⟩
  · exact hrun
  · exact absurd hline hno

/-- The square around a circle, if its corners are on the screen. -/
theorem square_ints (hsize : fb.IntSized)
    (hfirst : fb.screen.Has (cx - radius) (cy - radius))
    (hlast : fb.screen.Has (cx + radius) (cy + radius)) :
    radius < 2 ^ 30 ∧ IsInt (cx - radius) ∧ IsInt (cx + radius) ∧ IsInt (cy - radius) ∧
      IsInt (cy + radius) := by
  obtain ⟨hwide, htall⟩ := hsize
  obtain ⟨h₁, h₂, h₃, h₄⟩ := screen_has.mp hfirst
  obtain ⟨k₁, k₂, k₃, k₄⟩ := screen_has.mp hlast
  exact ⟨by omega, ⟨by omega, by omega⟩, ⟨by omega, by omega⟩, ⟨by omega, by omega⟩, by omega,
    by omega⟩

end Confined

-- The far edges of these two clips are no `int`s.
example : fbFillRectInt smallFb ⟨-2 ^ 31, -2 ^ 31, -1, -1, true⟩ 0 0 100 100 ⟨255, 0, 0⟩ = none := by
  decide

example : fbDrawHlineInt smallFb ⟨1, 0, 2 ^ 31 - 1, 4, true⟩ 1 0 3 ⟨255, 0, 0⟩ = none := by decide

end BrightS
