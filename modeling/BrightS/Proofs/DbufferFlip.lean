/-
Runs that draw to the screen, and runs that draw to the buffer and copy it.

On the screen a call whose sums fit is defined, and so is the buffered one.  A run of the one kind
stays behind a run of the other only in what has not been copied yet, as long as no call is one of
those whose clipping differs (`dbuffer_transparent`).
-/
import BrightS.Lib.Runs
import BrightS.Proofs.Dbuffer
import BrightS.Proofs.Drawing

namespace BrightS

open Raster Runs Defined

/-! ### Calls on the screen are defined -/

/-- The rows that the buffered function counts are `int`s; it counts those of an image without columns
as well. -/
def DrawCall.RowsFit (fb : FbInfo) : DrawCall → Prop
  | .blit buffer x y _ height _ =>
      buffer.isSome = true → fb.screen.Has x y → 0 < height → IsInt (y + height - 1)
  | _ => True

/-- What the buffered function writes to an active buffer, unless the call is undefined. -/
def DrawCall.dbufferWritesInt (fb : FbInfo) (db : Dbuffer) (clip : Clip) :
    DrawCall → Option (List (Dot Pixel))
  | .pixel x y color => dbufferDrawPixelInt fb db clip x y color
  | .hline x y width color => dbufferDrawHlineInt fb db x y width color
  | .vline .. => some []
  | .rect x y width height color => dbufferDrawRectInt fb db x y width height color
  | .fillRect x y width height color => dbufferFillRectInt fb db clip x y width height color
  | .blit buffer x y width height pitch => dbufferBlitInt db buffer x y width height pitch
  | .line x0 y0 x1 y1 color => dbufferDrawLineInt fb db x0 y0 x1 y1 color
  | .circle cx cy radius color => dbufferDrawCircleInt fb db cx cy radius color

section DefinedCalls

variable {fb : FbInfo} {db : Dbuffer} {clip : Clip} {color : Color} {pixel : Pixel}
  {x y width height pitch x0 y0 x1 y1 cx cy radius : Int} {points : List (Int × Int)}
  {buffer : Option (Int → Pixel)} {call : DrawCall}

theorem FbInfo.Mode.intSized (h : fb.Mode) : fb.IntSized := by
  obtain ⟨-, -, htall, hwide, -⟩ := h.bounds
  exact ⟨hwide, htall⟩

theorem circlePointsInt_screen (hmode : fb.Mode) (hfits : RadiusFits radius)
    (hon : 0 < radius → fb.screen.Has (cx - radius) (cy - radius) ∧
      fb.screen.Has (cx + radius) (cy + radius)) :
    circlePointsInt cx cy radius = some (circlePoints cx cy radius) := by
  by_cases hpos : 0 < radius
  · obtain ⟨hlt, hleft, hright, htop, hbottom⟩ := square_ints hmode.intSized (hon hpos).1 (hon hpos).2
    exact (circlePointsInt_defined hpos hlt hleft hright htop hbottom).1 hfits
  · unfold circlePointsInt circlePoints
    rw [if_pos (not_lt.mp hpos), if_pos (not_lt.mp hpos)]

/-- **On the screen, a call whose sums fit is defined.** -/
theorem fbWritesInt_screen (hmode : fb.Mode) (hints : call.Ints) (hon : call.OnScreen fb)
    (hsums : call.SumsFit fb clip) :
    call.fbWritesInt fb clip = some (call.fbWrites fb clip) := by
  have hsize := hmode.intSized
  cases call with
  | pixel x y color => exact (fbDrawPixelInt_defined hsize hints.1 hints.2).1 hsums
  | hline x y width color => exact (fbDrawHlineInt_defined hsize hints.1 hints.2.1 hints.2.2).1 hsums
  | vline x y height color => exact (fbDrawVlineInt_defined hsize hints.1 hints.2.1 hints.2.2).1 hsums
  | rect x y width height color =>
      obtain ⟨hx, hy, hwidth, hheight⟩ := hints
      exact (fbDrawRectInt_defined hsize hx hy hwidth hheight).1 hsums
  | fillRect x y width height color =>
      obtain ⟨-, -, hwidth, hheight⟩ := hints
      exact (fbFillRectInt_defined hwidth hheight).1 hsums
  | blit buffer x y width height pitch =>
      obtain ⟨hx, hy, hwidth, hheight, -⟩ := hints
      exact (fbBlitInt_defined hsize hx hy hwidth hheight).1 hsums
  | line x0 y0 x1 y1 color =>
      dsimp only [DrawCall.fbWritesInt, fbDrawLineInt]
      rw [linePointsInt_screen hsize hon.1 hon.2]
      rfl
  | circle cx cy radius color =>
      dsimp only [DrawCall.fbWritesInt, fbDrawCircleInt]
      rw [circlePointsInt_screen hmode hsums hon]
      rfl

/-- The offsets of pixels on the screen are `int`s. -/
theorem dbufferSetPixelsInt_screen (hdb : db.Matches fb) (hmode : fb.Mode)
    (hon : ∀ p ∈ points, fb.screen.Has p.1 p.2) :
    dbufferSetPixelsInt db pixel points =
      some (points.map fun p => dbufferSetPixelFast db pixel p.1 p.2) := by
  obtain ⟨-, -, -, -, hwords⟩ := hmode.bounds
  have hints : ∀ v ∈ points.flatMap fun p => [p.2 * db.pitch.tdiv 4, p.2 * db.pitch.tdiv 4 + p.1],
      IsInt v := by
    intro v hv
    obtain ⟨p, hp, hv⟩ := List.mem_flatMap.mp hv
    obtain ⟨hrow, hcell, hlt⟩ := hmode.cell_bounds (hon p hp)
    have hcol := (screen_has.mp (hon p hp)).1
    rw [(hdb.stride hmode).1] at hv
    unfold FbInfo.cell at hcell hlt
    simp only [List.mem_cons, List.not_mem_nil, or_false] at hv
    unfold IsInt
    omega
  unfold dbufferSetPixelsInt
  rw [(intResults_defined _).1 hints]
  rfl

theorem dbufferDrawLineInt_screen (hdb : db.Matches fb) (hmode : fb.Mode)
    (hfirst : fb.screen.Has x0 y0) (hlast : fb.screen.Has x1 y1) :
    dbufferDrawLineInt fb db x0 y0 x1 y1 color =
      some (dbufferDrawLine fb db x0 y0 x1 y1 color) := by
  unfold dbufferDrawLineInt
  rw [linePointsInt_screen hmode.intSized hfirst hlast]
  refine dbufferSetPixelsInt_screen hdb hmode fun p hp => ?_
  obtain ⟨hx, hy⟩ := (linePoints_box x0 y0 x1 y1).1 p hp
  exact hfirst.between hlast hx hy

theorem dbufferDrawPixelInt_screen (hdb : db.Matches fb) (hmode : fb.Mode)
    (hon : fb.screen.Has x y) (hsums : clip.PointSums x y) :
    dbufferDrawPixelInt fb db clip x y color = some (dbufferDrawPixel fb db clip x y color) := by
  obtain ⟨-, -, htall, hwide, -⟩ := hmode.bounds
  obtain ⟨h₁, h₂, h₃, h₄⟩ := screen_has.mp hon
  have hin : ¬ ((fb.width : Int) ≤ x ∨ (fb.height : Int) ≤ y) := by omega
  have hset : dbufferSetPixelsInt db (colorToPixelFast fb color) [(x, y)] = some _ :=
    dbufferSetPixelsInt_screen hdb hmode fun p hp => by rw [List.mem_singleton.mp hp]; exact hon
  unfold dbufferDrawPixelInt dbufferDrawPixel
  rw [(hdb.unsigned hmode).1, (hdb.unsigned hmode).2, toUint32_eq h₁ (by omega),
    toUint32_eq h₃ (by omega), if_neg hin, if_neg hin, (clipPointInt_defined clip x y).1 hsums,
    clipped_point]
  dsimp only [bind, Option.bind]
  split_ifs
  · exact hset
  · rfl

theorem dbufferDrawHlineInt_screen (hdb : db.Matches fb) (hmode : fb.Mode) (hx : IsInt x)
    (hwidth : IsInt width) (hon : Area.Inside ⟨x, y, width, 1⟩ fb.screen) :
    dbufferDrawHlineInt fb db x y width color = some (dbufferDrawHline fb db x y width color) := by
  unfold dbufferDrawHlineInt dbufferDrawHline
  by_cases hout : toUint32 db.height ≤ toUint32 y ∨ width ≤ 0
  · rw [if_pos hout, if_pos hout]
  · rw [if_neg hout, if_neg hout]
    obtain ⟨-, -, -, hwide, -⟩ := hmode.bounds
    have hpos := not_le.mp (not_or.mp hout).2
    obtain ⟨h₁, h₂, -, -⟩ := screen_has.mp
      (hon x y ⟨le_refl x, by dsimp only; omega, le_refl y, by dsimp only; omega⟩)
    have hrest : IsInt (db.width - max x 0) := by
      rw [hdb.width]
      exact ⟨by omega, by omega⟩
    rw [(screenSpanInt_defined (f := fun cx => db.width - cx) hx hwidth hpos
      (intResult_of_isInt hrest)).1 trivial]
    dsimp only [bind, Option.bind]
    cases screenSpan (fun cx => db.width - cx) x width <;> rfl

theorem dbufferFillRectInt_screen (hmode : fb.Mode) (hwidth : IsInt width) (hheight : IsInt height)
    (hon : Area.Inside ⟨x, y, width, height⟩ fb.screen)
    (hsums : 0 < width → 0 < height → clip.SumsFit ⟨x, y, width, height⟩) :
    dbufferFillRectInt fb db clip x y width height color =
      some (dbufferFillRect fb db clip x y width height color) := by
  unfold dbufferFillRectInt dbufferFillRect
  by_cases hempty : width ≤ 0 ∨ height ≤ 0
  · rw [if_pos hempty, if_pos hempty]
  · rw [if_neg hempty, if_neg hempty]
    obtain ⟨hw, hh⟩ := not_or.mp hempty
    have hclip := (applyClipRectInt_defined (r := ⟨x, y, width, height⟩) hwidth hheight).1
      (hsums (not_le.mp hw) (not_le.mp hh))
    rw [hclip]
    dsimp only [bind, Option.bind]
    cases hleft : applyClipRect clip ⟨x, y, width, height⟩ with
    | none => rfl
    | some r =>
        obtain ⟨-, -, htall, -, -⟩ := hmode.bounds
        obtain ⟨hrw, hrh⟩ := applyClipRect_pos hleft (not_le.mp hw) (not_le.mp hh)
        have hin : r.Inside fb.screen :=
          fun px py hp => hon px py ((applyClipRect_has hleft).mp hp).1
        obtain ⟨hfirst, hlast⟩ := (Area.corners_iff hrw hrh).mp hin
        obtain ⟨-, -, h₃, h₄⟩ := screen_has.mp hfirst
        obtain ⟨-, -, k₃, k₄⟩ := screen_has.mp hlast
        have hrows : rowsInt r.y r.height = some () :=
          (rowsInt_defined ⟨by omega, by omega⟩).1 fun _ => ⟨by omega, by omega⟩
        dsimp only
        rw [hrows]

theorem dbufferDrawRectInt_screen (hdb : db.Matches fb) (hmode : fb.Mode)
    (hon : Area.Inside ⟨x, y, width, height⟩ fb.screen) :
    dbufferDrawRectInt fb db x y width height color =
      some (dbufferDrawRect fb db x y width height color) := by
  unfold dbufferDrawRectInt dbufferDrawRect
  by_cases hempty : width ≤ 0 ∨ height ≤ 0
  · rw [if_pos hempty, if_pos hempty]
  · rw [if_neg hempty, if_neg hempty]
    obtain ⟨-, -, htall, hwide, -⟩ := hmode.bounds
    obtain ⟨hw, hh⟩ := not_or.mp hempty
    obtain ⟨hfirst, hlast⟩ := (Area.corners_iff (r := ⟨x, y, width, height⟩) (not_le.mp hw)
      (not_le.mp hh)).mp hon
    dsimp only at hfirst hlast
    obtain ⟨h₁, h₂, h₃, h₄⟩ := screen_has.mp hfirst
    obtain ⟨k₁, k₂, k₃, k₄⟩ := screen_has.mp hlast
    have hright : IsInt (x + width) := ⟨by omega, by omega⟩
    have hbottom : IsInt (y + height) := ⟨by omega, by omega⟩
    have hcorner : fb.screen.Has (x + width - 1) y := screen_has.mpr ⟨k₁, k₂, h₃, h₄⟩
    have hcorner' : fb.screen.Has x (y + height - 1) := screen_has.mpr ⟨h₁, h₂, k₃, k₄⟩
    rw [(lastInt_defined (a := x) ⟨by omega, by omega⟩ (not_le.mp hw)).1 hright,
      dbufferDrawLineInt_screen hdb hmode hfirst hcorner,
      dbufferDrawLineInt_screen hdb hmode hcorner' hlast,
      dbufferDrawLineInt_screen hdb hmode hfirst hcorner',
      dbufferDrawLineInt_screen hdb hmode hcorner hlast]
    dsimp only [bind, Option.bind]
    rw [(lastInt_defined (a := y) ⟨by omega, by omega⟩ (not_le.mp hh)).1 hbottom]

theorem dbufferBlitInt_screen (hdb : db.Matches fb) (hmode : fb.Mode) (hx : IsInt x) (hy : IsInt y)
    (hrows : buffer.isSome = true → fb.screen.Has x y → 0 < height → IsInt (y + height - 1)) :
    dbufferBlitInt db buffer x y width height pitch =
      some (dbufferBlit db buffer x y width height pitch) := by
  unfold dbufferBlitInt dbufferBlit
  cases buffer with
  | none => rfl
  | some src =>
      dsimp only
      rw [(hdb.unsigned hmode).1, (hdb.unsigned hmode).2]
      by_cases hout : (fb.width : Int) ≤ toUint32 x ∨ (fb.height : Int) ≤ toUint32 y
      · rw [if_pos hout, if_pos hout]
      · rw [if_neg hout, if_neg hout]
        obtain ⟨hwide, htall⟩ := hmode.intSized
        obtain ⟨hcol, hrow⟩ := not_or.mp hout
        have hx' := lt_of_toUint32 hx.1 (hx.2.trans (by decide)) (by omega) hcol
        have hy' := lt_of_toUint32 hy.1 (hy.2.trans (by decide)) (by omega) hrow
        have hon : fb.screen.Has x y := screen_has.mpr ⟨hx'.1, hx'.2, hy'.1, hy'.2⟩
        rw [(rowsInt_defined hy).1 (hrows rfl hon)]
        rfl

/-- **On the screen, the buffered function is defined where the other is.** -/
theorem dbufferWritesInt_screen (hdb : db.Matches fb) (hmode : fb.Mode)
    (hinit : fb.initialized = true) (hints : call.Ints) (hon : call.OnScreen fb)
    (hsums : call.SumsFit fb clip) (hrows : call.RowsFit fb) :
    call.dbufferWritesInt fb db clip = some (call.dbufferWrites fb db clip) := by
  cases call with
  | pixel x y color => exact dbufferDrawPixelInt_screen hdb hmode hon (hsums hinit hon)
  | hline x y width color => exact dbufferDrawHlineInt_screen hdb hmode hints.1 hints.2.2 hon
  | vline x y height color => rfl
  | rect x y width height color => exact dbufferDrawRectInt_screen hdb hmode hon
  | fillRect x y width height color =>
      exact dbufferFillRectInt_screen hmode hints.2.2.1 hints.2.2.2 hon (hsums hinit)
  | blit buffer x y width height pitch =>
      exact dbufferBlitInt_screen hdb hmode hints.1 hints.2.1 hrows
  | line x0 y0 x1 y1 color => exact dbufferDrawLineInt_screen hdb hmode hon.1 hon.2
  | circle cx cy radius color =>
      dsimp only [DrawCall.dbufferWritesInt, DrawCall.dbufferWrites]
      unfold dbufferDrawCircleInt dbufferDrawCircle
      rw [circlePointsInt_screen hmode hsums hon]
      refine dbufferSetPixelsInt_screen hdb hmode fun p hp => ?_
      exact circlePoints_screen hon hp

end DefinedCalls

/-! ### Sequences of calls -/

/-- An active buffer is laid out like the framebuffer and holds what it shows. -/
structure Display.InSync (d : Display) : Prop where
  initialized : d.fb.initialized = true
  hasBuffer : d.dbuffer.hasBuffer = true
  layout : d.dbuffer.Matches d.fb
  same : ∀ i, 0 ≤ i → i < d.fb.stride * d.fb.height → d.dbuffer.pixels i = d.shown i

/-- The call goes to the screen when the buffer is not active, or draws nothing. -/
def DrawCall.FallsBack : DrawCall → Prop
  | .pixel .. | .hline .. | .fillRect .. | .blit .. => True
  | .rect _ _ width height _ => width ≤ 0 ∨ height ≤ 0
  | .circle _ _ radius _ => radius ≤ 0
  | .vline .. | .line .. => False

/-- What the buffered function needs to do what the other does. -/
def DisplayCall.Transparent (d : Display) : DisplayCall → Prop
  | .clipSet .. | .clipDisable => True
  | .draw call => call.Ints ∧ call.OnScreen d.fb ∧ call.SumsFit d.fb d.clip ∧
      if d.dbuffer.active = true then call.Unclipped d.clip ∧ call.RowsFit d.fb else call.FallsBack

/-- A call that is undefined makes no step. -/
def DirectStep (d : Display) (call : DisplayCall) (d' : Display) : Prop := d.direct call = some d'

def BufferedStep (d : Display) (call : DisplayCall) (d' : Display) : Prop :=
  d.buffered call = some d'

/-- The buffered run `t` is behind the direct run `s` only in what has not been copied yet. -/
structure RunsBehind (s t : Display) : Prop where
  fb : t.fb = s.fb
  clip : t.clip = s.clip
  active : t.dbuffer.active = s.dbuffer.active
  idle : t.dbuffer.active = false → t.shown = s.shown
  layout : t.dbuffer.active = true →
    t.fb.initialized = true ∧ t.dbuffer.hasBuffer = true ∧ t.dbuffer.Matches t.fb
  drawn : t.dbuffer.active = true →
    ∀ i, 0 ≤ i → i < s.fb.stride * s.fb.height → t.dbuffer.pixels i = s.shown i
  kept : t.dbuffer.active = true →
    ∀ i, ¬ (0 ≤ i ∧ i < s.fb.stride * s.fb.height) → t.shown i = s.shown i

section Sequences

variable {d s t : Display} {call : DrawCall}

theorem Display.InSync.behind (h : d.dbuffer.active = true → d.InSync) : RunsBehind d d where
  fb := rfl
  clip := rfl
  active := rfl
  idle _ := rfl
  layout hactive := ⟨(h hactive).initialized, (h hactive).hasBuffer, (h hactive).layout⟩
  drawn hactive := (h hactive).same
  kept _ _ _ := rfl

/-- A buffer that was allocated with the contents of the screen. -/
theorem dbufferInit_inSync {pixels : Int → Pixel} (hmode : d.fb.Mode)
    (hinit : d.fb.initialized = true) (hnone : d.dbuffer.hasBuffer = false)
    (hsame : ∀ i, 0 ≤ i → i < d.fb.stride * d.fb.height → pixels i = d.shown i) :
    (dbufferInit (some pixels) d).2 = 0 ∧ (dbufferInit (some pixels) d).1.fb = d.fb ∧
      (dbufferInit (some pixels) d).1.InSync := by
  obtain ⟨-, hpitch, htall, hwide, -⟩ := hmode.bounds
  unfold dbufferInit
  rw [hinit, hnone]
  refine ⟨rfl, rfl, hinit, rfl, ⟨?_, ?_, ?_⟩, hsame⟩
  · exact toInt_eq ⟨by omega, by omega⟩
  · exact toInt_eq ⟨by omega, by omega⟩
  · exact toInt_eq ⟨by omega, by omega⟩

theorem transparent_of_active (hactive : d.dbuffer.active = true) (hints : call.Ints)
    (hon : call.OnScreen d.fb) (hsums : call.SumsFit d.fb d.clip) (hclip : call.Unclipped d.clip)
    (hrows : call.RowsFit d.fb) : DisplayCall.Transparent d (.draw call) := by
  refine ⟨hints, hon, hsums, ?_⟩
  rw [if_pos hactive]
  exact ⟨hclip, hrows⟩

theorem directStep_of_writes {dots : List (Dot Pixel)}
    (hdots : call.fbWritesInt d.fb d.clip = some dots) :
    DirectStep d (.draw call) (d.toScreen dots) :=
  congrArg (Option.map d.toScreen) hdots

/-- A direct call that meets the condition is defined. -/
theorem directStep_screen (hmode : d.fb.Mode) (hcall : DisplayCall.Transparent d (.draw call)) :
    DirectStep d (.draw call) (d.toScreen (call.fbWrites d.fb d.clip)) := by
  obtain ⟨hints, hon, hsums, -⟩ := hcall
  exact directStep_of_writes (fbWritesInt_screen hmode hints hon hsums)

/-- The buffered function of an active buffer. -/
theorem dbufferDraw_active {dots : List (Dot Pixel)} (hactive : d.dbuffer.active = true)
    (hdots : call.dbufferWritesInt d.fb d.dbuffer d.clip = some dots) :
    d.dbufferDraw call = some (d.toBuffer dots) := by
  have hnot : ¬ d.dbuffer.active = false := by
    rw [hactive]
    exact Bool.false_ne_true.symm
  have hmap : (call.dbufferWritesInt d.fb d.dbuffer d.clip).map d.toBuffer =
      some (d.toBuffer dots) := by
    rw [hdots]
    rfl
  cases call with
  | pixel x y color => exact (if_neg hnot).trans hmap
  | hline x y width color => exact (if_neg hnot).trans hmap
  | vline x y height color => exact hmap
  | rect x y width height color => exact hmap
  | fillRect x y width height color => exact (if_neg hnot).trans hmap
  | blit buffer x y width height pitch => exact (if_neg hnot).trans hmap
  | line x0 y0 x1 y1 color => exact hmap
  | circle cx cy radius color => exact hmap

/-- Without an active buffer the calls that fall back draw what the others do. -/
theorem dbufferDraw_idle (hactive : d.dbuffer.active = false) (hback : call.FallsBack)
    (hdots : call.fbWritesInt d.fb d.clip = some (call.fbWrites d.fb d.clip)) :
    ∃ d', d.dbufferDraw call = some d' ∧ d'.fb = d.fb ∧ d'.clip = d.clip ∧
      d'.dbuffer.active = false ∧ d'.shown = paint d.shown (call.fbWrites d.fb d.clip) := by
  have hdraw : d.fbDraw call = some (d.toScreen (call.fbWrites d.fb d.clip)) := by
    unfold Display.fbDraw
    rw [hdots]
    rfl
  cases call with
  | pixel x y color => exact ⟨_, (if_pos hactive).trans hdraw, rfl, rfl, hactive, rfl⟩
  | hline x y width color => exact ⟨_, (if_pos hactive).trans hdraw, rfl, rfl, hactive, rfl⟩
  | vline x y height color => exact hback.elim
  | rect x y width height color =>
      have hnone : fbDrawRect d.fb d.clip x y width height color = [] := if_pos hback
      have hbuffered : dbufferDrawRectInt d.fb d.dbuffer x y width height color = some [] :=
        if_pos hback
      refine ⟨d.toBuffer [], ?_, rfl, rfl, hactive, ?_⟩
      · rw [Display.dbufferDraw, hbuffered]
        rfl
      · rw [DrawCall.fbWrites, hnone]
        rfl
  | fillRect x y width height color => exact ⟨_, (if_pos hactive).trans hdraw, rfl, rfl, hactive, rfl⟩
  | blit buffer x y width height pitch =>
      exact ⟨_, (if_pos hactive).trans hdraw, rfl, rfl, hactive, rfl⟩
  | line x0 y0 x1 y1 color => exact hback.elim
  | circle cx cy radius color =>
      have hnone : circlePoints cx cy radius = [] := if_pos hback
      have hpoints : circlePointsInt cx cy radius = some [] := if_pos hback
      refine ⟨d.toBuffer [], ?_, rfl, rfl, hactive, ?_⟩
      · rw [Display.dbufferDraw, dbufferDrawCircleInt, hpoints]
        rfl
      · rw [DrawCall.fbWrites, fbDrawCircle, hnone]
        rfl

/-- A call of both keeps the one run behind the other. -/
theorem RunsBehind.draw (h : RunsBehind s t) (hmode : s.fb.Mode)
    (hcall : (DisplayCall.draw call).Transparent s) :
    ∃ t', t.buffered (.draw call) = some t' ∧
      RunsBehind (s.toScreen (call.fbWrites s.fb s.clip)) t' := by
  obtain ⟨hints, hon, hsums, hcond⟩ := hcall
  by_cases hactive : t.dbuffer.active = true
  · obtain ⟨hinit, hbuffer, hlayout⟩ := h.layout hactive
    rw [if_pos (h.active.symm.trans hactive)] at hcond
    obtain ⟨hclip, hrows⟩ := hcond
    have hlayout' : t.dbuffer.Matches s.fb := h.fb ▸ hlayout
    have hinit' : s.fb.initialized = true := h.fb ▸ hinit
    have hsame := dbufferWrites_same hlayout' hmode hinit' hon hclip
    have hdots := dbufferWritesInt_screen hlayout' hmode hinit' hints hon hsums hrows
    rw [← h.fb, ← h.clip] at hdots
    refine ⟨_, dbufferDraw_active hactive hdots, h.fb, h.clip, h.active,
      fun hidle => ?_, fun _ => ⟨hinit, hbuffer, hlayout.width, hlayout.height, hlayout.pitch⟩,
      fun _ i hlo hhi => ?_, fun _ i hout => ?_⟩
    · exact absurd (hactive.symm.trans hidle) Bool.false_ne_true.symm
    · -- In the words of the screen the same dots are painted over the same contents.
      rw [h.fb, h.clip]
      refine (congrFun (hsame.paints _).symm i).trans ?_
      exact paint_congr (h.drawn hactive i hlo hhi)
    · refine (h.kept hactive i hout).trans (paint_other fun d hd heq => hout ?_).symm
      rw [← heq, hsame.atCells d hd]
      exact (hmode.cell_bounds (hsame.onScreen d.x d.y ⟨d, hd, rfl, rfl⟩)).2
  · have hidle := eq_false_of_ne_true hactive
    rw [if_neg fun hact => hactive (h.active.trans hact)] at hcond
    have hdots := fbWritesInt_screen hmode hints hon hsums
    rw [← h.fb, ← h.clip] at hdots
    obtain ⟨t', hdraw, hfb, hclip, hidle', hshown⟩ := dbufferDraw_idle hidle hcond hdots
    refine ⟨t', hdraw, hfb.trans h.fb, hclip.trans h.clip, ?_, fun _ => ?_, fun hact => ?_,
      fun hact => ?_, fun hact => ?_⟩
    · exact (hidle'.trans hidle.symm).trans h.active
    · rw [hshown, h.fb, h.clip, h.idle hidle]
      rfl
    all_goals exact absurd (hidle'.symm.trans hact) Bool.false_ne_true

theorem RunsBehind.clip_set (h : RunsBehind s t) (c : Clip) :
    RunsBehind { s with clip := c } { t with clip := c } :=
  ⟨h.fb, rfl, h.active, h.idle, h.layout, h.drawn, h.kept⟩

/-- The flip copies what was missing. -/
theorem RunsBehind.flip (h : RunsBehind s t) (hmode : s.fb.Mode) :
    (dbufferFlip t).shown = s.shown := by
  unfold dbufferFlip
  by_cases hactive : t.dbuffer.active = true
  · obtain ⟨-, hbuffer, hlayout⟩ := h.layout hactive
    rw [h.fb] at hlayout
    rw [hactive, hbuffer, if_neg (by decide)]
    funext i
    dsimp only
    rw [(hlayout.stride hmode).2.2]
    by_cases hin : 0 ≤ i ∧ i < s.fb.stride * s.fb.height
    · rw [if_pos hin]
      exact h.drawn hactive i hin.1 hin.2
    · rw [if_neg hin]
      exact h.kept hactive i hin
  · have hidle := eq_false_of_ne_true hactive
    rw [if_pos (.inl hidle)]
    exact h.idle hidle

/-- One call of the direct run, and the same one of the buffered run. -/
theorem RunsBehind.step (h : RunsBehind s t) (hmode : s.fb.Mode) {call : DisplayCall} {s' : Display}
    (hcall : call.Transparent s) (hstep : DirectStep s call s') :
    ∃ t', BufferedStep t call t' ∧ RunsBehind s' t' ∧ s'.fb.Mode := by
  unfold DirectStep at hstep
  cases call with
  | clipSet x y width height =>
      obtain rfl := Option.some.inj hstep
      exact ⟨_, rfl, h.clip_set _, hmode⟩
  | clipDisable =>
      obtain rfl := Option.some.inj hstep
      refine ⟨_, rfl, ?_, hmode⟩
      rw [h.clip]
      exact h.clip_set _
  | draw call =>
      obtain rfl := Option.some.inj ((directStep_screen hmode hcall).symm.trans hstep)
      obtain ⟨t', hdraw, hbehind⟩ := h.draw hmode hcall
      exact ⟨t', hdraw, hbehind, hmode⟩

theorem RunsBehind.run {calls : List DisplayCall} (h : RunsBehind d t) (hmode : d.fb.Mode)
    (hdirect : Executes (Guarded (fun d call => DisplayCall.Transparent d call) DirectStep) d
      calls s) :
    ∃ t', Executes BufferedStep t calls t' ∧ RunsBehind s t' ∧ s.fb.Mode := by
  induction hdirect generalizing t with
  | nil s => exact ⟨t, .nil t, h, hmode⟩
  | cons hstep hrest ih =>
      obtain ⟨t', hbuffered, h', hmode'⟩ := h.step hmode hstep.1 hstep.2
      obtain ⟨final, hrun, hend⟩ := ih h' hmode'
      exact ⟨final, .cons hbuffered hrun, hend⟩

end Sequences

/-- **As long as the sums fit and the clip does not cut a row, an outline or an image, every call is
defined, and drawing to the buffer and copying it leaves the screen as direct drawing does.** -/
theorem dbuffer_transparent {d s : Display} {calls : List DisplayCall} (hmode : d.fb.Mode)
    (hsync : d.dbuffer.active = true → d.InSync)
    (hdirect : Executes (Guarded (fun d call => DisplayCall.Transparent d call) DirectStep) d
      calls s) :
    (∃ t, Executes BufferedStep d calls t ∧ (dbufferFlip t).shown = s.shown) ∧
      ∀ call, DisplayCall.Transparent s call → ∃ s', DirectStep s call s' := by
  obtain ⟨t, hbuffered, hbehind, hmode'⟩ := (Display.InSync.behind hsync).run hmode hdirect
  refine ⟨⟨t, hbuffered, hbehind.flip hmode'⟩, fun call hcall => ?_⟩
  cases call with
  | clipSet x y width height => exact ⟨_, rfl⟩
  | clipDisable => exact ⟨_, rfl⟩
  | draw call => exact ⟨_, directStep_screen hmode' hcall⟩

/-- The small screen, black, with a buffer that is black as well. -/
def smallDisplay : Display :=
  (dbufferInit (some fun _ => 0)
    { fb := smallFb, clip := ⟨0, 0, 0, 0, false⟩, shown := fun _ => 0
      dbuffer := ⟨false, fun _ => 0, 0, 0, 0, false⟩ }).1

theorem smallFb_mode : smallFb.Mode := ⟨by decide, by decide, by decide, by decide⟩

theorem smallDisplay_inSync : smallDisplay.InSync :=
  (dbufferInit_inSync smallFb_mode rfl rfl fun _ _ _ => rfl).2.2

/-- A red square, a clip, a green row inside the clip, and a blue line across it. -/
theorem dbuffer_transparent_drawn :
    ∃ s t, Executes (Guarded (fun d call => DisplayCall.Transparent d call) DirectStep) smallDisplay
        [.draw (.fillRect 0 0 2 2 ⟨255, 0, 0⟩), .clipSet 0 0 4 1,
          .draw (.hline 0 0 3 ⟨0, 255, 0⟩), .draw (.line 0 0 3 3 ⟨0, 0, 255⟩)] s ∧
      Executes BufferedStep smallDisplay
        [.draw (.fillRect 0 0 2 2 ⟨255, 0, 0⟩), .clipSet 0 0 4 1,
          .draw (.hline 0 0 3 ⟨0, 255, 0⟩), .draw (.line 0 0 3 3 ⟨0, 0, 255⟩)] t ∧
      (dbufferFlip t).shown = s.shown ∧
      (s.shown 4, s.shown 2, s.shown 15, s.shown 8) = (0xFF0000, 0x00FF00, 0x0000FF, 0) := by
  have hsquare : Area.Inside ⟨0, 0, 2, 2⟩ smallFb.screen :=
    (Area.corners_iff (by decide) (by decide)).mpr (by decide)
  have hrow : Area.Inside ⟨0, 0, 3, 1⟩ smallFb.screen :=
    (Area.corners_iff (by decide) (by decide)).mpr (by decide)
  have hshown : Area.Inside ⟨0, 0, 3, 1⟩ (Clip.area ⟨0, 0, 4, 1, true⟩) :=
    (Area.corners_iff (by decide) (by decide)).mpr (by decide)
  have hsums : ∀ {d : Display} {call : DrawCall}, call.Ints → call.OnScreen d.fb →
      d.dbuffer.active = true → d.fb.Mode → call.SumsFit d.fb d.clip → call.Unclipped d.clip →
      call.RowsFit d.fb → Guarded (fun d call => DisplayCall.Transparent d call) DirectStep d
        (.draw call) (d.toScreen (call.fbWrites d.fb d.clip)) :=
    fun hints hon hactive hmode hsums hclip hrows =>
      have hcall := transparent_of_active hactive hints hon hsums hclip hrows
      ⟨hcall, directStep_screen hmode hcall⟩
  have hdirect : Executes (Guarded (fun d call => DisplayCall.Transparent d call) DirectStep)
      smallDisplay [.draw (.fillRect 0 0 2 2 ⟨255, 0, 0⟩), .clipSet 0 0 4 1,
        .draw (.hline 0 0 3 ⟨0, 255, 0⟩), .draw (.line 0 0 3 3 ⟨0, 0, 255⟩)] _ :=
    .cons (hsums (by decide) hsquare rfl smallFb_mode (fun _ _ _ =>
        ⟨fun h => absurd h (by decide), fun h => absurd h (by decide)⟩) trivial trivial)
      (.cons ⟨trivial, rfl⟩ (.cons (hsums (by decide) hrow rfl smallFb_mode
        (fun _ _ _ => ⟨by decide, by decide⟩) (fun px py hp _ => hshown px py hp) trivial)
      (.cons (hsums (by decide) ⟨by decide, by decide⟩ rfl smallFb_mode trivial trivial trivial)
        (.nil _))))
  obtain ⟨⟨t, hbuffered, hsame⟩, -⟩ :=
    dbuffer_transparent smallFb_mode (fun _ => smallDisplay_inSync) hdirect
  exact ⟨_, t, hdirect, hbuffered, hsame, by decide +kernel⟩

/-- The arguments of the call are inside the screen. -/
def DisplayCall.OnScreen (d : Display) : DisplayCall → Prop
  | .clipSet .. | .clipDisable => True
  | .draw call => call.OnScreen d.fb

/-- A row is cut by the clip on the screen and not in the buffer. -/
theorem dbuffer_row_unclipped :
    ¬ ∀ (d s t : Display) (calls : List DisplayCall), d.fb.Mode → d.InSync →
      Executes (Guarded (fun d call => DisplayCall.OnScreen d call) DirectStep) d calls s →
      Executes BufferedStep d calls t → (dbufferFlip t).shown = s.shown := by
  intro hall
  have hrow : Area.Inside ⟨0, 0, 4, 1⟩ smallFb.screen :=
    (Area.corners_iff (by decide) (by decide)).mpr (by decide)
  obtain ⟨hwrites, hbuffered⟩ :
      (DrawCall.hline 0 0 4 ⟨255, 0, 0⟩).fbWritesInt smallFb ⟨0, 0, 2, 2, true⟩ =
          some (fbDrawHline smallFb ⟨0, 0, 2, 2, true⟩ 0 0 4 ⟨255, 0, 0⟩) ∧
        dbufferDrawHlineInt smallFb smallDisplay.dbuffer 0 0 4 ⟨255, 0, 0⟩ =
          some (dbufferDrawHline smallFb smallDisplay.dbuffer 0 0 4 ⟨255, 0, 0⟩) := by
    decide
  have hstep : BufferedStep { smallDisplay with clip := ⟨0, 0, 2, 2, true⟩ }
      (.draw (.hline 0 0 4 ⟨255, 0, 0⟩)) _ :=
    @dbufferDraw_active { smallDisplay with clip := ⟨0, 0, 2, 2, true⟩ }
      (.hline 0 0 4 ⟨255, 0, 0⟩) _ rfl hbuffered
  have hsame := hall smallDisplay _ _ [.clipSet 0 0 2 2, .draw (.hline 0 0 4 ⟨255, 0, 0⟩)]
    smallFb_mode smallDisplay_inSync
    (.cons ⟨trivial, rfl⟩ (.cons ⟨hrow, directStep_of_writes hwrites⟩ (.nil _)))
    (.cons rfl (.cons hstep (.nil _)))
  exact absurd (congrFun hsame 2) (by decide +kernel)

end BrightS
