/-
The primitives of `drivers/fb.c` in the `int`s of the source, and the calls of the module.

Each function is the one of the same name in exact arithmetic, with every operation on `int` that
it comes to: an operation whose result is not an `int` is undefined, and so is the call then
(`none`).  The clip is where that happens with ordinary arguments.  `brights_clip_set` takes any
four `int`s, and their sums are only computed by the primitives, each of which computes those that
it gets to.  What is `uint32_t` in the source wraps, as before.
-/
import BrightS.Kernel.Lines

namespace BrightS

open Raster

/-- Operations on `int`, given by their exact results, that are made one after the other. -/
def intResults (results : List Int) : Option Unit :=
  if ∀ v ∈ results, (intResult v).isSome then some () else none

/-! ### The clip

The edges of the clip and of the rectangle are sums.  A point is compared with one edge after the
other, so only the sums before the first comparison that fails are computed; a rectangle needs all
four.
-/

/-- `brights_clip_point`: an edge is computed when the comparisons before it hold. -/
def clipPointInt (clip : Clip) (x y : Int) : Option Bool :=
  if clip.enabled = false then
    some true
  else if x < clip.x then
    some false
  else do
    let right ← intResult (clip.x + clip.width)
    if right ≤ x ∨ y < clip.y then
      some false
    else do
      let bottom ← intResult (clip.y + clip.height)
      some (y < bottom)

/-- `if (b > a) w -= b - a`. -/
def cutInt (w a b : Int) : Option Int :=
  if a < b then do
    let cut ← intResult (b - a)
    intResult (w - cut)
  else
    some w

/-- `apply_clip_rect`. -/
def applyClipRectInt (clip : Clip) (r : Area) : Option (Option Area) :=
  if clip.enabled = false then
    some (some r)
  else do
    let cx2 ← intResult (clip.x + clip.width)
    let cy2 ← intResult (clip.y + clip.height)
    let tx2 ← intResult (r.x + r.width)
    let ty2 ← intResult (r.y + r.height)
    if tx2 ≤ clip.x ∨ ty2 ≤ clip.y ∨ cx2 ≤ r.x ∨ cy2 ≤ r.y then
      some none
    else do
      let w ← cutInt r.width r.x clip.x
      let x := if r.x < clip.x then clip.x else r.x
      let h ← cutInt r.height r.y clip.y
      let y := if r.y < clip.y then clip.y else r.y
      let w ← cutInt w cx2 tx2
      let h ← cutInt h cy2 ty2
      some (if 0 < w ∧ 0 < h then some ⟨x, y, w, h⟩ else none)

/-! ### Loops over pixels -/

/-- The part of `len` pixels from `pos` that is in `0..limit`; `maxLen` is what the source
computes for the length of the rest. -/
def screenSpanInt (maxLen : Int → Option Int) (pos len : Int) : Option (Option (Int × Int)) := do
  let n ← if pos < 0 then intResult (len + pos) else some len
  let c := if pos < 0 then 0 else pos
  let limit ← maxLen c
  let n := if limit < n then limit else n
  some (if n ≤ 0 then none else some (c, n))

/-- `cy + i` for each row of the area. -/
def rowsInt (y height : Int) : Option Unit :=
  intResults ((List.range height.toNat).map fun i : Nat => y + i)

/-- The loop of both circle functions: the coordinates of the eight points, the error and the steps
along the axes. -/
def circleLoopInt (cx cy x y d : Int) : Option (List (Int × Int)) :=
  if x ≤ y then do
    intResults [cx + x, cx - x, cy + y, cy - y, cx + y, cx - y, cy + x, cy - x]
    if d < 0 then do
      intResults [4 * x, 4 * x + 6, d + (4 * x + 6), x + 1]
      let rest ← circleLoopInt cx cy (x + 1) y (d + (4 * x + 6))
      some (circleOctants cx cy x y ++ rest)
    else do
      intResults [x - y, 4 * (x - y), 4 * (x - y) + 10, d + (4 * (x - y) + 10), x + 1, y - 1]
      let rest ← circleLoopInt cx cy (x + 1) (y - 1) (d + (4 * (x - y) + 10))
      some (circleOctants cx cy x y ++ rest)
  else
    some []
termination_by (y + 1 - x).toNat

/-- The points that both circle functions set; the error of the first round is computed before the
loop. -/
def circlePointsInt (cx cy radius : Int) : Option (List (Int × Int)) :=
  if radius ≤ 0 then
    some []
  else do
    intResults [2 * radius, 3 - 2 * radius]
    circleLoopInt cx cy 0 radius (3 - 2 * radius)

/-! ### The primitives

Each computes what the function in exact arithmetic computes, with the sums on the way.  What is
compared or stored as `uint32_t` does not fail.
-/

/-- `brights_fb_draw_pixel`.  The comparisons with the screen are those of `uint32_t`. -/
def fbDrawPixelInt (fb : FbInfo) (clip : Clip) (x y : Int) (color : Color) :
    Option (List (Dot Pixel)) :=
  if fb.initialized = false then
    some []
  else if (fb.width : Int) ≤ toUint32 x ∨ (fb.height : Int) ≤ toUint32 y then
    some []
  else do
    let shown ← clipPointInt clip x y
    some (if shown then [setPixelFast fb (colorToPixelFast fb color) x y] else [])

/-- `brights_fb_draw_hline`: the row is cut to the screen and then to the clip. -/
def fbDrawHlineInt (fb : FbInfo) (clip : Clip) (x y width : Int) (color : Color) :
    Option (List (Dot Pixel)) :=
  if fb.initialized = false then
    some []
  else if (fb.height : Int) ≤ toUint32 y ∨ width ≤ 0 then
    some []
  else do
    let span ← screenSpanInt (fun cx => some (toInt (fb.width - cx))) x width
    match span with
    | none => some []
    | some (cx, cw) => do
        let area ← applyClipRectInt clip ⟨cx, y, cw, 1⟩
        match area with
        | none => some []
        | some r => some (fillRow fb.stride (colorToPixelFast fb color) r.x y r.width)

/-- `brights_fb_draw_vline`, with the offset of the first pixel and the steps from it in `uint32_t`.
-/
def fbDrawVlineInt (fb : FbInfo) (clip : Clip) (x y height : Int) (color : Color) :
    Option (List (Dot Pixel)) :=
  if fb.initialized = false then
    some []
  else if (fb.width : Int) ≤ toUint32 x ∨ height ≤ 0 then
    some []
  else do
    let span ← screenSpanInt (fun cy => some (toInt (fb.height - cy))) y height
    match span with
    | none => some []
    | some (cy, ch) => do
        let area ← applyClipRectInt clip ⟨x, cy, 1, ch⟩
        match area with
        | none => some []
        | some r =>
            some ((List.range r.height.toNat).map fun i : Nat =>
              { x := x, y := r.y + i, cell := toUint32 (r.y * fb.stride + x + i * fb.stride)
                value := colorToPixelFast fb color })

/-- `brights_fb_draw_rect`: sums that a side needs are computed before that side. -/
def fbDrawRectInt (fb : FbInfo) (clip : Clip) (x y width height : Int) (color : Color) :
    Option (List (Dot Pixel)) :=
  if width ≤ 0 ∨ height ≤ 0 then
    some []
  else do
    let top ← fbDrawHlineInt fb clip x y width color
    let bottom ←
      (if 1 < height then do
        intResults [y + height, y + height - 1]
        fbDrawHlineInt fb clip x (y + height - 1) width color
      else some [])
    let sides ←
      (if 2 < height then do
        intResults [y + 1, height - 2]
        let left ← fbDrawVlineInt fb clip x (y + 1) (height - 2) color
        intResults [x + width, x + width - 1]
        let right ← fbDrawVlineInt fb clip (x + width - 1) (y + 1) (height - 2) color
        some (left ++ right)
      else some [])
    some (top ++ bottom ++ sides)

/-- `brights_fb_fill_rect`.  Only the clip is asked; the screen is not. -/
def fbFillRectInt (fb : FbInfo) (clip : Clip) (x y width height : Int) (color : Color) :
    Option (List (Dot Pixel)) :=
  if fb.initialized = false ∨ width ≤ 0 ∨ height ≤ 0 then
    some []
  else do
    let area ← applyClipRectInt clip ⟨x, y, width, height⟩
    match area with
    | none => some []
    | some r => some (fillRows fb (colorToPixelFast fb color) r)

/-- `brights_fb_blit`; the pitch of the source is taken as `uint32_t`. -/
def fbBlitInt (fb : FbInfo) (clip : Clip) (buffer : Option (Int → Pixel))
    (x y width height pitch : Int) : Option (List (Dot Pixel)) :=
  match buffer with
  | none => some []
  | some src =>
      if fb.initialized = false then
        some []
      else if (fb.width : Int) ≤ toUint32 x ∨ (fb.height : Int) ≤ toUint32 y then
        some []
      else do
        let area ← applyClipRectInt clip ⟨x, y, width, height⟩
        match area with
        | none => some []
        | some r => do
            let rowOffset ← intResult (r.x - x)
            rowsInt r.y r.height
            some (blitRows fb.stride (toUint32 pitch / 4) src rowOffset r)

/-- `brights_fb_draw_circle`. -/
def fbDrawCircleInt (fb : FbInfo) (cx cy radius : Int) (color : Color) :
    Option (List (Dot Pixel)) :=
  (circlePointsInt cx cy radius).map
    (List.map fun p => setPixelFast fb (colorToPixelFast fb color) p.1 p.2)

/-- The pixels that the `brights_fb_` function writes, unless the call is undefined. -/
def DrawCall.fbWritesInt (fb : FbInfo) (clip : Clip) : DrawCall → Option (List (Dot Pixel))
  | .pixel x y color => fbDrawPixelInt fb clip x y color
  | .hline x y width color => fbDrawHlineInt fb clip x y width color
  | .vline x y height color => fbDrawVlineInt fb clip x y height color
  | .rect x y width height color => fbDrawRectInt fb clip x y width height color
  | .fillRect x y width height color => fbFillRectInt fb clip x y width height color
  | .blit buffer x y width height pitch => fbBlitInt fb clip buffer x y width height pitch
  | .line x0 y0 x1 y1 color => fbDrawLineInt fb x0 y0 x1 y1 color
  | .circle cx cy radius color => fbDrawCircleInt fb cx cy radius color

/-! ### The double buffer

The same functions on the buffer, whose sides and pitch are `int`s.
-/

section Dbuffer

variable (fb : FbInfo) (db : Dbuffer) (clip : Clip)

/-- `dbuffer_set_pixel_fast` at each of the points; the pitch is an `int` here, and so is the
offset. -/
def dbufferSetPixelsInt (pixel : Pixel) (points : List (Int × Int)) :
    Option (List (Dot Pixel)) := do
  intResults (points.flatMap fun p => [p.2 * db.pitch.tdiv 4, p.2 * db.pitch.tdiv 4 + p.1])
  some (points.map fun p => dbufferSetPixelFast db pixel p.1 p.2)

/-- `brights_dbuffer_draw_pixel`. -/
def dbufferDrawPixelInt (x y : Int) (color : Color) : Option (List (Dot Pixel)) :=
  if toUint32 db.width ≤ toUint32 x ∨ toUint32 db.height ≤ toUint32 y then
    some []
  else do
    let shown ← clipPointInt clip x y
    if shown then dbufferSetPixelsInt db (colorToPixelFast fb color) [(x, y)] else some []

/-- `brights_dbuffer_draw_hline`, which cuts the row to the buffer and not to the clip. -/
def dbufferDrawHlineInt (x y width : Int) (color : Color) : Option (List (Dot Pixel)) :=
  if toUint32 db.height ≤ toUint32 y ∨ width ≤ 0 then
    some []
  else do
    let span ← screenSpanInt (fun cx => intResult (db.width - cx)) x width
    match span with
    | none => some []
    | some (cx, cw) => some (fillRow db.stride (colorToPixelFast fb color) cx y cw)

/-- `brights_dbuffer_fill_rect`, by rows. -/
def dbufferFillRectInt (x y width height : Int) (color : Color) : Option (List (Dot Pixel)) :=
  if width ≤ 0 ∨ height ≤ 0 then
    some []
  else do
    let area ← applyClipRectInt clip ⟨x, y, width, height⟩
    match area with
    | none => some []
    | some r => do
        rowsInt r.y r.height
        some ((List.range r.height.toNat).flatMap fun i : Nat =>
          fillRow db.stride (colorToPixelFast fb color) r.x (r.y + i) r.width)

/-- `brights_dbuffer_draw_line`. -/
def dbufferDrawLineInt (x0 y0 x1 y1 : Int) (color : Color) : Option (List (Dot Pixel)) := do
  let points ← linePointsInt x0 y0 x1 y1
  dbufferSetPixelsInt db (colorToPixelFast fb color) points

/-- `brights_dbuffer_draw_rect`: its sides are lines. -/
def dbufferDrawRectInt (x y width height : Int) (color : Color) : Option (List (Dot Pixel)) :=
  if width ≤ 0 ∨ height ≤ 0 then
    some []
  else do
    intResults [x + width, x + width - 1]
    let top ← dbufferDrawLineInt fb db x y (x + width - 1) y color
    intResults [y + height, y + height - 1]
    let bottom ← dbufferDrawLineInt fb db x (y + height - 1) (x + width - 1) (y + height - 1) color
    let left ← dbufferDrawLineInt fb db x y x (y + height - 1) color
    let right ← dbufferDrawLineInt fb db (x + width - 1) y (x + width - 1) (y + height - 1) color
    some (top ++ bottom ++ left ++ right)

/-- `brights_dbuffer_draw_circle`. -/
def dbufferDrawCircleInt (cx cy radius : Int) (color : Color) : Option (List (Dot Pixel)) := do
  let points ← circlePointsInt cx cy radius
  dbufferSetPixelsInt db (colorToPixelFast fb color) points

/-- The clip is not looked at, and the rows are counted for an image without columns as well. -/
def dbufferBlitInt (buffer : Option (Int → Pixel)) (x y width height pitch : Int) :
    Option (List (Dot Pixel)) :=
  match buffer with
  | none => some []
  | some src =>
      if toUint32 db.width ≤ toUint32 x ∨ toUint32 db.height ≤ toUint32 y then
        some []
      else do
        rowsInt y height
        some (blitRows db.stride (toUint32 pitch / 4) src 0 ⟨x, y, width, height⟩)

end Dbuffer

/-! ### Calls

A call that is undefined makes no step.  The two ways to draw are the same but for the functions
that they go to.
-/

/-- The pixels are written to the framebuffer; `toBuffer` writes them to the buffer. -/
def Display.toScreen (d : Display) (dots : List (Dot Pixel)) : Display :=
  { d with shown := paint d.shown dots }

def Display.toBuffer (d : Display) (dots : List (Dot Pixel)) : Display :=
  { d with dbuffer := { d.dbuffer with pixels := paint d.dbuffer.pixels dots } }

/-- The `brights_fb_` function. -/
def Display.fbDraw (d : Display) (call : DrawCall) : Option Display :=
  (call.fbWritesInt d.fb d.clip).map d.toScreen

/-- The `brights_dbuffer_` function; four of them draw to the screen when the buffer is not
active. -/
def Display.dbufferDraw (d : Display) : DrawCall → Option Display
  | .pixel x y color =>
      if d.dbuffer.active = false then d.fbDraw (.pixel x y color)
      else (dbufferDrawPixelInt d.fb d.dbuffer d.clip x y color).map d.toBuffer
  | .hline x y width color =>
      if d.dbuffer.active = false then d.fbDraw (.hline x y width color)
      else (dbufferDrawHlineInt d.fb d.dbuffer x y width color).map d.toBuffer
  -- There is no such function.
  | .vline .. => some d
  | .rect x y width height color =>
      (dbufferDrawRectInt d.fb d.dbuffer x y width height color).map d.toBuffer
  | .fillRect x y width height color =>
      if d.dbuffer.active = false then d.fbDraw (.fillRect x y width height color)
      else (dbufferFillRectInt d.fb d.dbuffer d.clip x y width height color).map d.toBuffer
  | .blit buffer x y width height pitch =>
      if d.dbuffer.active = false then d.fbDraw (.blit buffer x y width height pitch)
      else (dbufferBlitInt d.dbuffer buffer x y width height pitch).map d.toBuffer
  | .line x0 y0 x1 y1 color =>
      (dbufferDrawLineInt d.fb d.dbuffer x0 y0 x1 y1 color).map d.toBuffer
  | .circle cx cy radius color =>
      (dbufferDrawCircleInt d.fb d.dbuffer cx cy radius color).map d.toBuffer

/-- Drawing calls and the calls that change the clip. -/
inductive DisplayCall where
  | clipSet (x y width height : Int)
  | clipDisable
  | draw (call : DrawCall)

/-- The call is made of the `brights_fb_` function. -/
def Display.direct (d : Display) : DisplayCall → Option Display
  | .clipSet x y width height => some { d with clip := ⟨x, y, width, height, true⟩ }
  | .clipDisable => some { d with clip := { d.clip with enabled := false } }
  | .draw call => d.fbDraw call

/-- The call is made of the `brights_dbuffer_` function. -/
def Display.buffered (d : Display) : DisplayCall → Option Display
  | .clipSet x y width height => some { d with clip := ⟨x, y, width, height, true⟩ }
  | .clipDisable => some { d with clip := { d.clip with enabled := false } }
  | .draw call => d.dbufferDraw call

end BrightS
