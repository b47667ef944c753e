/-
The framebuffer and its double buffer (drivers/fb.c), in exact arithmetic.

A primitive is the list of the pixels that it writes: each with the coordinates that the source
computes, and the offset from the base of the pixels, in words, that these come to in the
arithmetic of the source.  `uint32_t` values wrap, and a `uint32_t` that is stored in an `int` is
converted.

The operations on `int` are those of `Int` here.  An operation of the source whose result is not
an `int` is undefined; the functions whose names end in `Int` (`fbDrawHlineInt` for
`fbDrawHline`) are those of the source with that, and have no result then.
-/
import BrightS.Lib.Raster

namespace BrightS

open Raster

/-- The conversions to `uint32_t` and to `int`. -/
def toUint32 (v : Int) : Int := v % 2 ^ 32

def toInt (v : Int) : Int := (v + 2 ^ 31) % 2 ^ 32 - 2 ^ 31

/-- A pixel as it is in memory. -/
abbrev Pixel := BitVec 32

/-- `brights_color_t`. -/
structure Color where
  r : BitVec 8
  g : BitVec 8
  b : BitVec 8
  deriving DecidableEq, Repr

/-- The members of `brights_fb_info_t` that the primitives read. -/
structure FbInfo where
  width : Nat
  height : Nat
  pitch : Nat
  redShift : Nat
  greenShift : Nat
  blueShift : Nat
  initialized : Bool
  deriving DecidableEq, Repr

/-- `clip_region`, with the flag that switches it on. -/
structure Clip where
  x : Int
  y : Int
  width : Int
  height : Int
  enabled : Bool
  deriving DecidableEq, Repr

/-- `fb_info.pitch / 4`: the words from one row to the next. -/
def FbInfo.stride (fb : FbInfo) : Int := (fb.pitch / 4 : Nat)

/-- `color_to_pixel_fast`: the parts of a color at the shifts of the mode. -/
def colorToPixelFast (fb : FbInfo) (color : Color) : Pixel :=
  (color.r.setWidth 32 <<< fb.redShift) ||| (color.g.setWidth 32 <<< fb.greenShift) |||
    (color.b.setWidth 32 <<< fb.blueShift)

/-- `set_pixel_fast`, which checks nothing. -/
def setPixelFast (fb : FbInfo) (pixel : Pixel) (x y : Int) : Dot Pixel :=
  { x := x, y := y, cell := toUint32 (y * fb.stride + x), value := pixel }

/-! ### The clip -/

/-- The point is in the clip, whose edges are exact. -/
def clipPoint (clip : Clip) (x y : Int) : Bool :=
  !clip.enabled || (clip.x ≤ x ∧ x < clip.x + clip.width ∧ clip.y ≤ y ∧ y < clip.y + clip.height)

/-- What the clip leaves of the rectangle, its edges being exact; none when nothing is left. -/
def applyClipRect (clip : Clip) (r : Area) : Option Area :=
  if clip.enabled = false then
    some r
  else
    let cx2 := clip.x + clip.width
    let cy2 := clip.y + clip.height
    let tx2 := r.x + r.width
    let ty2 := r.y + r.height
    if tx2 ≤ clip.x ∨ ty2 ≤ clip.y ∨ cx2 ≤ r.x ∨ cy2 ≤ r.y then
      none
    else
      let w := if r.x < clip.x then r.width - (clip.x - r.x) else r.width
      let x := if r.x < clip.x then clip.x else r.x
      let h := if r.y < clip.y then r.height - (clip.y - r.y) else r.height
      let y := if r.y < clip.y then clip.y else r.y
      let w := if cx2 < tx2 then w - (tx2 - cx2) else w
      let h := if cy2 < ty2 then h - (ty2 - cy2) else h
      if 0 < w ∧ 0 < h then some ⟨x, y, w, h⟩ else none

/-! ### Loops over pixels

What the primitives share: the part of a span on the screen, rows, lines and circles.  The line and
circle functions of the screen and of the buffer set the same points.
-/

/-- The part of `len` pixels from `pos` that is in `0..limit`, as its start and length. -/
def screenSpan (maxLen : Int → Int) (pos len : Int) : Option (Int × Int) :=
  let n := if pos < 0 then len + pos else len
  let c := if pos < 0 then 0 else pos
  let n := if maxLen c < n then maxLen c else n
  if n ≤ 0 then none else some (c, n)

/-- `row[i] = pixel` for `width` pixels of the row. -/
def fillRow (stride : Int) (pixel : Pixel) (x y width : Int) : List (Dot Pixel) :=
  (List.range width.toNat).map fun i : Nat =>
    { x := x + i, y := y, cell := toUint32 (y * stride) + x + i, value := pixel }

/-- The points of a line: `major` steps along one axis, from which `e` says when to step along the
other as well. -/
def lineLoop (major minor majorInc minorInc : Int) : Nat → Int → Int → Int → List (Int × Int)
  | 0, _, _, _ => []
  | rounds + 1, a, b, e =>
      (a, b) ::
        if e - minor < 0 then
          lineLoop major minor majorInc minorInc rounds (a + majorInc) (b + minorInc)
            (e - minor + major)
        else
          lineLoop major minor majorInc minorInc rounds (a + majorInc) b (e - minor)

/-- `abs_dx`, `xinc` and their like. -/
def absDiff (d : Int) : Int := if 0 ≤ d then d else -d

def increment (d : Int) : Int := if 0 < d then 1 else if d < 0 then -1 else 0

/-- The points that both line functions set. -/
def linePoints (x0 y0 x1 y1 : Int) : List (Int × Int) :=
  let dx := x1 - x0
  let dy := y1 - y0
  let absDx := absDiff dx
  let absDy := absDiff dy
  let xinc := increment dx
  let yinc := increment dy
  if absDy < absDx then
    lineLoop absDx absDy xinc yinc (absDx + 1).toNat x0 y0 (absDx / 2)
  else if 0 < absDy then
    (lineLoop absDy absDx yinc xinc (absDy + 1).toNat y0 x0 (absDy / 2)).map Prod.swap
  else
    [(x0, y0)]

/-- The eight points that a step around the circle sets. -/
def circleOctants (cx cy x y : Int) : List (Int × Int) :=
  [(cx + x, cy + y), (cx - x, cy + y), (cx + x, cy - y), (cx - x, cy - y),
    (cx + y, cy + x), (cx - y, cy + x), (cx + y, cy - x), (cx - y, cy - x)]

/-- The loop of both circle functions, with its error term `d`. -/
def circleLoop (cx cy x y d : Int) : List (Int × Int) :=
  if x ≤ y then
    circleOctants cx cy x y ++
      if d < 0 then
        circleLoop cx cy (x + 1) y (d + (4 * x + 6))
      else
        circleLoop cx cy (x + 1) (y - 1) (d + (4 * (x - y) + 10))
  else
    []
termination_by (y + 1 - x).toNat

/-- The points that both circle functions set. -/
def circlePoints (cx cy radius : Int) : List (Int × Int) :=
  if radius ≤ 0 then [] else circleLoop cx cy 0 radius (3 - 2 * radius)

/-! ### The primitives

The functions with the prefix `brights_fb_`.  Some cut what they draw to the screen, some to the
clip, some to both and some to neither.
-/

/-- `brights_fb_draw_pixel`. -/
def fbDrawPixel (fb : FbInfo) (clip : Clip) (x y : Int) (color : Color) : List (Dot Pixel) :=
  if fb.initialized = false then
    []
  else if (fb.width : Int) ≤ toUint32 x ∨ (fb.height : Int) ≤ toUint32 y then
    []
  else if clip.enabled ∧ clipPoint clip x y = false then
    []
  else
    [setPixelFast fb (colorToPixelFast fb color) x y]

/-- `brights_fb_draw_hline`: what is on the screen of the row, cut by the clip. -/
def fbDrawHline (fb : FbInfo) (clip : Clip) (x y width : Int) (color : Color) :
    List (Dot Pixel) :=
  if fb.initialized = false then
    []
  else if (fb.height : Int) ≤ toUint32 y ∨ width ≤ 0 then
    []
  else
    match screenSpan (fun cx => toInt (fb.width - cx)) x width with
    | none => []
    | some (cx, cw) =>
        match applyClipRect clip ⟨cx, y, cw, 1⟩ with
        | none => []
        | some r => fillRow fb.stride (colorToPixelFast fb color) r.x y r.width

/-- `brights_fb_draw_vline`, by the same steps. -/
def fbDrawVline (fb : FbInfo) (clip : Clip) (x y height : Int) (color : Color) :
    List (Dot Pixel) :=
  if fb.initialized = false then
    []
  else if (fb.width : Int) ≤ toUint32 x ∨ height ≤ 0 then
    []
  else
    match screenSpan (fun cy => toInt (fb.height - cy)) y height with
    | none => []
    | some (cy, ch) =>
        match applyClipRect clip ⟨x, cy, 1, ch⟩ with
        | none => []
        | some r =>
            (List.range r.height.toNat).map fun i : Nat =>
              { x := x, y := r.y + i, cell := toUint32 (r.y * fb.stride + x + i * fb.stride)
                value := colorToPixelFast fb color }

/-- `brights_fb_draw_rect`: two rows, and two columns between them. -/
def fbDrawRect (fb : FbInfo) (clip : Clip) (x y width height : Int) (color : Color) :
    List (Dot Pixel) :=
  if width ≤ 0 ∨ height ≤ 0 then
    []
  else
    fbDrawHline fb clip x y width color ++
      (if 1 < height then fbDrawHline fb clip x (y + height - 1) width color else []) ++
      (if 2 < height then
        fbDrawVline fb clip x (y + 1) (height - 2) color ++
          fbDrawVline fb clip (x + width - 1) (y + 1) (height - 2) color
      else [])

/-- The two loops of `brights_fb_fill_rect`: over all pixels at once where the rows follow one
another, else over the rows. -/
def fillRows (fb : FbInfo) (pixel : Pixel) (r : Area) : List (Dot Pixel) :=
  if r.width = toInt fb.width ∧ fb.stride = toUint32 r.width then
    (List.range (toUint32 (r.width * r.height)).toNat).map fun i : Nat =>
      { x := r.x + i % r.width, y := r.y + i / r.width
        cell := toUint32 (r.y * fb.stride) + r.x + i, value := pixel }
  else
    (List.range r.height.toNat).flatMap fun i : Nat =>
      (List.range r.width.toNat).map fun j : Nat =>
        { x := r.x + j, y := r.y + i
          cell := toUint32 (r.y * fb.stride) + r.x + toUint32 (i * fb.stride) + j, value := pixel }

/-- `brights_fb_fill_rect`. -/
def fbFillRect (fb : FbInfo) (clip : Clip) (x y width height : Int) (color : Color) :
    List (Dot Pixel) :=
  if fb.initialized = false ∨ width ≤ 0 ∨ height ≤ 0 then
    []
  else
    match applyClipRect clip ⟨x, y, width, height⟩ with
    | none => []
    | some r => fillRows fb (colorToPixelFast fb color) r

/-- The loops of the blits: row `i` of the source starts `rowOffset` after `src + i * src_stride`. -/
def blitRows (stride srcStride : Int) (src : Int → Pixel) (rowOffset : Int) (r : Area) :
    List (Dot Pixel) :=
  (List.range r.height.toNat).flatMap fun i : Nat =>
    (List.range r.width.toNat).map fun j : Nat =>
      { x := r.x + j, y := r.y + i, cell := toUint32 ((r.y + i) * stride) + r.x + j
        value := src (toUint32 (i * srcStride) + rowOffset + j) }

/-- `brights_fb_blit`: an image of which the clip may take away the first columns. -/
def fbBlit (fb : FbInfo) (clip : Clip) (buffer : Option (Int → Pixel))
    (x y width height pitch : Int) : List (Dot Pixel) :=
  match buffer with
  | none => []
  | some src =>
      if fb.initialized = false then
        []
      else if (fb.width : Int) ≤ toUint32 x ∨ (fb.height : Int) ≤ toUint32 y then
        []
      else
        match applyClipRect clip ⟨x, y, width, height⟩ with
        | none => []
        | some r => blitRows fb.stride (toUint32 pitch / 4) src (r.x - x) r

/-- `brights_fb_draw_line`, without a look at the screen or the clip. -/
def fbDrawLine (fb : FbInfo) (x0 y0 x1 y1 : Int) (color : Color) : List (Dot Pixel) :=
  (linePoints x0 y0 x1 y1).map fun p => setPixelFast fb (colorToPixelFast fb color) p.1 p.2

/-- `brights_fb_draw_circle`, likewise. -/
def fbDrawCircle (fb : FbInfo) (cx cy radius : Int) (color : Color) : List (Dot Pixel) :=
  (circlePoints cx cy radius).map fun p => setPixelFast fb (colorToPixelFast fb color) p.1 p.2

/-! ### Calls -/

/-- The drawing calls, with the arguments of the source. -/
inductive DrawCall where
  | pixel (x y : Int) (color : Color)
  | hline (x y width : Int) (color : Color)
  | vline (x y height : Int) (color : Color)
  | rect (x y width height : Int) (color : Color)
  | fillRect (x y width height : Int) (color : Color)
  | blit (buffer : Option (Int → Pixel)) (x y width height pitch : Int)
  | line (x0 y0 x1 y1 : Int) (color : Color)
  | circle (cx cy radius : Int) (color : Color)

/-- The pixels that the `brights_fb_` function writes, in order. -/
def DrawCall.fbWrites (fb : FbInfo) (clip : Clip) : DrawCall → List (Dot Pixel)
  | .pixel x y color => fbDrawPixel fb clip x y color
  | .hline x y width color => fbDrawHline fb clip x y width color
  | .vline x y height color => fbDrawVline fb clip x y height color
  | .rect x y width height color => fbDrawRect fb clip x y width height color
  | .fillRect x y width height color => fbFillRect fb clip x y width height color
  | .blit buffer x y width height pitch => fbBlit fb clip buffer x y width height pitch
  | .line x0 y0 x1 y1 color => fbDrawLine fb x0 y0 x1 y1 color
  | .circle cx cy radius color => fbDrawCircle fb cx cy radius color

/-! ### The double buffer

Drawing goes to a buffer that is laid out like the framebuffer, and a flip copies it there.  The
functions have their own bodies, which do not always check what those of the screen check.
-/

/-- `pixels` is the memory from `dbuffer.buffer` on. -/
structure Dbuffer where
  hasBuffer : Bool
  pixels : Int → Pixel
  width : Int
  height : Int
  pitch : Int
  active : Bool

/-- The state of the module; `shown` is the memory from the base of the framebuffer on. -/
structure Display where
  fb : FbInfo
  clip : Clip
  shown : Int → Pixel
  dbuffer : Dbuffer

/-- `brights_dbuffer_init`; the buffer is what `kmalloc` returns, with the contents it has. -/
def dbufferInit (kmalloc : Option (Int → Pixel)) (d : Display) : Display × Int :=
  if d.fb.initialized = false then
    (d, -1)
  else
    let db :=
      if d.dbuffer.hasBuffer then
        d.dbuffer
      else
        match kmalloc with
        | none => d.dbuffer
        | some pixels => { d.dbuffer with hasBuffer := true, pixels := pixels }
    if db.hasBuffer = false then
      ({ d with dbuffer := db }, -1)
    else
      ({ d with dbuffer :=
          { db with
            width := toInt d.fb.width
            height := toInt d.fb.height
            pitch := toInt d.fb.pitch
            active := true } }, 0)

/-- `dbuffer.pitch / 4`. -/
def Dbuffer.stride (db : Dbuffer) : Int := toUint32 (db.pitch.tdiv 4)

/-- `dbuffer_set_pixel_fast`, whose offset is an `int`. -/
def dbufferSetPixelFast (db : Dbuffer) (pixel : Pixel) (x y : Int) : Dot Pixel :=
  { x := x, y := y, cell := y * db.pitch.tdiv 4 + x, value := pixel }

/-- The words that `brights_dbuffer_flip` copies. -/
def Dbuffer.words (db : Dbuffer) : Int := toUint32 (db.pitch.tdiv 4 * db.height)

/-- `brights_dbuffer_flip`: the framebuffer gets what the buffer holds. -/
def dbufferFlip (d : Display) : Display :=
  if d.dbuffer.active = false ∨ d.dbuffer.hasBuffer = false then
    d
  else
    { d with
      shown := fun i => if 0 ≤ i ∧ i < d.dbuffer.words then d.dbuffer.pixels i else d.shown i }

section Dbuffer

variable (fb : FbInfo) (db : Dbuffer) (clip : Clip)

/-- `brights_dbuffer_draw_pixel`. -/
def dbufferDrawPixel (x y : Int) (color : Color) : List (Dot Pixel) :=
  if toUint32 db.width ≤ toUint32 x ∨ toUint32 db.height ≤ toUint32 y then
    []
  else if clip.enabled ∧ clipPoint clip x y = false then
    []
  else
    [dbufferSetPixelFast db (colorToPixelFast fb color) x y]

/-- `brights_dbuffer_draw_hline`, without the clip. -/
def dbufferDrawHline (x y width : Int) (color : Color) : List (Dot Pixel) :=
  if toUint32 db.height ≤ toUint32 y ∨ width ≤ 0 then
    []
  else
    match screenSpan (fun cx => db.width - cx) x width with
    | none => []
    | some (cx, cw) => fillRow db.stride (colorToPixelFast fb color) cx y cw

/-- `brights_dbuffer_fill_rect`. -/
def dbufferFillRect (x y width height : Int) (color : Color) : List (Dot Pixel) :=
  if width ≤ 0 ∨ height ≤ 0 then
    []
  else
    match applyClipRect clip ⟨x, y, width, height⟩ with
    | none => []
    | some r =>
        (List.range r.height.toNat).flatMap fun i : Nat =>
          fillRow db.stride (colorToPixelFast fb color) r.x (r.y + i) r.width

/-- `brights_dbuffer_draw_line`. -/
def dbufferDrawLine (x0 y0 x1 y1 : Int) (color : Color) : List (Dot Pixel) :=
  (linePoints x0 y0 x1 y1).map fun p => dbufferSetPixelFast db (colorToPixelFast fb color) p.1 p.2

/-- `brights_dbuffer_draw_rect`: its four sides are lines. -/
def dbufferDrawRect (x y width height : Int) (color : Color) : List (Dot Pixel) :=
  if width ≤ 0 ∨ height ≤ 0 then
    []
  else
    dbufferDrawLine fb db x y (x + width - 1) y color ++
      dbufferDrawLine fb db x (y + height - 1) (x + width - 1) (y + height - 1) color ++
      dbufferDrawLine fb db x y x (y + height - 1) color ++
      dbufferDrawLine fb db (x + width - 1) y (x + width - 1) (y + height - 1) color

/-- `brights_dbuffer_draw_circle`. -/
def dbufferDrawCircle (cx cy radius : Int) (color : Color) : List (Dot Pixel) :=
  (circlePoints cx cy radius).map fun p =>
    dbufferSetPixelFast db (colorToPixelFast fb color) p.1 p.2

/-- The rows of the source are not cut: `src + i * src_stride`. -/
def dbufferBlit (buffer : Option (Int → Pixel)) (x y width height pitch : Int) :
    List (Dot Pixel) :=
  match buffer with
  | none => []
  | some src =>
      if toUint32 db.width ≤ toUint32 x ∨ toUint32 db.height ≤ toUint32 y then
        []
      else
        blitRows db.stride (toUint32 pitch / 4) src 0 ⟨x, y, width, height⟩

end Dbuffer

end BrightS
