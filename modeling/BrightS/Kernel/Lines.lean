/-
The line of `drivers/fb.c` in the `int`s of the source.

An operation on `int` whose result is not one is undefined.  The loop makes the step to the
next pixel, and counts, behind the last pixel as well.  `linePoints` of the framebuffer is the same
line in exact arithmetic.
-/
import BrightS.Kernel.Framebuffer

namespace BrightS

open Raster

/-- The result of an operation on `int`, unless it is undefined. -/
def intResult (v : Int) : Option Int := if -2 ^ 31 ≤ v ∧ v < 2 ^ 31 then some v else none

/-- The rounds of the loop that are left, at count `i`. -/
def lineLoopInt (major minor majorInc minorInc : Int) :
    Nat → Int → Int → Int → Int → Option (List (Int × Int))
  | 0, _, _, _, _ => some []
  | rounds + 1, i, a, b, e => do
      let a' ← intResult (a + majorInc)
      let e ← intResult (e - minor)
      let b' ← if e < 0 then intResult (b + minorInc) else some b
      let e ← if e < 0 then intResult (e + major) else some e
      let i ← intResult (i + 1)
      let rest ← lineLoopInt major minor majorInc minorInc rounds i a' b' e
      some ((a, b) :: rest)

/-- The points of the line, unless an operation is undefined. -/
def linePointsInt (x0 y0 x1 y1 : Int) : Option (List (Int × Int)) := do
  let dx ← intResult (x1 - x0)
  let dy ← intResult (y1 - y0)
  let absDx ← intResult (absDiff dx)
  let absDy ← intResult (absDiff dy)
  let xinc := increment dx
  let yinc := increment dy
  if absDy < absDx then
    lineLoopInt absDx absDy xinc yinc (absDx + 1).toNat 0 x0 y0 (absDx / 2)
  else if 0 < absDy then
    (lineLoopInt absDy absDx yinc xinc (absDy + 1).toNat 0 y0 x0 (absDy / 2)).map
      (List.map Prod.swap)
  else
    some [(x0, y0)]

/-- `brights_fb_draw_line`. -/
def fbDrawLineInt (fb : FbInfo) (x0 y0 x1 y1 : Int) (color : Color) :
    Option (List (Dot Pixel)) :=
  (linePointsInt x0 y0 x1 y1).map
    (List.map fun p => setPixelFast fb (colorToPixelFast fb color) p.1 p.2)

end BrightS
