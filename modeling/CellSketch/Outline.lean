import CellSketch.Number.Measure
import CellSketch.Shape

/-!
# Outline — the corners and ends of turned shapes

Heads and arcs are kept by centre, size and angle.  Their outlines need trigonometry, which is done
here in doubles, only when a drawing is written out.
-/

namespace CellSketch
namespace Outline

open Number

/-- The double nearest to the circle number. -/
def pi : Float := Float.ofBits 0x400921fb54442d18

def radians (degrees : Float) : Float := degrees * (pi / 180.0)

def degrees (radians : Float) : Float := radians * (180.0 / pi)

/-- An angle as a number of degrees. -/
def angleDegrees : Angle Measure → Float
  | .degrees d => d.toFloat
  | .slope dy dx turn =>
      degrees (Float.atan2 dy.toFloat dx.toFloat) + (Measure.whole turn).toFloat

/-- The corners of a head: its left end, its tip and its right end. -/
def headCorners (centre : Point Measure) (rx ry : Measure) (angle : Angle Measure) :
    List (Point Measure) :=
  let rad := radians (angleDegrees angle)
  let cos := Float.cos rad
  let sin := Float.sin rad
  let cx := centre.x.toFloat
  let cy := centre.y.toFloat
  let turned (px py : Float) : Point Measure :=
    ⟨.real (cx + px * cos - py * sin), .real (cy + py * cos + px * sin)⟩
  [turned (-rx.toFloat) 0.0, turned 0.0 (-ry.toFloat), turned rx.toFloat 0.0]

/-- The point of an ellipse at an angle in degrees. -/
def ellipsePoint (centre : Point Measure) (rx ry : Measure) (angle : Int) : Point Measure :=
  let rad := radians (Measure.whole angle).toFloat
  ⟨.real (centre.x.toFloat + rx.toFloat * Float.cos rad),
    .real (centre.y.toFloat + ry.toFloat * Float.sin rad)⟩

end Outline
end CellSketch
