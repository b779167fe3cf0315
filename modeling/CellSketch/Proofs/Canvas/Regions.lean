import Mathlib.Analysis.SpecialFunctions.Trigonometric.Basic
import CellSketch.Shape

/-!
# Regions — where the points of shapes lie

Lines and arcs are their strokes, and rectangles and ellipses are filled.  A shape lies between two
corners if all of its points do; an arc over a quarter of a turn stays in one quarter of its
ellipse.

* `Shape.points` — the points of a shape;
* `Shape.Between` — all of them lie between two corners;
* `Shape.between_line`, `Shape.between_rectangle`, `Shape.between_ellipse`, `Shape.between_arc` —
  the shapes that are drawn on cells;
* `Shape.between_lowerRight` and the like — arcs over a quarter.
-/

namespace CellSketch

open Number

/-- The point of an ellipse at an angle, clockwise from the right. -/
noncomputable def ellipsePoint (centre : Point Rat) (rx ry : Rat) (angle : ℝ) : Point ℝ :=
  ⟨centre.x + rx * Real.cos angle, centre.y + ry * Real.sin angle⟩

namespace Shape

/-- The points of a line, a rectangle, an ellipse or an arc.  The roundings of a rectangle are taken
as filled, too. -/
def points : Shape Rat → Set (Point ℝ)
  | line a b =>
      {q | ∃ t : ℝ, 0 ≤ t ∧ t ≤ 1 ∧ q = ⟨a.x + t * (b.x - a.x), a.y + t * (b.y - a.y)⟩}
  | rectangle corner width height _ =>
      {q | (corner.x ≤ q.x ∧ q.x ≤ corner.x + width) ∧
        corner.y ≤ q.y ∧ q.y ≤ corner.y + height}
  | ellipse centre rx ry _ =>
      {q | ∃ t angle : ℝ, 0 ≤ t ∧ t ≤ 1 ∧
        q = ⟨centre.x + t * (rx * Real.cos angle), centre.y + t * (ry * Real.sin angle)⟩}
  | arc centre rx ry start stop =>
      {q | ∃ degrees : ℝ, start ≤ degrees ∧ degrees ≤ stop ∧
        q = ellipsePoint centre rx ry (degrees * (Real.pi / (180 : Nat)))}
  | head .. | curve .. | path _ | text .. => ∅

/-- All points of a shape lie between two corners. -/
def Between (s : Shape Rat) (low high : Point Rat) : Prop :=
  ∀ q ∈ s.points, ((low.x : ℝ) ≤ q.x ∧ q.x ≤ high.x) ∧ (low.y : ℝ) ≤ q.y ∧ q.y ≤ high.y

variable {low high a b centre : Point Rat} {width height rx ry : Rat}

theorem Between.mono {s : Shape Rat} (h : s.Between low high) {low' high' : Point Rat}
    (hlow : low'.x ≤ low.x ∧ low'.y ≤ low.y) (hhigh : high.x ≤ high'.x ∧ high.y ≤ high'.y) :
    s.Between low' high' := by
  intro q hq
  obtain ⟨⟨hleft, hright⟩, htop, hbottom⟩ := h q hq
  exact ⟨⟨(Rat.cast_le.2 hlow.1).trans hleft, hright.trans (Rat.cast_le.2 hhigh.1)⟩,
    (Rat.cast_le.2 hlow.2).trans htop, hbottom.trans (Rat.cast_le.2 hhigh.2)⟩

/-! ## Straight shapes -/

/-- A number on the way between two others. -/
theorem onTheWay {l u x y t : ℝ} (hx : l ≤ x ∧ x ≤ u) (hy : l ≤ y ∧ y ≤ u) (h₀ : 0 ≤ t)
    (h₁ : t ≤ 1) : l ≤ x + t * (y - x) ∧ x + t * (y - x) ≤ u := by
  constructor <;> nlinarith [hx.1, hx.2, hy.1, hy.2]

theorem between_line (hax : low.x ≤ a.x ∧ a.x ≤ high.x) (hay : low.y ≤ a.y ∧ a.y ≤ high.y)
    (hbx : low.x ≤ b.x ∧ b.x ≤ high.x) (hby : low.y ≤ b.y ∧ b.y ≤ high.y) :
    (line a b).Between low high := by
  rintro _ ⟨t, h₀, h₁, rfl⟩
  exact ⟨onTheWay (by exact_mod_cast hax) (by exact_mod_cast hbx) h₀ h₁,
    onTheWay (by exact_mod_cast hay) (by exact_mod_cast hby) h₀ h₁⟩

theorem between_rectangle (radius : Option (Rat × Rat)) :
    (rectangle a width height radius).Between a ⟨a.x + width, a.y + height⟩ := by
  intro q hq
  push_cast
  exact hq

/-! ## Round shapes -/

theorem between_ellipse (hrx : 0 ≤ rx) (hry : 0 ≤ ry) (fill : String) :
    (ellipse centre rx ry fill).Between ⟨centre.x - rx, centre.y - ry⟩
      ⟨centre.x + rx, centre.y + ry⟩ := by
  -- the way from the centre to the edge is no longer than the radius
  have hway {r : Rat} {t x : ℝ} (hr : 0 ≤ r) (h₀ : 0 ≤ t) (h₁ : t ≤ 1) (hx : |x| ≤ 1) :
      |t * (r * x)| ≤ r := by
    rw [abs_mul, abs_mul, abs_of_nonneg h₀, abs_of_nonneg (Rat.cast_nonneg.2 hr)]
    have hr' : (0 : ℝ) ≤ r := Rat.cast_nonneg.2 hr
    exact (mul_le_of_le_one_left (by positivity) h₁).trans (mul_le_of_le_one_right hr' hx)
  rintro _ ⟨t, angle, h₀, h₁, rfl⟩
  have hx := abs_le.1 (hway hrx h₀ h₁ (Real.abs_cos_le_one angle))
  have hy := abs_le.1 (hway hry h₀ h₁ (Real.abs_sin_le_one angle))
  push_cast
  exact ⟨⟨by linarith, by linarith⟩, by linarith, by linarith⟩

/-- An arc lies as far out as the cosines and sines of its angles do. -/
theorem between_arc_of {start stop : Int} {left right top bottom : Rat} (hrx : 0 ≤ rx)
    (hry : 0 ≤ ry)
    (h : ∀ angle : ℝ, start * (Real.pi / 180) ≤ angle → angle ≤ stop * (Real.pi / 180) →
      ((left : ℝ) ≤ Real.cos angle ∧ Real.cos angle ≤ right) ∧
        (top : ℝ) ≤ Real.sin angle ∧ Real.sin angle ≤ bottom) :
    (arc centre rx ry start stop).Between ⟨centre.x + rx * left, centre.y + ry * top⟩
      ⟨centre.x + rx * right, centre.y + ry * bottom⟩ := by
  rintro _ ⟨degrees, hstart, hstop, rfl⟩
  rw [Nat.cast_ofNat]
  have hunit : (0 : ℝ) ≤ Real.pi / 180 := by positivity
  obtain ⟨⟨hleft, hright⟩, htop, hbottom⟩ := h (degrees * (Real.pi / 180))
    (mul_le_mul_of_nonneg_right hstart hunit) (mul_le_mul_of_nonneg_right hstop hunit)
  have hrx' : (0 : ℝ) ≤ rx := Rat.cast_nonneg.2 hrx
  have hry' : (0 : ℝ) ≤ ry := Rat.cast_nonneg.2 hry
  push_cast
  refine ⟨⟨?_, ?_⟩, ?_, ?_⟩ <;> refine add_le_add_right (mul_le_mul_of_nonneg_left ?_ ‹_›) _ <;>
    assumption

theorem between_arc (hrx : 0 ≤ rx) (hry : 0 ≤ ry) (start stop : Int) :
    (arc centre rx ry start stop).Between ⟨centre.x - rx, centre.y - ry⟩
      ⟨centre.x + rx, centre.y + ry⟩ := by
  have h : (arc centre rx ry start stop).Between
      ⟨centre.x + rx * (-1 : Int), centre.y + ry * (-1 : Int)⟩
      ⟨centre.x + rx * (1 : Int), centre.y + ry * (1 : Int)⟩ :=
    between_arc_of hrx hry fun angle _ _ => by
      simpa using ⟨⟨Real.neg_one_le_cos angle, Real.cos_le_one angle⟩,
        Real.neg_one_le_sin angle, Real.sin_le_one angle⟩
  simpa [sub_eq_add_neg] using h

/-! ### Arcs over a quarter -/

theorem between_lowerRight (hrx : 0 ≤ rx) (hry : 0 ≤ ry) :
    (arc centre rx ry 0 90).Between centre ⟨centre.x + rx, centre.y + ry⟩ := by
  have h : (arc centre rx ry 0 90).Between ⟨centre.x + rx * (0 : Int), centre.y + ry * (0 : Int)⟩
      ⟨centre.x + rx * (1 : Int), centre.y + ry * (1 : Int)⟩ :=
    between_arc_of hrx hry fun angle hstart hstop => by
      push_cast at hstart hstop ⊢
      exact ⟨⟨Real.cos_nonneg_of_neg_pi_div_two_le_of_le (by linarith) (by linarith),
        Real.cos_le_one angle⟩, Real.sin_nonneg_of_nonneg_of_le_pi (by linarith) (by linarith),
        Real.sin_le_one angle⟩
  simpa using h

theorem between_lowerLeft (hrx : 0 ≤ rx) (hry : 0 ≤ ry) :
    (arc centre rx ry 90 180).Between ⟨centre.x - rx, centre.y⟩ ⟨centre.x, centre.y + ry⟩ := by
  have h : (arc centre rx ry 90 180).Between
      ⟨centre.x + rx * (-1 : Int), centre.y + ry * (0 : Int)⟩
      ⟨centre.x + rx * (0 : Int), centre.y + ry * (1 : Int)⟩ :=
    between_arc_of hrx hry fun angle hstart hstop => by
      push_cast at hstart hstop ⊢
      exact ⟨⟨Real.neg_one_le_cos angle,
        Real.cos_nonpos_of_pi_div_two_le_of_le (by linarith) (by linarith)⟩,
        Real.sin_nonneg_of_nonneg_of_le_pi (by linarith) (by linarith), Real.sin_le_one angle⟩
  simpa [sub_eq_add_neg] using h

theorem between_upperLeft (hrx : 0 ≤ rx) (hry : 0 ≤ ry) :
    (arc centre rx ry 180 270).Between ⟨centre.x - rx, centre.y - ry⟩ centre := by
  have h : (arc centre rx ry 180 270).Between
      ⟨centre.x + rx * (-1 : Int), centre.y + ry * (-1 : Int)⟩
      ⟨centre.x + rx * (0 : Int), centre.y + ry * (0 : Int)⟩ :=
    between_arc_of hrx hry fun angle hstart hstop => by
      push_cast at hstart hstop ⊢
      refine ⟨⟨Real.neg_one_le_cos angle,
        Real.cos_nonpos_of_pi_div_two_le_of_le (by linarith) (by linarith)⟩,
        Real.neg_one_le_sin angle, ?_⟩
      rw [← Real.sin_sub_two_pi]
      exact Real.sin_nonpos_of_nonpos_of_neg_pi_le (by linarith) (by linarith)
  simpa [sub_eq_add_neg] using h

theorem between_upperRight (hrx : 0 ≤ rx) (hry : 0 ≤ ry) :
    (arc centre rx ry 270 360).Between ⟨centre.x, centre.y - ry⟩ ⟨centre.x + rx, centre.y⟩ := by
  have h : (arc centre rx ry 270 360).Between
      ⟨centre.x + rx * (0 : Int), centre.y + ry * (-1 : Int)⟩
      ⟨centre.x + rx * (1 : Int), centre.y + ry * (0 : Int)⟩ :=
    between_arc_of hrx hry fun angle hstart hstop => by
      push_cast at hstart hstop ⊢
      rw [← Real.sin_sub_two_pi, ← Real.cos_sub_two_pi]
      exact ⟨⟨Real.cos_nonneg_of_neg_pi_div_two_le_of_le (by linarith) (by linarith),
        Real.cos_le_one _⟩, Real.neg_one_le_sin _,
        Real.sin_nonpos_of_nonpos_of_neg_pi_le (by linarith) (by linarith)⟩
  simpa [sub_eq_add_neg] using h

end Shape
end CellSketch
