import Mathlib.Tactic.LinearCombination
import CellSketch.Proofs.Spline.Natural

/-!
# Symmetry — control points follow their points

The control points of a spline are the only natural ones.  So whatever takes natural control points
to natural ones takes the computed ones to the computed ones, although the elimination runs one way
and treats both coordinates apart: points in reverse order have the same curve backwards, and points
moved by an affine map of the plane have the moved curve.

* `NaturalAlong.reverse`, `controlPoints_reverse` — the curve from its other end;
* `Natural.along` — control points are natural along any direction of the plane;
* `Affine`, `Natural.map` — the curve through points that are moved;
* `Natural.on_line`, `EvenlySpaced.natural` — points on a line, and those at even distances;
* `controlPoints_affine` — all of it about the control points that are computed.
-/

namespace CellSketch
namespace Spline

open Number

/-! ## Reverse order -/

section Reverse

theorem getElem_reverse_of_add {numbers : List Rat} {i j : Nat} (h : i + j + 1 = numbers.length)
    (hi : i < numbers.reverse.length) : numbers.reverse[i] = numbers[j] := by
  have hindex : numbers.length - 1 - i = j := by omega
  simp only [List.getElem_reverse, hindex]

/-- Backwards, the pieces of a natural curve still join smoothly, and their flat ends are
exchanged. -/
theorem NaturalAlong.reverse {points first second : List Rat}
    (h : NaturalAlong points first second) :
    NaturalAlong points.reverse second.reverse first.reverse := by
  have hfirst := h.length_first
  have hsecond := h.length_second
  refine { length_first := by simpa using hsecond, length_second := by simpa using hfirst,
           slope := ?slope, bend := ?bend, stop := ?stop, start := ?start }
  case slope =>
    intro i hi
    rw [List.length_reverse] at hi
    obtain ⟨j, hj⟩ : ∃ j, points.length = i + j + 3 := ⟨points.length - 3 - i, by omega⟩
    have hslope := h.slope j (by omega)
    rw [getElem_reverse_of_add (j := j) (by omega), getElem_reverse_of_add (j := j + 1) (by omega),
      getElem_reverse_of_add (j := j + 1) (by omega)]
    linarith
  case bend =>
    intro i hi
    rw [List.length_reverse] at hi
    obtain ⟨j, hj⟩ : ∃ j, points.length = i + j + 3 := ⟨points.length - 3 - i, by omega⟩
    have hbend := h.bend j (by omega)
    rw [getElem_reverse_of_add (j := j + 1) (by omega),
      getElem_reverse_of_add (j := j + 1) (by omega), getElem_reverse_of_add (j := j) (by omega),
      getElem_reverse_of_add (j := j) (by omega)]
    linarith
  case stop =>
    intro i hi
    rw [List.length_reverse] at hi
    have hstart := h.start (by omega)
    rw [getElem_reverse_of_add (j := 0) (by omega), getElem_reverse_of_add (j := 0) (by omega),
      getElem_reverse_of_add (j := 0) (by omega)]
    linarith
  case start =>
    intro htwo
    rw [List.length_reverse] at htwo
    obtain ⟨j, hj⟩ : ∃ j, points.length = j + 2 := ⟨points.length - 2, by omega⟩
    have hstop := h.stop j hj.symm
    rw [getElem_reverse_of_add (j := j + 1) (by omega), getElem_reverse_of_add (j := j) (by omega),
      getElem_reverse_of_add (j := j) (by omega)]
    linarith

theorem Natural.reverse {points first second : List (Point Rat)} (h : Natural points first second) :
    Natural points.reverse second.reverse first.reverse := by
  constructor
  · simpa only [List.map_reverse] using h.columns.reverse
  · simpa only [List.map_reverse] using h.rows.reverse

/-- From its other end a curve is the same: through the points in reverse order, the first control
points are the second ones from the last piece to the first one, and the other way round. -/
theorem controlPoints_reverse {points : List (Point Rat)} (h : 2 ≤ points.length) :
    (controlPoints points).1.length + 1 = points.length ∧
      (controlPoints points).2.length + 1 = points.length ∧
      controlPoints points.reverse =
        ((controlPoints points).2.reverse, (controlPoints points).1.reverse) ∧
      ∀ i, i + 2 ≤ points.length →
        (controlPoints points.reverse).1[i]? = (controlPoints points).2[points.length - 2 - i]? ∧
        (controlPoints points.reverse).2[i]? =
          (controlPoints points).1[points.length - 2 - i]? := by
  have hnatural : Natural points (controlPoints points).1 (controlPoints points).2 :=
    (controlPoints_eq_iff h).1 rfl
  have hreverse := (controlPoints_eq_iff (by simpa using h)).2 hnatural.reverse
  have hfirst : (controlPoints points).1.length + 1 = points.length := by
    simpa using hnatural.columns.length_first
  have hsecond : (controlPoints points).2.length + 1 = points.length := by
    simpa using hnatural.columns.length_second
  refine ⟨hfirst, hsecond, hreverse, fun i hi => ?_⟩
  rw [hreverse, List.getElem?_reverse (by omega), List.getElem?_reverse (by omega)]
  constructor
  · congr 1
    omega
  · congr 1
    omega

theorem controlPoints_reverse_wave : 2 ≤ wave.length ∧
    controlPoints wave.reverse =
      ([⟨88, 8⟩, ⟨64, -1⟩, ⟨16, 86⟩], [⟨86, -29⟩, ⟨44, 64⟩, ⟨8, 43⟩]) := by
  have htwo : 2 ≤ wave.length := by decide
  have hreverse := (controlPoints_reverse htwo).2.2.1
  rw [controlPoints_wave] at hreverse
  exact ⟨htwo, hreverse⟩

end Reverse

/-! ## Directions -/

section Along

variable {points first second : List (Point Rat)}

/-- A coordinate of the plane along any axis, from any origin. -/
def along (u v w : Rat) (p : Point Rat) : Rat := u * p.x + v * p.y + w

/-- Control points are natural along all axes, for the conditions are linear and hold of points
that are all equal. -/
theorem Natural.along (h : Natural points first second) (u v w : Rat) :
    NaturalAlong (points.map (Spline.along u v w)) (first.map (Spline.along u v w))
      (second.map (Spline.along u v w)) := by
  have hfirst : first.length + 1 = points.length := by simpa using h.columns.length_first
  have hsecond : second.length + 1 = points.length := by simpa using h.columns.length_second
  refine { length_first := by simpa using hfirst, length_second := by simpa using hsecond,
           slope := ?slope, bend := ?bend, stop := ?stop, start := ?start }
  case slope =>
    intro i hi
    rw [List.length_map] at hi
    have hx := h.columns.slope i (by simpa using hi)
    have hy := h.rows.slope i (by simpa using hi)
    simp only [List.getElem_map, Spline.along] at hx hy ⊢
    linear_combination u * hx + v * hy
  case bend =>
    intro i hi
    rw [List.length_map] at hi
    have hx := h.columns.bend i (by simpa using hi)
    have hy := h.rows.bend i (by simpa using hi)
    simp only [List.getElem_map, Spline.along] at hx hy ⊢
    linear_combination u * hx + v * hy
  case stop =>
    intro i hi
    rw [List.length_map] at hi
    have hx := h.columns.stop i (by simpa using hi)
    have hy := h.rows.stop i (by simpa using hi)
    simp only [List.getElem_map, Spline.along] at hx hy ⊢
    linear_combination u * hx + v * hy
  case start =>
    intro htwo
    rw [List.length_map] at htwo
    have hx := h.columns.start (by simpa using htwo)
    have hy := h.rows.start (by simpa using htwo)
    simp only [List.getElem_map, Spline.along] at hx hy ⊢
    linear_combination u * hx + v * hy

end Along

/-! ## Affine maps -/

/-- An affine map of the plane: what it adds to both coordinates for each unit of `x` and of `y`,
and where it takes the origin. -/
structure Affine where
  alongX : Point Rat
  alongY : Point Rat
  origin : Point Rat

instance : CoeFun Affine fun _ => Point Rat → Point Rat where
  coe f p := ⟨along f.alongX.x f.alongY.x f.origin.x p, along f.alongX.y f.alongY.y f.origin.y p⟩

section Maps

variable {points first second : List (Point Rat)}

theorem Natural.map (h : Natural points first second) (f : Affine) :
    Natural (points.map f) (first.map f) (second.map f) := by
  constructor
  · rw [List.map_map, List.map_map, List.map_map]
    exact h.along f.alongX.x f.alongY.x f.origin.x
  · rw [List.map_map, List.map_map, List.map_map]
    exact h.along f.alongX.y f.alongY.y f.origin.y

end Maps

/-! ## Lines -/

section Lines

variable {points first second : List (Point Rat)}

/-- Equal numbers have themselves for natural control points. -/
theorem naturalAlong_replicate (n : Nat) (w : Rat) :
    NaturalAlong (List.replicate (n + 1) w) (List.replicate n w) (List.replicate n w) := by
  refine { length_first := by simp, length_second := by simp, slope := ?slope, bend := ?bend,
           stop := ?stop, start := ?start }
  case slope =>
    intro i hi
    simp only [List.getElem_replicate]
    ring
  case bend =>
    intro i hi
    simp only [List.getElem_replicate]
  case stop =>
    intro i hi
    simp only [List.getElem_replicate]
    ring
  case start =>
    intro htwo
    simp only [List.getElem_replicate]
    ring

/-- Natural control points of points on a line are on that line. -/
theorem Natural.on_line (h : Natural points first second) (htwo : 2 ≤ points.length) {u v w : Rat}
    (hline : ∀ p ∈ points, u * p.x + v * p.y = w) :
    ∀ p ∈ first ++ second, u * p.x + v * p.y = w := by
  obtain ⟨n, hn⟩ : ∃ n, points.length = n + 1 := ⟨points.length - 1, by omega⟩
  have hdirection := h.along u v 0
  have hconstant : points.map (Spline.along u v 0) = List.replicate (n + 1) w := by
    rw [List.eq_replicate_iff, List.length_map]
    refine ⟨hn, fun number hnumber => ?_⟩
    obtain ⟨p, hp, rfl⟩ := List.mem_map.1 hnumber
    rw [Spline.along, add_zero, hline p hp]
  -- across the line all points have one coordinate, which only equal control points go with
  rw [hconstant, ← controls_eq_iff (by simp; omega),
    (controls_eq_iff (by simp; omega)).2 (naturalAlong_replicate n w)] at hdirection
  obtain ⟨hfirst, hsecond⟩ := Prod.mk.inj hdirection
  intro p hp
  have hmem : Spline.along u v 0 p ∈ (first ++ second).map (Spline.along u v 0) :=
    List.mem_map_of_mem hp
  rw [List.map_append, ← hfirst, ← hsecond] at hmem
  have hacross : Spline.along u v 0 p = w := by
    rcases List.mem_append.1 hmem with hmem | hmem
    · exact List.eq_of_mem_replicate hmem
    · exact List.eq_of_mem_replicate hmem
  rw [Spline.along, add_zero] at hacross
  exact hacross

/-- Two thirds of one number and one third of the other. -/
def third (a b : Rat) : Rat := (2 * a + b) / 3

/-- Numbers at even distances have the thirds between them for natural control points. -/
theorem naturalAlong_third {numbers : List Rat} (htwo : 2 ≤ numbers.length)
    (heven : ∀ i, (h : i + 2 < numbers.length) →
      numbers[i] + numbers[i + 2] = 2 * numbers[i + 1]) :
    NaturalAlong numbers (List.zipWith third numbers numbers.tail)
      (List.zipWith (fun a b => third b a) numbers numbers.tail) := by
  refine { length_first := by simp; omega, length_second := by simp; omega, slope := ?slope,
           bend := ?bend, stop := ?stop, start := ?start }
  case slope =>
    intro i hi
    have hstep := heven i hi
    simp only [List.getElem_zipWith, List.getElem_tail, third]
    linear_combination hstep / 3
  case bend =>
    intro i _
    simp only [List.getElem_zipWith, List.getElem_tail, third]
    ring
  case stop =>
    intro i _
    simp only [List.getElem_zipWith, List.getElem_tail, third]
    ring
  case start =>
    intro _
    simp only [List.getElem_zipWith, List.getElem_tail, third]
    ring

/-- Points each of which is in the middle between its neighbours: they are on a line, at even
distances. -/
def EvenlySpaced (points : List (Point Rat)) : Prop :=
  ∀ i, (h : i + 2 < points.length) →
    points[i].x + points[i + 2].x = 2 * points[i + 1].x ∧
      points[i].y + points[i + 2].y = 2 * points[i + 1].y

/-- The point at a third of the way from one point to the other. -/
def thirdOfWay (p q : Point Rat) : Point Rat := ⟨third p.x q.x, third p.y q.y⟩

theorem EvenlySpaced.natural (h : EvenlySpaced points) (htwo : 2 ≤ points.length) :
    Natural points (List.zipWith thirdOfWay points points.tail)
      (List.zipWith (fun p q => thirdOfWay q p) points points.tail) := by
  have hcolumns : NaturalAlong (points.map (·.x)) _ _ :=
    naturalAlong_third (by simpa using htwo) fun i hi => by
      simpa only [List.getElem_map] using (h i (by simpa using hi)).1
  have hrows : NaturalAlong (points.map (·.y)) _ _ :=
    naturalAlong_third (by simpa using htwo) fun i hi => by
      simpa only [List.getElem_map] using (h i (by simpa using hi)).2
  simp only [← List.map_tail, List.zipWith_map] at hcolumns hrows
  constructor
  · rw [List.map_zipWith, List.map_zipWith]
    exact hcolumns
  · rw [List.map_zipWith, List.map_zipWith]
    exact hrows

end Lines

/-! ## Computed control points -/

/-- The control points follow every affine map of their points.  They are on each line that all
points are on, and those of evenly spaced points are at the thirds of the segments. -/
theorem controlPoints_affine {points : List (Point Rat)} (h : 2 ≤ points.length) :
    (∀ f : Affine, controlPoints (points.map f) =
      ((controlPoints points).1.map f, (controlPoints points).2.map f)) ∧
      (∀ u v w : Rat, (∀ p ∈ points, u * p.x + v * p.y = w) →
        ∀ p ∈ (controlPoints points).1 ++ (controlPoints points).2, u * p.x + v * p.y = w) ∧
      (EvenlySpaced points → controlPoints points =
        (List.zipWith thirdOfWay points points.tail,
          List.zipWith (fun p q => thirdOfWay q p) points points.tail)) := by
  have hnatural : Natural points (controlPoints points).1 (controlPoints points).2 :=
    (controlPoints_eq_iff h).1 rfl
  refine ⟨fun f => ?_, fun u v w hline => ?_, fun heven => ?_⟩
  · exact (controlPoints_eq_iff (by simpa using h)).2 (hnatural.map f)
  · exact hnatural.on_line h hline
  · exact (controlPoints_eq_iff h).2 (heven.natural h)

/-- Four points up a ramp. -/
def ramp : List (Point Rat) := [⟨0, 1⟩, ⟨15, 4⟩, ⟨30, 7⟩, ⟨45, 10⟩]

/-- A turn by a quarter that also shears and moves. -/
def twist : Affine := { alongX := ⟨0, 1⟩, alongY := ⟨-1, 2⟩, origin := ⟨5, 0⟩ }

theorem controlPoints_affine_ramp : 2 ≤ ramp.length ∧
    controlPoints (ramp.map twist) =
      ((controlPoints ramp).1.map twist, (controlPoints ramp).2.map twist) ∧
    (∀ p ∈ (controlPoints ramp).1 ++ (controlPoints ramp).2, 1 * p.x + -5 * p.y = -5) ∧
    controlPoints ramp =
      ([⟨5, 2⟩, ⟨20, 5⟩, ⟨35, 8⟩], [⟨10, 3⟩, ⟨25, 6⟩, ⟨40, 9⟩]) := by
  have htwo : 2 ≤ ramp.length := by decide
  obtain ⟨hmap, hline, heven⟩ := controlPoints_affine htwo
  refine ⟨htwo, hmap twist, hline 1 (-5) (-5) (by decide +kernel), ?_⟩
  have hspaced : EvenlySpaced ramp := by
    intro i hi
    have hcase : i = 0 ∨ i = 1 := by simp [ramp] at hi; omega
    rcases hcase with rfl | rfl
    · norm_num [ramp]
    · norm_num [ramp]
  rw [heven hspaced]
  decide +kernel

end Spline
end CellSketch
