import Mathlib.Algebra.Polynomial.Derivative
import CellSketch.Proofs.Spline.Elimination

/-!
# Natural — the control points of a natural cubic spline

Along each coordinate, the pieces of a curve are cubic Bezier polynomials.  Where two pieces meet
they have equal first and second derivatives, and both ends of the curve are flat.  Over the
rationals these conditions have exactly one solution, and it is the one that is computed.

* `NaturalAlong`, `Natural` — the conditions on the control points;
* `naturalAlong_iff_derivatives` — they say that the pieces have equal derivatives;
* `controls_eq_iff` — along one coordinate, the computed control points are the only ones;
* `controlPoints_natural` — so they are in the plane.
-/

namespace CellSketch
namespace Spline

open Number

/-! ## The conditions -/

/-- Pieces over the given points that join with equal first and second derivative, the last of which
has no second derivative at its end. -/
structure SmoothAlong (points first second : List Rat) : Prop where
  length_first : first.length + 1 = points.length
  length_second : second.length + 1 = points.length
  slope : ∀ i, (h : i + 2 < points.length) → first[i + 1] + second[i] = 2 * points[i + 1]
  bend : ∀ i, (h : i + 2 < points.length) →
    first[i] - 2 * second[i] = second[i + 1] - 2 * first[i + 1]
  stop : ∀ i, (h : i + 2 = points.length) → first[i] - 2 * second[i] + points[i + 1] = 0

/-- Pieces that join smoothly and have no second derivative at either end of the curve. -/
structure NaturalAlong (points first second : List Rat) : Prop
    extends SmoothAlong points first second where
  start : (h : 2 ≤ points.length) → points[0] - (2 : Rat) * first[0] + second[0] = 0

/-- Control points in the plane that are natural along both coordinates. -/
structure Natural (points first second : List (Point Rat)) : Prop where
  columns : NaturalAlong (points.map (·.x)) (first.map (·.x)) (second.map (·.x))
  rows : NaturalAlong (points.map (·.y)) (first.map (·.y)) (second.map (·.y))

/-! ## Bezier pieces -/

section Derivatives

open Polynomial

/-- One coordinate of a cubic Bezier piece from `a` to `d` with the control points `b` and `c`. -/
noncomputable def bezier (a b c d : Rat) : Rat[X] :=
  C a * (1 - X) ^ 3 + C (3 * b) * (X * (1 - X) ^ 2) + C (3 * c) * (X ^ 2 * (1 - X)) + C d * X ^ 3

variable (a b c d t : Rat)

theorem eval_derivative_bezier : (derivative (bezier a b c d)).eval t =
    3 * ((b - a) * (1 - t) ^ 2 + 2 * (c - b) * (t * (1 - t)) + (d - c) * t ^ 2) := by
  simp [bezier, derivative_pow]
  ring

theorem eval_derivative₂_bezier : (derivative (derivative (bezier a b c d))).eval t =
    6 * ((a - 2 * b + c) * (1 - t) + (b - 2 * c + d) * t) := by
  simp [bezier, derivative_pow]
  ring

variable {points first second : List Rat}

/-- Natural control points are those of pieces whose first and second derivatives agree where they
meet, and whose second derivatives vanish at both ends of the curve. -/
theorem naturalAlong_iff_derivatives (hfirst : first.length + 1 = points.length)
    (hsecond : second.length + 1 = points.length) :
    NaturalAlong points first second ↔
      (∀ i, (h : i + 2 < points.length) →
        (derivative (bezier points[i] first[i] second[i] points[i + 1])).eval 1 =
            (derivative (bezier points[i + 1] first[i + 1] second[i + 1] points[i + 2])).eval 0 ∧
          (derivative (derivative (bezier points[i] first[i] second[i] points[i + 1]))).eval 1 =
            (derivative (derivative
              (bezier points[i + 1] first[i + 1] second[i + 1] points[i + 2]))).eval 0) ∧
        ((h : 2 ≤ points.length) →
          (derivative (derivative (bezier points[0] first[0] second[0] points[1]))).eval 0 = 0) ∧
        ∀ i, (h : i + 2 = points.length) →
          (derivative (derivative (bezier points[i] first[i] second[i] points[i + 1]))).eval 1 =
            0 := by
  simp only [eval_derivative_bezier, eval_derivative₂_bezier]
  constructor
  · intro hnatural
    refine ⟨fun i hi => ?_, fun htwo => ?_, fun i hi => ?_⟩
    · have hslope := hnatural.slope i hi
      have hbend := hnatural.bend i hi
      constructor <;> linarith
    · have hstart := hnatural.start htwo
      linarith
    · have hstop := hnatural.stop i hi
      linarith
  · rintro ⟨hjoins, hstart, hstop⟩
    refine { length_first := hfirst, length_second := hsecond, slope := ?slope, bend := ?bend,
             stop := ?stop, start := ?start }
    case slope =>
      intro i hi
      have hjoin := (hjoins i hi).1
      linarith
    case bend =>
      intro i hi
      have hslope := (hjoins i hi).1
      have hbend := (hjoins i hi).2
      linarith
    case stop =>
      intro i hi
      have hflat := hstop i hi
      linarith
    case start =>
      intro htwo
      have hflat := hstart htwo
      linarith

end Derivatives

/-! ## Smooth pieces as rows of the system -/

section Rows

variable {p q r a a' b b' : Rat} {rest first second : List Rat}

theorem smoothAlong_pair : SmoothAlong [p, q] [a] [b] ↔ a - 2 * b + q = 0 := by
  constructor
  · intro hsmooth
    exact hsmooth.stop 0 rfl
  · intro hstop
    refine ⟨rfl, rfl, fun i hi => ?_, fun i hi => ?_, fun i hi => ?_⟩
    · exact absurd hi (by simp)
    · exact absurd hi (by simp)
    · obtain rfl : i = 0 := by simpa using hi
      exact hstop

/-- Smoothness is that of the first joint and of the pieces behind it. -/
theorem smoothAlong_cons :
    SmoothAlong (p :: q :: r :: rest) (a :: a' :: first) (b :: b' :: second) ↔
      (a' + b = 2 * q ∧ a - 2 * b = b' - 2 * a') ∧
        SmoothAlong (q :: r :: rest) (a' :: first) (b' :: second) := by
  constructor
  · intro hsmooth
    refine ⟨⟨hsmooth.slope 0 (by simp), hsmooth.bend 0 (by simp)⟩, ?_⟩
    -- every other joint moves up by one place
    exact
      { length_first := Nat.succ.inj hsmooth.length_first
        length_second := Nat.succ.inj hsmooth.length_second
        slope := fun i hi => hsmooth.slope (i + 1) (Nat.succ_lt_succ hi)
        bend := fun i hi => hsmooth.bend (i + 1) (Nat.succ_lt_succ hi)
        stop := fun i hi => hsmooth.stop (i + 1) (congrArg Nat.succ hi) }
  · rintro ⟨⟨hslope, hbend⟩, hsmooth⟩
    refine { length_first := congrArg Nat.succ hsmooth.length_first,
             length_second := congrArg Nat.succ hsmooth.length_second, slope := ?slope,
             bend := ?bend, stop := ?stop }
    case slope =>
      intro i hi
      cases i with
      | zero => exact hslope
      | succ i => exact hsmooth.slope i (Nat.lt_of_succ_lt_succ hi)
    case bend =>
      intro i hi
      cases i with
      | zero => exact hbend
      | succ i => exact hsmooth.bend i (Nat.lt_of_succ_lt_succ hi)
    case stop =>
      intro i hi
      cases i with
      | zero => exact absurd hi (by simp)
      | succ i => exact hsmooth.stop i (Nat.succ.inj hi)

theorem innerRows_pair : innerRows [q, r] = [(8 * q + r) / 2] := rfl

theorem innerRows_cons :
    innerRows (p :: q :: r :: rest) = (4 * p + 2 * q) :: innerRows (q :: r :: rest) := rfl

theorem diagonal_innerRows : diagonal (innerRows (q :: r :: rest)) = 4 := by
  cases rest <;> rfl

theorem seconds_pair : seconds [q, r] [a, a'] = [2 * q - a', (r + a') / 2] := rfl

theorem seconds_cons : seconds (q :: r :: rest) (a :: a' :: first) =
    (2 * q - a') :: seconds (r :: rest) (a' :: first) := rfl

theorem exists_cons_of_rowsBelow (h : RowsBelow (innerRows (q :: r :: rest)) a first) :
    ∃ y ys, first = y :: ys := by
  cases first with
  | nil => cases rest <;> exact h.elim
  | cons y ys => exact ⟨y, ys, rfl⟩

/-- First control points that satisfy the rows below the first one make the pieces behind the first
point smooth, with the second control points that go with them. -/
theorem smoothAlong_of_rowsBelow (h : RowsBelow (innerRows (q :: r :: rest)) a first) :
    SmoothAlong (p :: q :: r :: rest) (a :: first) (seconds (q :: r :: rest) (a :: first)) := by
  induction rest generalizing p q r a first with
  | nil =>
      rw [innerRows_pair] at h
      match first, h with
      | [a'], ⟨hrow, _⟩ =>
          simp only [diagonal, List.isEmpty_nil, if_true, List.headD_nil] at hrow
          rw [seconds_pair, smoothAlong_cons, smoothAlong_pair]
          refine ⟨⟨?_, ?_⟩, ?_⟩ <;> linarith
  | cons s rest ih =>
      rw [innerRows_cons] at h
      match first, h with
      | a' :: first, ⟨hrow, hrows⟩ =>
          have hrest := ih (p := q) hrows
          -- the second control point of the next piece shows the unknown behind it
          obtain ⟨a'', first, rfl⟩ := exists_cons_of_rowsBelow hrows
          rw [diagonal_innerRows, List.headD_cons] at hrow
          rw [seconds_cons] at hrest ⊢
          rw [seconds_cons, smoothAlong_cons]
          refine ⟨⟨?_, ?_⟩, hrest⟩ <;> linarith

/-- If the pieces behind the first point are smooth, then their first control points satisfy the
rows below the first one, and their second control points go with them. -/
theorem rowsBelow_of_smoothAlong (h : SmoothAlong (p :: q :: r :: rest) (a :: first) second) :
    RowsBelow (innerRows (q :: r :: rest)) a first ∧
      second = seconds (q :: r :: rest) (a :: first) := by
  induction rest generalizing p q r a first second with
  | nil =>
      obtain ⟨a', rfl⟩ := List.length_eq_one_iff.1 (by simpa using h.length_first)
      obtain ⟨b, b', rfl⟩ := List.length_eq_two.1 (by simpa using h.length_second)
      rw [smoothAlong_cons, smoothAlong_pair] at h
      obtain ⟨⟨hslope, hbend⟩, hstop⟩ := h
      have hb : b = 2 * q - a' := by linarith
      have hb' : b' = (r + a') / 2 := by linarith
      rw [innerRows_pair, seconds_pair, hb, hb']
      refine ⟨⟨?_, trivial⟩, rfl⟩
      simp only [diagonal, List.isEmpty_nil, if_true, List.headD_nil]
      linarith
  | cons s rest ih =>
      obtain ⟨a', first, rfl⟩ := List.exists_cons_of_length_eq_add_one
        (Nat.succ.inj (Nat.succ.inj h.length_first))
      obtain ⟨b, second, rfl⟩ := List.exists_cons_of_length_eq_add_one
        (Nat.succ.inj h.length_second)
      obtain ⟨b', second, rfl⟩ := List.exists_cons_of_length_eq_add_one
        (Nat.succ.inj (Nat.succ.inj h.length_second))
      rw [smoothAlong_cons] at h
      obtain ⟨⟨hslope, hbend⟩, hsmooth⟩ := h
      obtain ⟨hrows, hsecond⟩ := ih hsmooth
      obtain ⟨a'', first, rfl⟩ := exists_cons_of_rowsBelow hrows
      rw [seconds_cons] at hsecond ⊢
      obtain ⟨hb', hrest⟩ := List.cons.inj hsecond
      have hb : b = 2 * q - a' := by linarith
      rw [innerRows_cons]
      refine ⟨⟨?_, hrows⟩, by rw [hb, hsecond, seconds_cons]⟩
      rw [diagonal_innerRows, List.headD_cons]
      linarith

end Rows

/-! ## Control points -/

section Controls

variable {p q r a b : Rat} {rest first second : List Rat}

theorem naturalAlong_iff :
    NaturalAlong (p :: q :: rest) (a :: first) (b :: second) ↔
      p - 2 * a + b = 0 ∧ SmoothAlong (p :: q :: rest) (a :: first) (b :: second) := by
  constructor
  · intro h
    exact ⟨h.start (by simp), h.toSmoothAlong⟩
  · rintro ⟨hstart, hsmooth⟩
    exact { hsmooth with start := fun _ => hstart }

/-- Natural control points begin with those of a first piece. -/
theorem NaturalAlong.exists_cons {points : List Rat} (h : NaturalAlong points first second)
    (htwo : 2 ≤ points.length) :
    ∃ a as b bs, first = a :: as ∧ second = b :: bs := by
  have hfirst := h.length_first
  have hsecond := h.length_second
  obtain ⟨a, as, ha⟩ := List.exists_cons_of_length_pos (l := first) (by omega)
  obtain ⟨b, bs, hb⟩ := List.exists_cons_of_length_pos (l := second) (by omega)
  exact ⟨a, as, b, bs, ha, hb⟩

/-- Two points are joined by the thirds of the line between them. -/
theorem controls_pair_eq_iff :
    controls [p, q] = (first, second) ↔ NaturalAlong [p, q] first second := by
  have hcontrols : controls [p, q] = ([(2 * p + q) / 3], [2 * ((2 * p + q) / 3) - p]) := rfl
  rw [hcontrols]
  constructor
  · intro h
    obtain ⟨rfl, rfl⟩ := Prod.mk.inj h
    rw [naturalAlong_iff, smoothAlong_pair]
    constructor <;> linarith
  · intro h
    obtain ⟨a, rfl⟩ := List.length_eq_one_iff.1 (by simpa using h.length_first)
    obtain ⟨b, rfl⟩ := List.length_eq_one_iff.1 (by simpa using h.length_second)
    rw [naturalAlong_iff, smoothAlong_pair] at h
    obtain ⟨hstart, hstop⟩ := h
    have ha : (2 * p + q) / 3 = a := by linarith
    have hb : 2 * a - p = b := by linarith
    rw [ha, hb]

/-- Three points and more are joined as the system says. -/
theorem controls_cons_eq_iff : controls (p :: q :: r :: rest) = (first, second) ↔
    NaturalAlong (p :: q :: r :: rest) first second := by
  have hcontrols : controls (p :: q :: r :: rest) =
      (solve ((p + 2 * q) :: innerRows (q :: r :: rest)),
        seconds (q :: r :: rest) (solve ((p + 2 * q) :: innerRows (q :: r :: rest)))) := rfl
  rw [hcontrols]
  constructor
  · intro h
    obtain ⟨hsolve, hseconds⟩ := Prod.mk.inj h
    rw [hsolve] at hseconds
    rw [solve_eq_iff] at hsolve
    match first, hsolve with
    | a :: first, ⟨hrow, hrows⟩ =>
        have hsmooth := smoothAlong_of_rowsBelow (p := p) hrows
        obtain ⟨a', first, rfl⟩ := exists_cons_of_rowsBelow hrows
        rw [seconds_cons] at hseconds hsmooth
        rw [← hseconds, naturalAlong_iff]
        rw [List.headD_cons] at hrow
        refine ⟨?_, hsmooth⟩
        linarith
  · intro h
    obtain ⟨a, first, b, second, rfl, rfl⟩ := h.exists_cons (by simp)
    obtain ⟨hrows, hsecond⟩ := rowsBelow_of_smoothAlong h.toSmoothAlong
    have hstart := (naturalAlong_iff.1 h).1
    obtain ⟨a', first, rfl⟩ := exists_cons_of_rowsBelow hrows
    -- the flat start is the first row, with the second control point put in
    have hrow : 2 * a + a' = p + 2 * q := by
      rw [seconds_cons] at hsecond
      have hb := (List.cons.inj hsecond).1
      linarith
    have hsolve : solve ((p + 2 * q) :: innerRows (q :: r :: rest)) = a :: a' :: first :=
      solve_eq_iff.2 ⟨hrow, hrows⟩
    rw [hsolve, ← hsecond]

/-- Along one coordinate, the computed control points are natural, and no others are. -/
theorem controls_eq_iff {points : List Rat} (h : 2 ≤ points.length) :
    controls points = (first, second) ↔ NaturalAlong points first second := by
  match points, h with
  | [p, q], _ => exact controls_pair_eq_iff
  | p :: q :: r :: rest, _ => exact controls_cons_eq_iff

theorem controls_natural {points : List Rat} (h : 2 ≤ points.length) :
    NaturalAlong points (controls points).1 (controls points).2 :=
  (controls_eq_iff h).1 rfl

end Controls

/-! ## The plane -/

section Plane

variable {xs ys : List Rat}

theorem zipWith_mk_map (points : List (Point Rat)) :
    List.zipWith Point.mk (points.map (·.x)) (points.map (·.y)) = points := by
  simp

theorem map_zipWith_mk (h : xs.length = ys.length) :
    (List.zipWith Point.mk xs ys).map (·.x) = xs ∧
      (List.zipWith Point.mk xs ys).map (·.y) = ys := by
  simp only [List.map_zipWith]
  induction xs generalizing ys with
  | nil =>
      rw [List.length_nil, eq_comm, List.length_eq_zero_iff] at h
      simp [h]
  | cons x xs ih =>
      obtain ⟨y, ys, rfl⟩ := List.exists_cons_of_length_eq_add_one h.symm
      obtain ⟨hxs, hys⟩ := ih (Nat.succ.inj h)
      simp [hxs, hys]

/-- In the plane too, the computed control points are natural, and no others are. -/
theorem controlPoints_eq_iff {points first second : List (Point Rat)} (h : 2 ≤ points.length) :
    controlPoints points = (first, second) ↔ Natural points first second := by
  have hx : 2 ≤ (points.map (·.x)).length := by simpa using h
  have hy : 2 ≤ (points.map (·.y)).length := by simpa using h
  constructor
  · intro hpoints
    have hcolumns := controls_natural hx
    have hrows := controls_natural hy
    -- both coordinates have equally many control points, so none is lost in the points
    have hcount : (points.map (·.x)).length = (points.map (·.y)).length := by simp
    obtain ⟨hfirstX, hfirstY⟩ := map_zipWith_mk
      (Nat.succ.inj (hcolumns.length_first.trans (hcount.trans hrows.length_first.symm)))
    obtain ⟨hsecondX, hsecondY⟩ := map_zipWith_mk
      (Nat.succ.inj (hcolumns.length_second.trans (hcount.trans hrows.length_second.symm)))
    obtain ⟨hfirst, hsecond⟩ := Prod.mk.inj hpoints
    rw [← hfirst, ← hsecond]
    constructor
    · rw [hfirstX, hsecondX]
      exact hcolumns
    · rw [hfirstY, hsecondY]
      exact hrows
  · intro hnatural
    rw [controlPoints, (controls_eq_iff hx).2 hnatural.columns,
      (controls_eq_iff hy).2 hnatural.rows]
    dsimp only
    rw [zipWith_mk_map, zipWith_mk_map]

/-- The control points that are computed are those of the natural cubic spline: both lists have one
entry less than there are points, each two neighbouring pieces have equal first and second
derivatives where they meet, and the second derivative vanishes at both ends.  There are no others
like them. -/
theorem controlPoints_natural (points : List (Point Rat)) (h : 2 ≤ points.length) :
    Natural points (controlPoints points).1 (controlPoints points).2 ∧
      ∀ first second, Natural points first second → (first, second) = controlPoints points := by
  constructor
  · exact (controlPoints_eq_iff h).1 rfl
  · intro first second hnatural
    exact ((controlPoints_eq_iff h).2 hnatural).symm

/-- Up, down and up again, over uneven steps. -/
def wave : List (Point Rat) := [⟨0, 0⟩, ⟨30, 75⟩, ⟨75, -15⟩, ⟨90, 45⟩]

theorem controlPoints_wave : controlPoints wave =
    ([⟨8, 43⟩, ⟨44, 64⟩, ⟨86, -29⟩], [⟨16, 86⟩, ⟨64, -1⟩, ⟨88, 8⟩]) := by
  decide +kernel

theorem wave_natural : 2 ≤ wave.length ∧
    Natural wave [⟨8, 43⟩, ⟨44, 64⟩, ⟨86, -29⟩] [⟨16, 86⟩, ⟨64, -1⟩, ⟨88, 8⟩] ∧
      ∀ first second, Natural wave first second →
        (first, second) =
          ([⟨8, 43⟩, ⟨44, 64⟩, ⟨86, -29⟩], [⟨16, 86⟩, ⟨64, -1⟩, ⟨88, 8⟩]) := by
  have htwo : 2 ≤ wave.length := by decide
  have hnatural := controlPoints_natural wave htwo
  rw [controlPoints_wave] at hnatural
  exact ⟨htwo, hnatural⟩

end Plane

end Spline
end CellSketch
