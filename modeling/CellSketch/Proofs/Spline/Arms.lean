import Mathlib.Data.Finset.Max
import Mathlib.Data.List.GetD
import CellSketch.Proofs.Spline.Natural

/-!
# Arms — how far control points stand off the points of a spline

The control points of a natural spline are solved from all points together.  The arms of its pieces,
from the points to the control points next to them, satisfy a system with a dominant diagonal.  Put
into itself once, it shrinks any bound on the arms toward two thirds of the longest step between
neighbouring points.

* `ArmRows` — the system for the arms along one coordinate;
* `ArmRows.abs_arm_le` — they are no longer than two thirds of the longest step;
* `NaturalAlong.arms_le` — so are the arms of a natural spline;
* `stride` — the longest step between whole coordinates.
-/

namespace CellSketch
namespace Spline

/-! ## Arms -/

/-- The system for the arms at the ends of `n + 1` pieces with the given steps: flat where the curve
ends, and equally long on both sides of a point in between. -/
structure ArmRows (n : Nat) (step arm : Nat → Rat) : Prop where
  start : 2 * arm 0 + arm 1 = step 0
  joint : ∀ i < n, arm i + 4 * arm (i + 1) + arm (i + 2) = step i + step (i + 1)
  stop : arm n + 2 * arm (n + 1) = step n

namespace ArmRows

variable {n : Nat} {step arm : Nat → Rat} {J m : Rat}

section Shrinking

variable (R : ArmRows n step arm) (hstep : ∀ i ≤ n, |step i| ≤ J) (harm : ∀ i ≤ n + 1, |arm i| ≤ m)
include R hstep harm

/-- The row of the point before a piece. -/
theorem before {i : Nat} (hi : i ≤ n) : |4 * arm i + arm (i + 1) - step i| ≤ J + m := by
  cases i with
  | zero =>
      have hrow : 4 * arm 0 + arm 1 - step 0 = step 0 - arm 1 := by linarith [R.start]
      rw [hrow]
      exact (abs_sub _ _).trans (add_le_add (hstep 0 hi) (harm 1 (by omega)))
  | succ i =>
      have hrow : 4 * arm (i + 1) + arm (i + 2) - step (i + 1) = step i - arm i := by
        linarith [R.joint i hi]
      rw [hrow]
      exact (abs_sub _ _).trans (add_le_add (hstep i (by omega)) (harm i (by omega)))

/-- The row of the point behind a piece. -/
theorem behind {i : Nat} (hi : i ≤ n) : |arm i + 4 * arm (i + 1) - step i| ≤ J + m := by
  rcases hi.eq_or_lt with rfl | hi
  · have hrow : arm i + 4 * arm (i + 1) - step i = step i - arm i := by linarith [R.stop]
    rw [hrow]
    exact (abs_sub _ _).trans (add_le_add (hstep i le_rfl) (harm i (by omega)))
  · have hrow : arm i + 4 * arm (i + 1) - step i = step (i + 1) - arm (i + 2) := by
      linarith [R.joint i hi]
    rw [hrow]
    exact (abs_sub _ _).trans (add_le_add (hstep (i + 1) hi) (harm (i + 2) (by omega)))

/-- A bound on the arms shrinks when the rows of the neighbours are put into the row of a point. -/
theorem shrinks {i : Nat} (hi : i ≤ n + 1) : 7 * |arm i| ≤ 4 * J + m := by
  have hpart {s x : Rat} (hs : |s| ≤ J) (hx : |x| ≤ J + m) : |3 * s - x| ≤ 4 * J + m := by
    have hle := abs_sub (3 * s) x
    rw [abs_mul, abs_of_pos (by norm_num : (0 : Rat) < 3)] at hle
    linarith
  have hseven : 7 * |arm i| = |7 * arm i| := by
    rw [abs_mul, abs_of_pos (by norm_num : (0 : Rat) < 7)]
  rw [hseven]
  rcases i with _ | i
  · have hrow : 7 * arm 0 = 3 * step 0 - (arm 0 + 4 * arm 1 - step 0) := by linarith [R.start]
    rw [hrow]
    exact hpart (hstep 0 n.zero_le) (R.behind hstep harm n.zero_le)
  · rcases (Nat.le_of_succ_le_succ hi).eq_or_lt with rfl | hi
    · have hrow : 7 * arm (i + 1) = 3 * step i - (4 * arm i + arm (i + 1) - step i) := by
        linarith [R.stop]
      rw [hrow]
      exact hpart (hstep i le_rfl) (R.before hstep harm le_rfl)
    · -- between two neighbours, twice the sum is the sum of both parts
      have hrow : 7 * arm (i + 1) =
          ((3 * step i - (4 * arm i + arm (i + 1) - step i)) +
            (3 * step (i + 1) - (arm (i + 1) + 4 * arm (i + 2) - step (i + 1)))) / 2 := by
        linarith [R.joint i hi]
      have hbefore := abs_le.1 (hpart (hstep i hi.le) (R.before hstep harm hi.le))
      have hbehind := abs_le.1 (hpart (hstep (i + 1) hi) (R.behind hstep harm hi))
      rw [hrow, abs_le]
      constructor <;> linarith

end Shrinking

/-- The arms are no longer than two thirds of the longest step. -/
theorem abs_arm_le (R : ArmRows n step arm) (hstep : ∀ i ≤ n, |step i| ≤ J) {i : Nat}
    (hi : i ≤ n + 1) : |arm i| ≤ 2 / 3 * J := by
  obtain ⟨k, hk, hlongest⟩ := (Finset.range (n + 2)).exists_max_image (|arm ·|) ⟨0, by simp⟩
  have harm : ∀ j ≤ n + 1, |arm j| ≤ |arm k| := fun j hj =>
    hlongest j (Finset.mem_range.2 (by omega))
  have hshrinks := R.shrinks hstep harm (Nat.le_of_lt_succ (Finset.mem_range.1 hk))
  have hle := harm i hi
  linarith

end ArmRows

/-! ## Natural splines -/

section Natural

variable {points first second : List Rat}

/-- The step from a point to the next one. -/
def stepAt (points : List Rat) (i : Nat) : Rat := points.getD (i + 1) 0 - points.getD i 0

/-- The arm before a point, and the arm behind the first one. -/
def armAt (points first second : List Rat) : Nat → Rat
  | 0 => first.getD 0 0 - points.getD 0 0
  | i + 1 => points.getD (i + 1) 0 - second.getD i 0

/-- Where pieces meet, both arms are equally long. -/
theorem SmoothAlong.armAt_eq (h : SmoothAlong points first second) {i : Nat}
    (hi : i + 1 < points.length) :
    armAt points first second i = first.getD i 0 - points.getD i 0 := by
  cases i with
  | zero => rfl
  | succ i =>
      have hfirst := h.length_first
      have hsecond := h.length_second
      have hslope := h.slope i hi
      rw [armAt, List.getD_eq_getElem points 0 (by omega), List.getD_eq_getElem first 0 (by omega),
        List.getD_eq_getElem second 0 (by omega)]
      linarith

theorem NaturalAlong.armRows {n : Nat} (h : NaturalAlong points first second)
    (hn : points.length = n + 2) : ArmRows n (stepAt points) (armAt points first second) := by
  have hfirst := h.length_first
  have hsecond := h.length_second
  have hpoint (i : Nat) (hi : i < n + 2) : points.getD i 0 = points[i] :=
    List.getD_eq_getElem points 0 (by omega)
  have hcontrol (i : Nat) (hi : i < n + 1) :
      first.getD i 0 = first[i] ∧ second.getD i 0 = second[i] :=
    ⟨List.getD_eq_getElem first 0 (by omega), List.getD_eq_getElem second 0 (by omega)⟩
  refine { start := ?start, joint := ?joint, stop := ?stop }
  case start =>
    have hstart := h.start (by omega)
    rw [armAt, armAt, stepAt, hpoint 0 (by omega), hpoint 1 (by omega),
      (hcontrol 0 (by omega)).1, (hcontrol 0 (by omega)).2]
    linarith
  case joint =>
    intro i hi
    have hbend := h.bend i (by omega)
    have hslope := h.slope i (by omega)
    rw [h.armAt_eq (by omega), armAt, armAt, stepAt, stepAt, hpoint i (by omega),
      hpoint (i + 1) (by omega), hpoint (i + 2) (by omega), (hcontrol i (by omega)).1,
      (hcontrol i (by omega)).2, (hcontrol (i + 1) (by omega)).2]
    linarith
  case stop =>
    have hstop := h.stop n hn.symm
    rw [h.armAt_eq (by omega), armAt, stepAt, hpoint n (by omega), hpoint (n + 1) (by omega),
      (hcontrol n (by omega)).1, (hcontrol n (by omega)).2]
    linarith

/-- The arms of a natural spline are no longer than two thirds of the longest step. -/
theorem NaturalAlong.arms_le (h : NaturalAlong points first second) {J : Rat}
    (hstep : ∀ i, (hi : i + 1 < points.length) → |points[i + 1] - points[i]| ≤ J) {i : Nat}
    (hi : i + 1 < points.length) (hfirst : i < first.length) (hsecond : i < second.length) :
    |first[i] - points[i]| ≤ 2 / 3 * J ∧ |points[i + 1] - second[i]| ≤ 2 / 3 * J := by
  obtain ⟨n, hn⟩ : ∃ n, points.length = n + 2 := ⟨points.length - 2, by omega⟩
  have hsteps : ∀ k ≤ n, |stepAt points k| ≤ J := by
    intro k hk
    rw [stepAt, List.getD_eq_getElem points 0 (by omega), List.getD_eq_getElem points 0 (by omega)]
    exact hstep k (by omega)
  have R := h.armRows hn
  have hbehind := R.abs_arm_le hsteps (i := i) (by omega)
  have hbefore := R.abs_arm_le hsteps (i := i + 1) (by omega)
  rw [h.armAt_eq hi, List.getD_eq_getElem first 0 hfirst,
    List.getD_eq_getElem points 0 (by omega)] at hbehind
  rw [armAt, List.getD_eq_getElem points 0 hi, List.getD_eq_getElem second 0 hsecond] at hbefore
  exact ⟨hbehind, hbefore⟩

end Natural

/-! ## Steps -/

/-- The longest step between neighbours. -/
def stride : List Int → Int
  | p :: q :: rest => max |q - p| (stride (q :: rest))
  | _ => 0

theorem abs_step_le_stride {numbers : List Int} {i : Nat} (hi : i + 1 < numbers.length) :
    |numbers[i + 1] - numbers[i]| ≤ stride numbers := by
  induction numbers generalizing i with
  | nil => cases hi
  | cons p rest ih =>
      cases rest with
      | nil => exact absurd hi (by simp)
      | cons q rest =>
          cases i with
          | zero => exact le_max_left _ _
          | succ i => exact (ih (Nat.lt_of_succ_lt_succ hi)).trans (le_max_right _ _)

theorem stride_nonneg (numbers : List Int) : 0 ≤ stride numbers := by
  match numbers with
  | [] | [_] => exact le_rfl
  | p :: q :: rest => exact (abs_nonneg (q - p)).trans (le_max_left _ _)

end Spline
end CellSketch
