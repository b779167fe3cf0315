import CellSketch.Number.Scalar

/-!
# Spline — a smooth curve through given points

Each pair of consecutive points is joined by a cubic Bezier piece.  The control points are chosen so
that first and second derivatives agree where pieces meet and the second derivative vanishes at both
ends.  Written for the first control points of one coordinate, that is a linear system with three
diagonals, with 1 on both sides of the middle one, which elimination solves in one pass forth and
one back.
-/

namespace CellSketch
namespace Spline

open Number

variable {α : Type} [Scalar α]

/-! ## The linear system -/

/-- What elimination works on: the pivot of the row that it is at, and two arrays that it writes in
place, one for the unknowns and one for the inverse pivots. -/
structure Sweep (α : Type) where
  pivot : α
  solution : Array α
  inverses : Array α

/-- A number of an array. -/
def entry (xs : Array α) (i : Nat) : α := xs.getD i (Scalar.measured 0)

namespace Sweep

/-- The first row, with 2 on the diagonal. -/
def start (rows : Array α) : Sweep α :=
  let pivot := Scalar.measured 2
  let zeros := Array.replicate rows.size (Scalar.measured 0)
  { pivot
    solution := zeros.setIfInBounds 0 (entry rows 0 / pivot)
    inverses := zeros }

/-- Forward elimination of a row, with 3.5 on the diagonal if it is the last one and 4 if not. -/
def forth (rows : Array α) (s : Sweep α) (i : Nat) : Sweep α :=
  let inverse := Scalar.measured 1 / s.pivot
  let diagonal : α :=
    if i + 1 < rows.size then Scalar.measured 4 else Scalar.measured 7 / Scalar.measured 2
  let pivot := diagonal - inverse
  { pivot
    solution :=
      s.solution.setIfInBounds i ((entry rows i - entry s.solution (i - 1)) / pivot)
    inverses := s.inverses.setIfInBounds i inverse }

end Sweep

/-- Back substitution into the unknown that has `i` others behind it. -/
def back (inverses xs : Array α) (i : Nat) : Array α :=
  let j := xs.size - i
  xs.setIfInBounds (j - 1) (entry xs (j - 1) - entry inverses j * entry xs j)

/-- The solution for a right-hand side, in one pass forth over the rows and one back. -/
def solve (rhs : List α) : List α :=
  let rows := rhs.toArray
  let later := List.range' 1 (rows.size - 1)
  let swept := later.foldl (Sweep.forth rows) (Sweep.start rows)
  (later.foldl (back swept.inverses) swept.solution).toList

/-- The right-hand side from the second row on. -/
def innerRows : List α → List α
  | a :: b :: c :: rest =>
      (Scalar.whole 4 * a + Scalar.whole 2 * b) :: innerRows (b :: c :: rest)
  | [a, b] => [(Scalar.whole 8 * a + b) / Scalar.whole 2]
  | _ => []

/-- The right-hand side for one coordinate of at least three points. -/
def rightHandSide : List α → List α
  | a :: b :: rest => (a + Scalar.whole 2 * b) :: innerRows (b :: rest)
  | _ => []

/-- The second control points, from the points after the first one and the first control points. -/
def seconds : List α → List α → List α
  | [p], [x] => [(p + x) / Scalar.whole 2]
  | p :: ps, _ :: x :: xs => (Scalar.whole 2 * p - x) :: seconds ps (x :: xs)
  | _, _ => []

/-! ## Control points -/

/-- Both control points of every piece, for one coordinate. -/
def controls : List α → List α × List α
  | [a, b] =>
      let first := (Scalar.whole 2 * a + b) / Scalar.whole 3
      ([first], [Scalar.whole 2 * first - a])
  | points =>
      let firsts := solve (rightHandSide points)
      (firsts, seconds (points.drop 1) firsts)

/-- The first and the second control points of the pieces between consecutive points. -/
def controlPoints (points : List (Point α)) : List (Point α) × List (Point α) :=
  let xs := controls (points.map (·.x))
  let ys := controls (points.map (·.y))
  (List.zipWith Point.mk xs.1 ys.1, List.zipWith Point.mk xs.2 ys.2)

end Spline
end CellSketch
