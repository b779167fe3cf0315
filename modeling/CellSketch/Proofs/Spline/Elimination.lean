import Mathlib.Algebra.Order.Field.Basic
import Mathlib.Tactic.FieldSimp
import Mathlib.Tactic.Linarith
import Mathlib.Tactic.Ring
import CellSketch.Proofs.Spline.Sweeps

/-!
# Elimination — the rows of a system and their one solution

The first control points of a spline solve a system with three diagonals: 2, then 4 in every row and
3.5 in the last one, and 1 on both sides.  Elimination divides by pivots that never fall below 2, so
over the rationals every division is one by a number other than zero.

* `RowsBelow`, `Rows` — unknowns that satisfy the rows of the system;
* `two_le_next` — the next pivot is at least 2 again;
* `solveBelow_eq_iff` — what elimination gives for the rows below a pivot, and only that, satisfies
  them;
* `solve_eq_iff` — elimination gives the one solution of a system.
-/

namespace CellSketch
namespace Spline

open Number

/-! ## The system -/

/-- The diagonal of a row, which is the last one if there is none below it. -/
def diagonal (below : List Rat) : Rat := if below.isEmpty then 7 / 2 else 4

/-- Unknowns that satisfy some rows, where the first of these rows also takes the unknown `x` above
it. -/
def RowsBelow : List Rat → Rat → List Rat → Prop
  | [], _, [] => True
  | r :: rows, x, y :: ys => x + diagonal rows * y + ys.headD 0 = r ∧ RowsBelow rows y ys
  | _, _, _ => False

/-- Unknowns that satisfy all rows of a system. -/
def Rows : List Rat → List Rat → Prop
  | r :: rows, x :: xs => 2 * x + xs.headD 0 = r ∧ RowsBelow rows x xs
  | [], [] => True
  | _, _ => False

/-! ## One step of the elimination -/

theorem solveBelow_cons (pivot value r : Rat) (rest : List Rat) :
    solveBelow pivot value (r :: rest) =
      let next := diagonal rest - 1 / pivot
      let below := solveBelow next ((r - value) / next) rest
      (value - 1 / pivot * below.1, below.1 :: below.2) := by
  have hdiagonal : (if rest.isEmpty then Scalar.measured 7 / Scalar.measured 2
      else Scalar.measured 4 : Rat) = diagonal rest := by
    unfold diagonal
    split <;> rfl
  have hone : (Scalar.measured 1 : Rat) = 1 := rfl
  rw [solveBelow, hdiagonal, hone]

/-- The next pivot is at least 2 again, whichever row it belongs to. -/
theorem two_le_next {pivot : Rat} (h : 2 ≤ pivot) (rest : List Rat) :
    2 ≤ diagonal rest - 1 / pivot := by
  have hratio : 1 / pivot ≤ 1 / 2 := one_div_le_one_div_of_le two_pos h
  unfold diagonal
  split <;> linarith

/-- With the unknown `x` taken out of a row by the eliminated row above it, the row has the next
pivot on its diagonal. -/
theorem row_iff_eliminated {pivot value x y d rest r : Rat} (hpivot : pivot ≠ 0)
    (habove : pivot * x + y = pivot * value) :
    x + d * y + rest = r ↔ (d - 1 / pivot) * y + rest = r - value := by
  have hx : x = value - 1 / pivot * y := by
    field_simp
    linarith
  constructor
  · intro hrow
    calc
      (d - 1 / pivot) * y + rest = (value - 1 / pivot * y) + d * y + rest - value := by ring
      _ = r - value := by rw [← hx, hrow]
  · intro hrow
    calc
      x + d * y + rest = value + ((d - 1 / pivot) * y + rest) := by rw [hx]; ring
      _ = r := by rw [hrow]; ring

/-! ## The solution -/

/-- Below a pivot of at least 2, elimination gives the unknowns that satisfy the rows, and no others
do. -/
theorem solveBelow_eq_iff {pivot value x : Rat} {rows xs : List Rat} (hpivot : 2 ≤ pivot) :
    solveBelow pivot value rows = (x, xs) ↔
      pivot * x + xs.headD 0 = pivot * value ∧ RowsBelow rows x xs := by
  have hnonzero : pivot ≠ 0 := by linarith
  induction rows generalizing pivot value x xs with
  | nil =>
      cases xs with
      | nil => simp [solveBelow, RowsBelow, hnonzero, eq_comm]
      | cons y ys => simp [solveBelow, RowsBelow]
  | cons r rest ih =>
      have hnext := two_le_next hpivot rest
      have hnext' : diagonal rest - 1 / pivot ≠ 0 := by linarith
      rw [solveBelow_cons]
      cases xs with
      | nil => simp [RowsBelow]
      | cons y ys =>
          have hbelow : solveBelow (diagonal rest - 1 / pivot)
              ((r - value) / (diagonal rest - 1 / pivot)) rest = (y, ys) ↔
                (diagonal rest - 1 / pivot) * y + ys.headD 0 = r - value ∧ RowsBelow rest y ys := by
            refine (ih hnext hnext').trans ?_
            rw [mul_div_cancel₀ _ hnext']
          dsimp only
          rw [RowsBelow, List.headD_cons]
          constructor
          · intro hsolution
            -- the pair is read from the solution of the rows further down
            obtain ⟨hx, hxs⟩ := Prod.mk.inj hsolution
            obtain ⟨hy, hys⟩ := List.cons.inj hxs
            obtain ⟨hrow, hrest⟩ := hbelow.1 (Prod.ext hy hys)
            have habove : pivot * x + y = pivot * value := by
              rw [← hx, hy]
              field_simp
              ring
            exact ⟨habove, (row_iff_eliminated hnonzero habove).2 hrow, hrest⟩
          · rintro ⟨habove, hrow, hrest⟩
            have hsolution := hbelow.2 ⟨(row_iff_eliminated hnonzero habove).1 hrow, hrest⟩
            rw [hsolution]
            have hx : value - 1 / pivot * y = x := by
              field_simp
              linarith
            rw [hx]

/-- Elimination gives the one solution of a system. -/
theorem solve_eq_iff {rows xs : List Rat} : solve rows = xs ↔ Rows rows xs := by
  rw [solve_eq_eliminate]
  cases rows with
  | nil => cases xs <;> simp [eliminate, Rows]
  | cons r rest =>
      cases xs with
      | nil => simp [eliminate, Rows]
      | cons x xs =>
          have hbelow : solveBelow 2 (r / 2) rest = (x, xs) ↔
              2 * x + xs.headD 0 = r ∧ RowsBelow rest x xs := by
            rw [solveBelow_eq_iff (le_refl 2), mul_div_cancel₀ _ two_ne_zero]
          rw [Rows, ← hbelow, Prod.ext_iff]
          change _ :: _ = _ ↔ _
          rw [List.cons.injEq]
          rfl

end Spline
end CellSketch
