import Mathlib.Data.List.Basic
import Mathlib.Data.List.GetD
import CellSketch.Spline

/-!
# Sweeps — the two passes of elimination as one recursion

Elimination writes two arrays, row by row forth and unknown by unknown back.  The same numbers come
from a recursion over the rows, which goes forth on the way down and back on the way up.  This holds
for any arithmetic, as both do the same operations on the same numbers.

* `solveBelow`, `eliminate` — the recursion;
* `reached` — the pivot and the value of a row when the pass forth comes to it;
* `Swept`, `Solved` — what the arrays hold after some rows of the pass forth, and of the one back;
* `solve_eq_eliminate` — the two passes give what the recursion gives.
-/

namespace CellSketch
namespace Spline

open Number

variable {α : Type} [Scalar α]

/-! ## The recursion -/

/-- Solves the rows below one whose eliminated form is `pivot * x + y = pivot * value`, where `y` is
the first unknown of the rows below; the answer is `x` and the unknowns below. -/
def solveBelow (pivot value : α) : List α → α × List α
  | [] => (value, [])
  | r :: rest =>
      let ratio := Scalar.measured 1 / pivot
      let diagonal : α :=
        if rest.isEmpty then Scalar.measured 7 / Scalar.measured 2 else Scalar.measured 4
      let next := diagonal - ratio
      let below := solveBelow next ((r - value) / next) rest
      (value - ratio * below.1, below.1 :: below.2)

/-- The unknowns of a system: the diagonal is 2 in the first row, 3.5 in the last and 4 in between,
and 1 on both sides of it. -/
def eliminate : List α → List α
  | [] => []
  | r :: rest =>
      let solution := solveBelow (Scalar.measured 2) (r / Scalar.measured 2) rest
      solution.1 :: solution.2

theorem length_solveBelow (pivot value : α) (rows : List α) :
    (solveBelow pivot value rows).2.length = rows.length := by
  induction rows generalizing pivot value with
  | nil => rfl
  | cons r rest ih => exact congrArg Nat.succ (ih _ _)

theorem length_eliminate (rows : List α) : (eliminate rows).length = rows.length := by
  cases rows with
  | nil => rfl
  | cons r rest => exact congrArg Nat.succ (length_solveBelow _ _ rest)

/-! ## Rows by their numbers -/

/-- The pivot and the value of a row when the pass forth comes to it. -/
def reached (rows : List α) : Nat → α × α
  | 0 => (Scalar.measured 2, rows.getD 0 (Scalar.measured 0) / Scalar.measured 2)
  | i + 1 =>
      let diagonal : α :=
        if i + 2 < rows.length then Scalar.measured 4 else Scalar.measured 7 / Scalar.measured 2
      let pivot := diagonal - Scalar.measured 1 / (reached rows i).1
      (pivot, (rows.getD (i + 1) (Scalar.measured 0) - (reached rows i).2) / pivot)

/-- The unknown of a row, and those below it. -/
def solvedFrom (rows : List α) (i : Nat) : α × List α :=
  solveBelow (reached rows i).1 (reached rows i).2 (rows.drop (i + 1))

section Rows

variable {rows : List α} {i : Nat}

theorem solvedFrom_of_lt (h : i + 1 < rows.length) :
    solvedFrom rows i =
      ((reached rows i).2 - Scalar.measured 1 / (reached rows i).1 * (solvedFrom rows (i + 1)).1,
        (solvedFrom rows (i + 1)).1 :: (solvedFrom rows (i + 1)).2) := by
  have hlast : (rows.drop (i + 2)).isEmpty = true ↔ ¬i + 2 < rows.length := by simp
  rw [solvedFrom, List.drop_eq_getElem_cons h, solveBelow, solvedFrom, reached,
    List.getD_eq_getElem _ _ h]
  by_cases hmore : i + 2 < rows.length
  · rw [if_pos hmore, if_neg (not_not.2 hmore ∘ hlast.1)]
  · rw [if_neg hmore, if_pos (hlast.2 hmore)]

theorem solvedFrom_last (h : i + 1 = rows.length) :
    solvedFrom rows i = ((reached rows i).2, []) := by
  rw [solvedFrom, h, List.drop_length, solveBelow]

/-- The unknowns from a row on are the first ones of what is solved from each row. -/
theorem getElem?_solvedFrom {j : Nat} (h : i + j < rows.length) :
    ((solvedFrom rows i).1 :: (solvedFrom rows i).2)[j]? = some (solvedFrom rows (i + j)).1 := by
  induction j generalizing i with
  | zero => rfl
  | succ j ih =>
      rw [List.getElem?_cons_succ, solvedFrom_of_lt (by omega), ih (by omega),
        Nat.add_right_comm, Nat.add_assoc]

theorem getElem?_eliminate (h : i < rows.length) :
    (eliminate rows)[i]? = some (solvedFrom rows i).1 := by
  cases rows with
  | nil => exact absurd h (Nat.not_lt_zero i)
  | cons r rest =>
      have hunknown : 0 + i < (r :: rest).length := by omega
      replace hunknown := getElem?_solvedFrom hunknown
      rw [Nat.zero_add] at hunknown
      exact hunknown

end Rows

/-! ## Arrays written in place -/

theorem entry_set {xs : Array α} {i : Nat} (x : α) (h : i < xs.size) (j : Nat) :
    entry (xs.setIfInBounds i x) j = if j = i then x else entry xs j := by
  rw [entry, entry, Array.getD_eq_getD_getElem?, Array.getD_eq_getD_getElem?,
    Array.getElem?_setIfInBounds]
  by_cases hj : j = i
  · rw [if_pos hj, if_pos hj.symm, if_pos h, Option.getD_some]
  · rw [if_neg hj, if_neg (Ne.symm hj)]

theorem entry_toArray (rows : List α) (i : Nat) :
    entry rows.toArray i = rows.getD i (Scalar.measured 0) := by
  rw [entry, Array.getD_eq_getD_getElem?, List.getElem?_toArray, List.getD_eq_getElem?_getD]

/-- The arrays when the pass forth has come to a row. -/
structure Swept (rows : List α) (s : Sweep α) (i : Nat) : Prop where
  pivot : s.pivot = (reached rows i).1
  size_solution : s.solution.size = rows.length
  size_inverses : s.inverses.size = rows.length
  solution : ∀ j ≤ i, entry s.solution j = (reached rows j).2
  inverses : ∀ j < i, entry s.inverses (j + 1) = Scalar.measured 1 / (reached rows j).1

namespace Swept

variable {rows : List α} {s : Sweep α} {i : Nat}

theorem start (h : 0 < rows.length) : Swept rows (.start rows.toArray) 0 where
  pivot := rfl
  size_solution := by simp [Sweep.start]
  size_inverses := by simp [Sweep.start]
  solution j hj := by
    obtain rfl := Nat.le_zero.1 hj
    rw [Sweep.start, entry_set _ (by simpa using h), if_pos rfl, entry_toArray]
    rfl
  inverses j hj := absurd hj (Nat.not_lt_zero j)

theorem forth (S : Swept rows s i) (h : i + 1 < rows.length) :
    Swept rows (s.forth rows.toArray (i + 1)) (i + 1) where
  pivot := by
    rw [Sweep.forth, reached, S.pivot, List.size_toArray]
  size_solution := by rw [Sweep.forth, Array.size_setIfInBounds, S.size_solution]
  size_inverses := by rw [Sweep.forth, Array.size_setIfInBounds, S.size_inverses]
  solution j hj := by
    -- only the entry of the new row is written
    rw [Sweep.forth, entry_set _ (S.size_solution ▸ h)]
    split
    next heq =>
      rw [heq, reached, S.pivot, List.size_toArray, entry_toArray, Nat.add_sub_cancel,
        S.solution i (Nat.le_refl i)]
    next hne => exact S.solution j (by omega)
  inverses j hj := by
    rw [Sweep.forth, entry_set _ (S.size_inverses ▸ h), S.pivot]
    split
    next heq => rw [Nat.succ.inj heq]
    next hne => exact S.inverses j (by omega)

/-- The pass forth comes to every row. -/
theorem foldl_forth (hi : i < rows.length) :
    Swept rows ((List.range' 1 i).foldl (Sweep.forth rows.toArray) (.start rows.toArray)) i := by
  induction i with
  | zero => exact start hi
  | succ i ih =>
      rw [List.range'_1_concat, List.foldl_concat, Nat.add_comm 1 i]
      exact (ih (by omega)).forth hi

end Swept

/-- The array of the unknowns when the pass back has some of them left above it. -/
structure Solved (rows : List α) (xs : Array α) (left : Nat) : Prop where
  size : xs.size = rows.length
  waiting : ∀ j < left, entry xs j = (reached rows j).2
  known : ∀ j, left ≤ j → j < rows.length → entry xs j = (solvedFrom rows j).1

namespace Solved

variable {rows : List α} {s : Sweep α} {xs : Array α} {i left : Nat}

theorem ofSwept (S : Swept rows s i) (h : i + 1 = rows.length) : Solved rows s.solution i where
  size := S.size_solution
  waiting j hj := S.solution j (Nat.le_of_lt hj)
  known j hleft hj := by
    obtain rfl : j = i := by omega
    rw [S.solution j (Nat.le_refl j), solvedFrom_last h]

theorem back (S : Swept rows s i) (h : i + 1 = rows.length) (X : Solved rows xs (left + 1))
    (hleft : left < i) : Solved rows (back s.inverses xs (i - left)) left := by
  -- the loop counts from the end of the array
  have hj : xs.size - (i - left) = left + 1 := by rw [X.size]; omega
  have hin : left < xs.size := by rw [X.size]; omega
  refine ⟨by rw [Spline.back, Array.size_setIfInBounds, X.size], fun j hwaiting => ?_,
    fun j hknown hsize => ?_⟩
  · rw [Spline.back, hj, Nat.add_sub_cancel, entry_set _ hin, if_neg (by omega),
      X.waiting j (by omega)]
  · rw [Spline.back, hj, Nat.add_sub_cancel, entry_set _ hin]
    split
    next heq =>
      rw [heq, X.waiting left (by omega), S.inverses left hleft,
        X.known (left + 1) (Nat.le_refl _) (by omega), solvedFrom_of_lt (i := left) (by omega)]
    next hne => exact X.known j (by omega) hsize

/-- The pass back comes to every unknown. -/
theorem foldl_back (S : Swept rows s i) (h : i + 1 = rows.length) {n : Nat} (hn : n ≤ i) :
    Solved rows ((List.range' 1 n).foldl (Spline.back s.inverses) s.solution) (i - n) := by
  induction n with
  | zero => exact ofSwept S h
  | succ n ih =>
      have hleft : i - n = i - (n + 1) + 1 := by omega
      have hback := back S h (hleft ▸ ih (by omega)) (by omega)
      rw [List.range'_1_concat, List.foldl_concat, show 1 + n = i - (i - (n + 1)) by omega]
      exact hback

end Solved

/-! ## The two passes -/

/-- The two passes over the arrays give the unknowns of the recursion. -/
theorem solve_eq_eliminate (rows : List α) : solve rows = eliminate rows := by
  cases hn : rows.length with
  | zero =>
      rw [List.eq_nil_of_length_eq_zero hn]
      rfl
  | succ i =>
      have S : Swept rows _ i := Swept.foldl_forth (by omega)
      have X := Solved.foldl_back S hn.symm (Nat.le_refl i)
      rw [Nat.sub_self] at X
      rw [solve, List.size_toArray, hn, Nat.add_sub_cancel]
      refine List.ext_getElem? fun j => ?_
      rw [Array.getElem?_toList]
      by_cases hj : j < rows.length
      · have hentry := X.known j (Nat.zero_le j) hj
        rw [entry, Array.getD_eq_getD_getElem?, Array.getElem?_eq_getElem (X.size ▸ hj),
          Option.getD_some] at hentry
        rw [Array.getElem?_eq_getElem (X.size ▸ hj), hentry, getElem?_eliminate hj]
      · rw [Array.getElem?_eq_none (by rw [X.size]; omega),
          List.getElem?_eq_none (by rw [length_eliminate]; omega)]

end Spline
end CellSketch
