import CellSketch.Proofs.Spline.Elimination

/-!
# Pivots — what elimination divides by

Elimination is written for any numbers with the arithmetic of drawings.  Run on numbers that keep
everything that was divided by on the way to them, it shows its divisors: they are the pivots, one
for each row, and none of them is below 2.

* `Traced` — rational arithmetic that keeps its divisors;
* `mem_divisors_solve` — elimination divides by the pivots and by nothing else;
* `two_le_of_mem_pivots` — no pivot is below 2;
* `solve_exact` — so elimination is exact, and gives the only solution of a system with three
  diagonals.
-/

namespace CellSketch
namespace Spline

open Number

/-! ## Arithmetic that keeps its divisors -/

/-- A number with everything that was divided by on the way to it. -/
structure Traced where
  value : Rat
  divisors : List Rat

namespace Traced

/-- A number that nothing was divided for. -/
def given (x : Rat) : Traced := ⟨x, []⟩

instance : Scalar Traced where
  add a b := ⟨a.value + b.value, a.divisors ++ b.divisors⟩
  sub a b := ⟨a.value - b.value, a.divisors ++ b.divisors⟩
  mul a b := ⟨a.value * b.value, a.divisors ++ b.divisors⟩
  div a b := ⟨a.value / b.value, b.value :: (a.divisors ++ b.divisors)⟩
  beq a b := a.value == b.value
  whole n := given n
  measure a := a
  half := given (1 / 2)
  ceil a := Scalar.ceil a.value
  trunc a := Scalar.trunc a.value
  round a := Scalar.round a.value
  larger a b := if a.value < b.value then b else a
  positivePart a := if 0 < a.value then a else given 0
  fault? a := Scalar.fault? a.value

section Operations

variable (a b : Traced) (n : Int) (x : Rat)

@[simp] theorem value_sub : (a - b).value = a.value - b.value := rfl
@[simp] theorem value_div : (a / b).value = a.value / b.value := rfl

@[simp] theorem divisors_given : (given x).divisors = [] := rfl
@[simp] theorem divisors_sub : (a - b).divisors = a.divisors ++ b.divisors := rfl
@[simp] theorem divisors_mul : (a * b).divisors = a.divisors ++ b.divisors := rfl
@[simp] theorem divisors_div : (a / b).divisors = b.value :: (a.divisors ++ b.divisors) := rfl
@[simp] theorem divisors_measured : (Scalar.measured n : Traced).divisors = [] := rfl

end Operations

/-- The diagonal of a row as elimination computes it. -/
def diagonal (below : List Traced) : Traced :=
  if below.isEmpty then Scalar.measured 7 / Scalar.measured 2 else Scalar.measured 4

theorem value_diagonal (below : List Traced) :
    (diagonal below).value = Spline.diagonal (below.map value) := by
  cases below <;> rfl

/-- Only the diagonal of the last row is a quotient. -/
theorem divisors_diagonal_subset (below : List Traced) : (diagonal below).divisors ⊆ [2] := by
  cases below with
  | nil => exact List.Subset.refl _
  | cons r rest => exact List.nil_subset _

/-- The pivot that follows a pivot, with rows of its own below it. -/
def nextPivot (pivot : Traced) (below : List Traced) : Traced :=
  diagonal below - Scalar.measured 1 / pivot

theorem value_nextPivot (pivot : Traced) (below : List Traced) :
    (nextPivot pivot below).value = Spline.diagonal (below.map value) - 1 / pivot.value :=
  congrArg (· - 1 / pivot.value) (value_diagonal below)

theorem solveBelow_cons (pivot value r : Traced) (rest : List Traced) :
    solveBelow pivot value (r :: rest) =
      let next := nextPivot pivot rest
      let below := solveBelow next ((r - value) / next) rest
      (value - Scalar.measured 1 / pivot * below.1, below.1 :: below.2) := rfl

/-! ## Divisors do not change the values -/

theorem value_solveBelow (pivot value : Traced) (rows : List Traced) :
    (solveBelow pivot value rows).map Traced.value (List.map Traced.value) =
      solveBelow pivot.value value.value (rows.map Traced.value) := by
  induction rows generalizing pivot value with
  | nil => rfl
  | cons r rest ih =>
      have hbelow := ih (nextPivot pivot rest) ((r - value) / nextPivot pivot rest)
      rw [value_div, value_sub, value_nextPivot] at hbelow
      obtain ⟨hfirst, hothers⟩ := Prod.ext_iff.1 hbelow
      rw [List.map_cons, Spline.solveBelow_cons, solveBelow_cons]
      dsimp only at hfirst hothers ⊢
      rw [← hfirst, ← hothers]
      rfl

theorem value_solve (rows : List Traced) :
    (solve rows).map Traced.value = solve (rows.map Traced.value) := by
  rw [solve_eq_eliminate, solve_eq_eliminate]
  cases rows with
  | nil => rfl
  | cons r rest =>
      have hbelow := value_solveBelow (Scalar.measured 2) (r / Scalar.measured 2) rest
      obtain ⟨hfirst, hothers⟩ := Prod.ext_iff.1 hbelow
      exact congrArg₂ List.cons hfirst hothers

end Traced

/-! ## Pivots -/

/-- The pivots from one row down: below it, each is the diagonal of its row less the inverse of the
pivot above it. -/
def pivotsFrom (pivot : Rat) : List Rat → List Rat
  | [] => [pivot]
  | _ :: rest => pivot :: pivotsFrom (diagonal rest - 1 / pivot) rest

/-- The pivots of a system, one for each row. -/
def pivots : List Rat → List Rat
  | [] => []
  | _ :: rest => pivotsFrom 2 rest

theorem mem_pivotsFrom_self (pivot : Rat) (rows : List Rat) : pivot ∈ pivotsFrom pivot rows := by
  cases rows <;> exact List.mem_cons_self

theorem two_le_of_mem_pivotsFrom {pivot d : Rat} {rows : List Rat} (hpivot : 2 ≤ pivot)
    (hd : d ∈ pivotsFrom pivot rows) : 2 ≤ d := by
  induction rows generalizing pivot with
  | nil =>
      rw [List.mem_singleton.1 hd]
      exact hpivot
  | cons r rest ih =>
      rcases List.mem_cons.1 hd with rfl | hd
      · exact hpivot
      · exact ih (two_le_next hpivot rest) hd

theorem two_le_of_mem_pivots {d : Rat} {rows : List Rat} (hd : d ∈ pivots rows) : 2 ≤ d := by
  cases rows with
  | nil => exact absurd hd List.not_mem_nil
  | cons r rest => exact two_le_of_mem_pivotsFrom (le_refl 2) hd

/-! ## Every divisor is a pivot -/

/-- A value that was divided by a pivot, by all that this pivot was computed with, and by 2. -/
structure DividedBy (value pivot : Traced) : Prop where
  two : 2 ∈ value.divisors
  self : pivot.value ∈ value.divisors
  above : ∀ d ∈ pivot.divisors, d ∈ value.divisors

namespace DividedBy

variable {value pivot t : Traced} {rows : List Rat} {d : Rat}

theorem ratio_subset (D : DividedBy value pivot) :
    (Scalar.measured 1 / pivot : Traced).divisors ⊆ value.divisors := by
  rw [Traced.divisors_div, Traced.divisors_measured, List.nil_append]
  exact List.cons_subset.2 ⟨D.self, fun d => D.above d⟩

theorem nextPivot_subset (D : DividedBy value pivot) (below : List Traced) :
    (Traced.nextPivot pivot below).divisors ⊆ value.divisors := by
  rw [Traced.nextPivot, Traced.divisors_sub]
  refine List.append_subset.2 ⟨fun e he => ?_, D.ratio_subset⟩
  rw [List.mem_singleton.1 (Traced.divisors_diagonal_subset below he)]
  exact D.two

/-- The value of the row below is divided by the next pivot too, and by nothing else. -/
theorem mem_divisors_next (D : DividedBy value pivot) (r : Rat) (below : List Traced) :
    d ∈ ((Traced.given r - value) / Traced.nextPivot pivot below).divisors ↔
      d = (Traced.nextPivot pivot below).value ∨ d ∈ value.divisors := by
  rw [Traced.divisors_div, Traced.divisors_sub, Traced.divisors_given, List.nil_append,
    List.mem_cons, List.mem_append]
  refine or_congr_right ⟨?_, Or.inl⟩
  rintro (hd | hd)
  · exact hd
  · exact D.nextPivot_subset below hd

theorem next (D : DividedBy value pivot) (r : Rat) (below : List Traced) :
    DividedBy ((Traced.given r - value) / Traced.nextPivot pivot below)
      (Traced.nextPivot pivot below) where
  two := (D.mem_divisors_next r below).2 (Or.inr D.two)
  self := (D.mem_divisors_next r below).2 (Or.inl rfl)
  above _ he := (D.mem_divisors_next r below).2 (Or.inr (D.nextPivot_subset below he))

/-- Each unknown from one row down has been divided by what the value of that row was divided by,
and by the pivots further down. -/
theorem mem_divisors_solveBelow (D : DividedBy value pivot)
    (ht : t ∈ (solveBelow pivot value (rows.map Traced.given)).1 ::
      (solveBelow pivot value (rows.map Traced.given)).2) :
    d ∈ t.divisors ↔ d ∈ value.divisors ∨ d ∈ pivotsFrom pivot.value rows := by
  induction rows generalizing pivot value t with
  | nil =>
      obtain rfl : t = value := List.mem_singleton.1 ht
      rw [pivotsFrom, List.mem_singleton]
      refine ⟨Or.inl, ?_⟩
      rintro (hd | rfl)
      · exact hd
      · exact D.self
  | cons r rest ih =>
      rw [List.map_cons, Traced.solveBelow_cons] at ht
      dsimp only at ht
      have hnext : (Traced.nextPivot pivot (rest.map Traced.given)).value =
          diagonal rest - 1 / pivot.value := by
        rw [Traced.value_nextPivot, List.map_map]
        exact congrArg (diagonal · - _) (List.map_id rest)
      -- the value of the next row adds the next pivot, and none of the divisors is lost
      have hpivots : d ∈ ((Traced.given r - value) /
            Traced.nextPivot pivot (rest.map Traced.given)).divisors ∨
          d ∈ pivotsFrom (Traced.nextPivot pivot (rest.map Traced.given)).value rest ↔
          d ∈ value.divisors ∨ d ∈ pivotsFrom pivot.value (r :: rest) := by
        have hself := mem_pivotsFrom_self (diagonal rest - 1 / pivot.value) rest
        have hpivot := D.self
        rw [D.mem_divisors_next, hnext, pivotsFrom, List.mem_cons]
        grind
      have hbelow := D.next r (rest.map Traced.given)
      rcases List.mem_cons.1 ht with rfl | ht
      · rw [Traced.divisors_sub, Traced.divisors_mul, List.mem_append, List.mem_append,
          ih hbelow List.mem_cons_self, hpivots]
        constructor
        · rintro (hd | hd | hd)
          · exact Or.inl hd
          · exact Or.inl (D.ratio_subset hd)
          · exact hd
        · intro hd
          exact Or.inr (Or.inr hd)
      · exact (ih hbelow ht).trans hpivots

end DividedBy

/-- Elimination divides by the pivots and by nothing else, for each of the unknowns. -/
theorem mem_divisors_solve {rows : List Rat} {t : Traced} {d : Rat}
    (ht : t ∈ solve (rows.map Traced.given)) : d ∈ t.divisors ↔ d ∈ pivots rows := by
  rw [solve_eq_eliminate] at ht
  cases rows with
  | nil => exact absurd ht List.not_mem_nil
  | cons r rest =>
      have hvalue : (Traced.given r / Scalar.measured 2).divisors = [2] := rfl
      have hdivided : DividedBy (Traced.given r / Scalar.measured 2) (Scalar.measured 2) :=
        ⟨List.mem_cons_self, List.mem_cons_self, List.nil_subset _⟩
      rw [hdivided.mem_divisors_solveBelow ht, hvalue, List.mem_singleton]
      refine ⟨?_, Or.inr⟩
      rintro (rfl | hd)
      · exact mem_pivotsFrom_self 2 rest
      · exact hd

/-! ## The rows by their numbers -/

/-- Unknowns that satisfy every row of a system but the first one. -/
structure LowerRows (rows xs : List Rat) : Prop where
  length_eq : xs.length = rows.length
  middle : ∀ i, (h : i + 2 < rows.length) → xs[i] + 4 * xs[i + 1] + xs[i + 2] = rows[i + 1]
  bottom : ∀ i, (h : i + 2 = rows.length) → xs[i] + 7 / 2 * xs[i + 1] = rows[i + 1]

/-- Unknowns that satisfy the rows of a system with three diagonals: 2 in the first row, 7/2 in the
last and 4 in between, and 1 on both sides of it. -/
structure Tridiagonal (rows xs : List Rat) : Prop extends LowerRows rows xs where
  top : (h : 2 ≤ rows.length) → 2 * xs[0] + xs[1] = rows[0]

section Numbered

variable {q r r' x y z : Rat} {rest xs : List Rat}

theorem lowerRows_pair_iff : LowerRows [q, r] [x, y] ↔ x + 7 / 2 * y = r := by
  constructor
  · intro hrows
    exact hrows.bottom 0 rfl
  · intro hbottom
    refine ⟨rfl, fun i hi => absurd hi (by simp), fun i hi => ?_⟩
    obtain rfl : i = 0 := by simpa using hi
    exact hbottom

theorem lowerRows_cons_iff :
    LowerRows (q :: r :: r' :: rest) (x :: y :: z :: xs) ↔
      x + 4 * y + z = r ∧ LowerRows (r :: r' :: rest) (y :: z :: xs) := by
  constructor
  · intro hrows
    -- every other row moves up by one place
    exact ⟨hrows.middle 0 (by simp), Nat.succ.inj hrows.length_eq,
      fun i hi => hrows.middle (i + 1) (Nat.succ_lt_succ hi),
      fun i hi => hrows.bottom (i + 1) (congrArg Nat.succ hi)⟩
  · rintro ⟨hfirst, hrows⟩
    refine ⟨congrArg Nat.succ hrows.length_eq, fun i hi => ?_, fun i hi => ?_⟩
    · cases i with
      | zero => exact hfirst
      | succ i => exact hrows.middle i (Nat.lt_of_succ_lt_succ hi)
    · cases i with
      | zero => exact absurd hi (by simp)
      | succ i => exact hrows.bottom i (Nat.succ.inj hi)

/-- The rows below the first one, by their numbers and one after the other. -/
theorem lowerRows_iff_rowsBelow :
    LowerRows (q :: r :: rest) (x :: xs) ↔ RowsBelow (r :: rest) x xs := by
  induction rest generalizing q r x xs with
  | nil =>
      match xs with
      | [] => exact ⟨fun h => absurd h.length_eq (by simp), False.elim⟩
      | [y] => simp [lowerRows_pair_iff, RowsBelow, diagonal]
      | y :: z :: xs => exact ⟨fun h => absurd h.length_eq (by simp), fun h => h.2.elim⟩
  | cons r' rest ih =>
      match xs with
      | [] => exact ⟨fun h => absurd h.length_eq (by simp), False.elim⟩
      | [y] => exact ⟨fun h => absurd h.length_eq (by simp), fun h => h.2.elim⟩
      | y :: z :: xs =>
          have hrow : RowsBelow (r :: r' :: rest) x (y :: z :: xs) ↔
              x + 4 * y + z = r ∧ RowsBelow (r' :: rest) y (z :: xs) := Iff.rfl
          rw [lowerRows_cons_iff, ih, hrow]

theorem tridiagonal_iff_rows {rows xs : List Rat} (h : 2 ≤ rows.length) :
    Tridiagonal rows xs ↔ Rows rows xs := by
  match rows, xs, h with
  | q :: r :: rest, [], _ => exact ⟨fun h => absurd h.length_eq (by simp), False.elim⟩
  | q :: r :: rest, [x], _ => exact ⟨fun h => absurd h.length_eq (by simp), fun h => h.2.elim⟩
  | q :: r :: rest, x :: y :: xs, h =>
      rw [Rows, ← lowerRows_iff_rowsBelow, List.headD_cons]
      exact ⟨fun hrows => ⟨hrows.top h, hrows.toLowerRows⟩,
        fun hrows => ⟨hrows.2, fun _ => hrows.1⟩⟩

end Numbered

/-! ## Exactness -/

/-- Elimination divides by nothing but the pivots, none of which is below 2, and on the way it
computes the very unknowns that it gives.  These satisfy the rows of the system, and no others
do. -/
theorem solve_exact (rows : List Rat) (h : 2 ≤ rows.length) :
    (solve (rows.map Traced.given)).map Traced.value = solve rows ∧
      (∀ t ∈ solve (rows.map Traced.given), ∀ d, d ∈ t.divisors ↔ d ∈ pivots rows) ∧
      (∀ d ∈ pivots rows, 2 ≤ d) ∧
      Tridiagonal rows (solve rows) ∧ ∀ xs, Tridiagonal rows xs → xs = solve rows := by
  refine ⟨?_, fun t ht d => mem_divisors_solve ht, fun d hd => two_le_of_mem_pivots hd, ?_, ?_⟩
  · rw [Traced.value_solve, List.map_map]
    exact congrArg solve (List.map_id rows)
  · exact (tridiagonal_iff_rows h).2 (solve_eq_iff.1 rfl)
  · intro xs hxs
    exact (solve_eq_iff.2 ((tridiagonal_iff_rows h).1 hxs)).symm

/-- The right-hand side of the unknowns 1, 2 and 3. -/
def stair : List Rat := [4, 12, 25 / 2]

theorem solve_stair : 2 ≤ stair.length ∧
    (solve (stair.map Traced.given)).map Traced.value = [1, 2, 3] ∧
      (∀ t ∈ solve (stair.map Traced.given), ∀ d, d ∈ t.divisors ↔ d ∈ [2, 7 / 2, 45 / 14]) ∧
      (∀ d ∈ ([2, 7 / 2, 45 / 14] : List Rat), 2 ≤ d) ∧
      Tridiagonal stair [1, 2, 3] ∧ ∀ xs, Tridiagonal stair xs → xs = [1, 2, 3] := by
  have htwo : 2 ≤ stair.length := by decide
  have hsolve : solve stair = [1, 2, 3] := by decide +kernel
  have hpivots : pivots stair = [2, 7 / 2, 45 / 14] := by decide +kernel
  have hexact := solve_exact stair htwo
  rw [hsolve, hpivots] at hexact
  exact ⟨htwo, hexact⟩

end Spline
end CellSketch
