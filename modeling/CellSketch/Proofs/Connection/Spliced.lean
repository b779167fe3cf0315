import Mathlib.Data.List.Destutter
import CellSketch.Proofs.Connection.Planned
import CellSketch.Proofs.Number.Wholes

/-!
# Spliced — what normalization makes of a list of points

Normalization goes once over the points and compares each of them with the last cell of the chain so
far.  What comes out can be told in three steps that know nothing of each other: complete points are
cut to cells, equal neighbours collapse into one, and a corner is spliced in where two neighbours
share neither column nor row.

* `RawPoint.cutCell?`, `kept` — the cells of the complete points, without repeated neighbours;
* `splice` — cells with a corner at every jump;
* `cells_eq_ok_iff` — just finite points are cut to cells;
* `chain_eq_splice` — one pass does what the steps do;
* `normalize_splices` — normalization yields the spliced cells, which it does not change again.
-/

namespace CellSketch
namespace Connection

open Number

/-! ## Complete points -/

namespace RawPoint

/-- A complete point has a place in the plane, if it is one. -/
def Finite (p : RawPoint Measure) : Prop :=
  ∀ x y, p = some [some x, some y] → x.value?.isSome ∧ y.value?.isSome

/-- The cell of a complete point, its coordinates cut toward zero. -/
def cutCell? : RawPoint Measure → Option Cell
  | some [some x, some y] => do
      let x ← x.value?
      let y ← y.value?
      some ⟨cut x, cut y⟩
  | _ => none

end RawPoint

/-- The cells of the complete points, of equal neighbours only one. -/
def kept (points : List (RawPoint Measure)) : List Cell :=
  (points.filterMap RawPoint.cutCell?).destutter (· ≠ ·)

theorem trunc_of_value? {m : Measure} {x : Rat} (h : m.value? = some x) :
    Scalar.trunc m = .ok (cut x) := by
  have htrunc := toOption_trunc m
  rw [h] at htrunc
  cases hm : Scalar.trunc m with
  | error fault =>
      rw [hm] at htrunc
      cases htrunc
  | ok n =>
      rw [hm] at htrunc
      exact congrArg Except.ok (Option.some.inj htrunc)

theorem isSome_value?_of_trunc {m : Measure} {n : Int} (h : Scalar.trunc m = .ok n) :
    m.value?.isSome := by
  have htrunc := toOption_trunc m
  rw [h] at htrunc
  cases hm : m.value? with
  | none =>
      rw [hm] at htrunc
      cases htrunc
  | some x => rfl

namespace RawPoint

variable {p : RawPoint Measure}

theorem cell?_of_finite (h : p.Finite) : p.cell? = .ok p.cutCell? := by
  unfold cell?
  split
  · rename_i x y
    obtain ⟨hx, hy⟩ := h x y rfl
    obtain ⟨x', hx'⟩ := Option.isSome_iff_exists.1 hx
    obtain ⟨y', hy'⟩ := Option.isSome_iff_exists.1 hy
    rw [cutCell?, hx', hy', trunc_of_value? hx', trunc_of_value? hy']
    rfl
  · rename_i hincomplete
    rw [cutCell?]
    exact hincomplete

theorem finite_of_cell? {c : Option Cell} (h : p.cell? = .ok c) : p.Finite := by
  rintro x y rfl
  rw [cell?] at h
  cases hx : Scalar.trunc x with
  | error fault =>
      rw [hx] at h
      cases h
  | ok column =>
      cases hy : Scalar.trunc y with
      | error fault =>
          rw [hx, hy] at h
          cases h
      | ok row => exact ⟨isSome_value?_of_trunc hx, isSome_value?_of_trunc hy⟩

end RawPoint

/-- Points are cut to cells if and only if all complete ones are finite. -/
theorem cells_eq_ok_iff {points : List (RawPoint Measure)} {given : List Cell} :
    cells points = .ok given ↔
      (∀ p ∈ points, p.Finite) ∧ given = points.filterMap RawPoint.cutCell? := by
  induction points generalizing given with
  | nil => simp [cells, eq_comm]
  | cons p rest ih =>
      rw [List.forall_mem_cons, cells]
      constructor
      · intro h
        cases hcell : p.cell? with
        | error fault =>
            rw [hcell] at h
            cases h
        | ok c =>
            cases hrest : cells rest with
            | error fault =>
                rw [hcell, hrest] at h
                cases h
            | ok others =>
                have hp := RawPoint.finite_of_cell? hcell
                obtain ⟨hfinite, rfl⟩ := ih.1 hrest
                refine ⟨⟨hp, hfinite⟩, ?_⟩
                rw [RawPoint.cell?_of_finite hp, hrest] at h
                cases hc : p.cutCell? with
                | none => simpa [bind, Except.bind, hc, eq_comm] using h
                | some c => simpa [bind, Except.bind, hc, eq_comm] using h
      · rintro ⟨⟨hp, hrest⟩, rfl⟩
        have hmore : cells rest = .ok (rest.filterMap RawPoint.cutCell?) := ih.2 ⟨hrest, rfl⟩
        rw [RawPoint.cell?_of_finite hp, hmore]
        cases hc : p.cutCell? with
        | none => simp [bind, Except.bind, hc]
        | some c => simp [bind, Except.bind, hc]

/-! ## Splicing -/

/-- The corner in the old column and the new row, where both change. -/
def elbow (a b : Cell) : List Cell := if a.x ≠ b.x ∧ a.y ≠ b.y then [⟨a.x, b.y⟩] else []

/-- Cells with a corner between each two neighbours that share neither column nor row. -/
def splice : List Cell → List Cell
  | [] => []
  | [c] => [c]
  | a :: b :: rest => a :: (elbow a b ++ splice (b :: rest))

theorem head?_splice (given : List Cell) : (splice given).head? = given.head? := by
  match given with
  | [] => rfl
  | [_] => rfl
  | _ :: _ :: _ => rfl

theorem getLast?_splice (given : List Cell) : (splice given).getLast? = given.getLast? := by
  match given with
  | [] => rfl
  | [_] => rfl
  | a :: b :: rest =>
      have hrest := getLast?_splice (b :: rest)
      have hlast : (b :: rest).getLast? = some ((b :: rest).getLast (List.cons_ne_nil b rest)) :=
        List.getLast?_eq_getLast_of_ne_nil _
      rw [splice, List.getLast?_cons, List.getLast?_append, hrest, List.getLast?_cons_cons, hlast]
      rfl

/-- What is left of cells that go on from another one begins with that one. -/
theorem exists_destutter'_eq_cons (first : Cell) (rest : List Cell) :
    ∃ more, rest.destutter' (· ≠ ·) first = first :: more := by
  induction rest with
  | nil => exact ⟨[], rfl⟩
  | cons c rest ih =>
      rw [List.destutter'_cons]
      split
      · exact ⟨_, rfl⟩
      · exact ih

theorem chainFrom_eq_splice (last : Cell) (given : List Cell) :
    last :: chainFrom last given = splice (given.destutter' (· ≠ ·) last) := by
  induction given generalizing last with
  | nil => rfl
  | cons c rest ih =>
      rw [chainFrom]
      by_cases heq : last = c
      · -- a repeated cell is dropped on both sides
        rw [if_pos heq, List.destutter'_cons_neg rest (not_not.2 heq), ih last]
      · obtain ⟨more, hmore⟩ := exists_destutter'_eq_cons c rest
        have hrest := ih c
        rw [if_neg heq, List.destutter'_cons_pos rest heq, hmore, splice, ← hmore, ← hrest, elbow]
        split <;> rfl

/-- One pass over the cells collapses repeated ones and splices in the corners. -/
theorem chain_eq_splice (given : List Cell) :
    chain given = splice (given.destutter (· ≠ ·)) := by
  cases given with
  | nil => rfl
  | cons first rest => exact chainFrom_eq_splice first rest

/-! ## Normalization -/

theorem normalize_eq_ok_iff {points : List (RawPoint Measure)} {chained : List Cell} :
    normalize points = .ok chained ↔
      (∀ p ∈ points, p.Finite) ∧ chained = splice (kept points) := by
  constructor
  · intro h
    cases hcells : cells points with
    | error fault =>
        rw [normalize, hcells] at h
        cases h
    | ok given =>
        obtain ⟨hfinite, rfl⟩ := cells_eq_ok_iff.1 hcells
        rw [normalize, hcells] at h
        exact ⟨hfinite, (Except.ok.inj h).symm.trans (chain_eq_splice _)⟩
  · rintro ⟨hfinite, rfl⟩
    rw [normalize, cells_eq_ok_iff.2 ⟨hfinite, rfl⟩]
    exact congrArg Except.ok (chain_eq_splice _)

theorem normalize_of_aligned {cells : List Cell} (h : cells.IsChain Aligned) :
    normalize (pointsThrough Measure cells) = .ok cells := by
  rw [normalize_pointsThrough Halves.doubles, chain_eq_self h]

/-- Normalization fails only at a complete point that is infinite or has no place at all.  Without
such points it yields the cells that are kept, with one corner spliced in at each jump and nothing
else.  Neighbours in the result differ in exactly one coordinate, both ends are kept, and neither
the result nor any other such chain is changed by another pass. -/
theorem normalize_splices (points : List (RawPoint Measure)) :
    ((∃ chained, normalize points = .ok chained) ↔ ∀ p ∈ points, p.Finite) ∧
      ((∀ p ∈ points, p.Finite) →
        normalize points = .ok (splice (kept points)) ∧
        (splice (kept points)).IsChain Aligned ∧
        (splice (kept points)).head? = (kept points).head? ∧
        (splice (kept points)).getLast? = (kept points).getLast? ∧
        normalize (pointsThrough Measure (splice (kept points))) = .ok (splice (kept points))) ∧
      ∀ cells : List Cell, cells.IsChain Aligned →
        normalize (pointsThrough Measure cells) = .ok cells := by
  have haligned : (splice (kept points)).IsChain Aligned := by
    rw [kept, ← chain_eq_splice]
    exact isChain_chain _
  refine ⟨⟨?_, fun h => ⟨_, normalize_eq_ok_iff.2 ⟨h, rfl⟩⟩⟩, fun h => ?_,
    fun cells => normalize_of_aligned⟩
  · rintro ⟨chained, hchained⟩
    exact (normalize_eq_ok_iff.1 hchained).1
  · exact ⟨normalize_eq_ok_iff.2 ⟨h, rfl⟩, haligned, head?_splice _, getLast?_splice _,
      normalize_of_aligned haligned⟩

/-- Points with gaps among them, fractions that are cut to repeated cells, and two jumps. -/
def scrawl : List (RawPoint Measure) :=
  [some [some (.whole 0), some (.whole 0)], none, some [some (.real 0.75), some (.real (-0.5))],
    some [some (.whole 9)], some [some (.whole 2), some (.real (-3.5))],
    some [none, some (.whole 4)], some [some (.whole 2), some (.whole (-3))], some [],
    some [some (.whole 5), some (.whole 1)]]

theorem normalize_splices_scrawl :
    (∀ p ∈ scrawl, p.Finite) ∧ kept scrawl = [⟨0, 0⟩, ⟨2, -3⟩, ⟨5, 1⟩] ∧
      normalize scrawl = .ok [⟨0, 0⟩, ⟨0, -3⟩, ⟨2, -3⟩, ⟨2, 1⟩, ⟨5, 1⟩] := by
  have hchained : normalize scrawl = .ok [⟨0, 0⟩, ⟨0, -3⟩, ⟨2, -3⟩, ⟨2, 1⟩, ⟨5, 1⟩] := by
    decide +kernel
  have hfinite := (normalize_splices scrawl).1.1 ⟨_, hchained⟩
  have hkept : kept scrawl = [⟨0, 0⟩, ⟨2, -3⟩, ⟨5, 1⟩] := by decide +kernel
  have hnormal := ((normalize_splices scrawl).2.1 hfinite).1
  rw [hkept] at hnormal
  exact ⟨hfinite, hkept, hnormal⟩

end Connection
end CellSketch
