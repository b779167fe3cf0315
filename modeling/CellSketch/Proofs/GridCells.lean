import Mathlib.Tactic.Common
import CellSketch.Grid

/-!
# GridCells — the cells of a grid in order

* `mem_cells` — the cells that are listed are those that have a character;
* `pairwise_cells` — they are listed row by row, so each of them once.
-/

namespace CellSketch

/-- Row by row from the top, each row from the left. -/
def Cell.Before (a b : Cell) : Prop := a.y < b.y ∨ (a.y = b.y ∧ a.x < b.x)

theorem Cell.Before.asymm {a b : Cell} (h : a.Before b) : ¬ b.Before a := by
  unfold Before at *
  omega

namespace Grid

theorem at?_eq_some_iff {g : Grid} {cell : Cell} {c : Char} :
    g.at? cell = some c ↔ ∃ x y : Nat, cell = ⟨x, y⟩ ∧
      ∃ row, g.rows[y]? = some row ∧ row[x]? = some c := by
  obtain ⟨x, y⟩ := cell
  rw [at?]
  constructor
  · intro h
    split at h
    · exact absurd h (by simp)
    · rename_i hneg
      obtain ⟨row, hrow, hc⟩ := Option.bind_eq_some_iff.1 h
      refine ⟨x.toNat, y.toNat, ?_, row, hrow, hc⟩
      rw [Cell.mk.injEq]
      dsimp only at hneg
      omega
  · rintro ⟨x', y', hcell, row, hrow, hc⟩
    rw [Cell.mk.injEq] at hcell
    obtain ⟨rfl, rfl⟩ := hcell
    have hneg : ¬ ((x' : Int) < 0 ∨ (y' : Int) < 0) := by omega
    rw [if_neg hneg]
    exact Option.bind_eq_some_iff.2 ⟨row, hrow, hc⟩

theorem mem_cells {g : Grid} {cell : Cell} {c : Char} :
    (cell, c) ∈ g.cells ↔ g.at? cell = some c := by
  rw [at?_eq_some_iff, cells, List.mem_flatMap]
  constructor
  · rintro ⟨⟨row, y⟩, hrow, hcell⟩
    obtain ⟨⟨d, x⟩, hd, heq⟩ := List.mem_map.1 hcell
    rw [Prod.mk.injEq] at heq
    obtain ⟨rfl, rfl⟩ := heq
    refine ⟨x, y, rfl, row, ?_, ?_⟩
    · rw [← Array.getElem?_toList]
      exact List.mem_zipIdx_iff_getElem?.1 hrow
    · rw [← Array.getElem?_toList]
      exact List.mem_zipIdx_iff_getElem?.1 hd
  · rintro ⟨x, y, rfl, row, hrow, hc⟩
    rw [← Array.getElem?_toList] at hrow hc
    exact ⟨(row, y), List.mem_zipIdx_iff_getElem?.2 hrow,
      List.mem_map.2 ⟨(c, x), List.mem_zipIdx_iff_getElem?.2 hc, rfl⟩⟩

theorem pairwise_zipIdx {α : Type} (l : List α) :
    l.zipIdx.Pairwise fun a b => a.2 < b.2 := by
  rw [List.pairwise_iff_getElem]
  intro i j hi hj hij
  simpa using hij

theorem pairwise_cells (g : Grid) : g.cells.Pairwise fun a b => a.1.Before b.1 := by
  rw [cells, List.pairwise_flatMap]
  constructor
  · rintro ⟨row, y⟩ -
    rw [List.pairwise_map]
    refine (pairwise_zipIdx _).imp fun {a b} hab => Or.inr ⟨rfl, ?_⟩
    exact Int.ofNat_lt.2 hab
  · refine (pairwise_zipIdx _).imp fun {a b} hab => ?_
    intro p hp q hq
    obtain ⟨_, -, rfl⟩ := List.mem_map.1 hp
    obtain ⟨_, -, rfl⟩ := List.mem_map.1 hq
    exact Or.inl (Int.ofNat_lt.2 hab)

/-- A cell with a character that comes before another one is among those listed before it. -/
theorem mem_of_before {g : Grid} {done rest : List (Cell × Char)} {cell cell' : Cell} {c c' : Char}
    (h : g.cells = done ++ (cell, c) :: rest) (hat : g.at? cell' = some c')
    (hbefore : cell'.Before cell) : (cell', c') ∈ done := by
  have hmem := mem_cells.2 hat
  have hpairwise := g.pairwise_cells
  rw [h] at hmem hpairwise
  have hrest := (List.pairwise_cons.1 (List.pairwise_append.1 hpairwise).2.1).1
  rcases List.mem_append.1 hmem with hmem | hmem
  · exact hmem
  · rcases List.mem_cons.1 hmem with heq | hmem
    · rw [Prod.mk.injEq] at heq
      rw [heq.1] at hbefore
      exact absurd hbefore hbefore.asymm
    · exact absurd hbefore (hrest _ hmem).asymm

theorem before_of_mem {g : Grid} {done rest : List (Cell × Char)} {cell cell' : Cell} {c c' : Char}
    (h : g.cells = done ++ (cell, c) :: rest) (hmem : (cell', c') ∈ done) : cell'.Before cell := by
  have hpairwise := g.pairwise_cells
  rw [h] at hpairwise
  exact (List.pairwise_append.1 hpairwise).2.2 _ hmem _ List.mem_cons_self

end Grid
end CellSketch
