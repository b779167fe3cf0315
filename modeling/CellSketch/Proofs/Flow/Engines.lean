import Mathlib.Data.List.Forall2
import CellSketch.Proofs.Flow.Components

/-!
# Engines — what the answers of an engine come to

A graph is drawn component by component, up to the first that the engine cannot draw or that has a
centre in no cell.  What is drawn are the components of the engine, in their order, with a corner
for each box.

* `Engine.corners_eq_ok_iff` — the corners of a network are the cells next to its centres;
* `Graph.drawnBy_eq_ok_iff` — a graph is drawn exactly if each of its components is;
* `Graph.drawn_of_drawnBy` — what is drawn has a corner for every node;
* `exists_drawnBy` — a layout has what was drawn in it.
-/

namespace CellSketch
namespace Flow

open Number

/-! ## Work that can fail -/

section Except

variable {ε ε' α β : Type} {x : Except ε α}

theorem bind_eq_ok_iff {next : α → Except ε β} {b : β} :
    x >>= next = .ok b ↔ ∃ a, x = .ok a ∧ next a = .ok b := by
  cases x with
  | error e => exact ⟨nofun, fun ⟨_, hx, _⟩ => nomatch hx⟩
  | ok a =>
      refine ⟨fun h => ⟨a, rfl, h⟩, ?_⟩
      rintro ⟨_, ⟨⟩, h⟩
      exact h

theorem map_eq_ok_iff {f : α → β} {b : β} : x.map f = .ok b ↔ ∃ a, x = .ok a ∧ f a = b := by
  cases x <;> simp [Except.map]

theorem mapError_eq_ok_iff {f : ε → ε'} {a : α} : x.mapError f = .ok a ↔ x = .ok a := by
  cases x <;> simp [Except.mapError]

theorem mapError_eq_error_iff {f : ε → ε'} {e : ε'} :
    x.mapError f = .error e ↔ ∃ cause, x = .error cause ∧ f cause = e := by
  cases x <;> simp [Except.mapError]

end Except

section Traverse

variable {ε α β : Type} {f : α → Except ε β}

/-- Work on a list succeeds exactly if the work on each element does. -/
theorem mapM_eq_ok_iff {xs : List α} {ys : List β} :
    xs.mapM f = .ok ys ↔ List.Forall₂ (fun x y => f x = .ok y) xs ys := by
  induction xs generalizing ys with
  | nil =>
      rw [List.mapM_nil, List.forall₂_nil_left_iff]
      exact ⟨fun h => (Except.ok.inj h).symm, fun h => h ▸ rfl⟩
  | cons x xs ih =>
      rw [List.mapM_cons, bind_eq_ok_iff, List.forall₂_cons_left_iff]
      constructor
      · rintro ⟨y, hy, h⟩
        obtain ⟨rest, hrest, h⟩ := bind_eq_ok_iff.1 h
        exact ⟨y, rest, hy, ih.1 hrest, (Except.ok.inj h).symm⟩
      · rintro ⟨y, rest, hy, hrest, rfl⟩
        exact ⟨y, hy, bind_eq_ok_iff.2 ⟨rest, ih.2 hrest, rfl⟩⟩

theorem exists_mapM (xs : List α) (h : ∀ x ∈ xs, ∃ y, f x = .ok y) : ∃ ys, xs.mapM f = .ok ys := by
  induction xs with
  | nil => exact ⟨[], rfl⟩
  | cons x xs ih =>
      obtain ⟨⟨y, hy⟩, hxs⟩ := List.forall_mem_cons.1 h
      obtain ⟨ys, hys⟩ := ih hxs
      exact ⟨y :: ys, mapM_eq_ok_iff.2 (.cons hy (mapM_eq_ok_iff.1 hys))⟩

/-- Work on a list fails where the work on an element does. -/
theorem mapM_cases (xs : List α) : (∃ ys, xs.mapM f = .ok ys) ∨
    ∃ x ∈ xs, ∃ e, f x = .error e ∧ xs.mapM f = .error e := by
  induction xs with
  | nil => exact .inl ⟨[], rfl⟩
  | cons x xs ih =>
      rw [List.mapM_cons]
      cases hx : f x with
      -- the first failure ends the work
      | error e => exact .inr ⟨x, List.mem_cons_self, e, hx, rfl⟩
      | ok y =>
          rcases ih with ⟨ys, hys⟩ | ⟨z, hz, e, hfailed, herror⟩
          · rw [hys]
            exact .inl ⟨_, rfl⟩
          · rw [herror]
            exact .inr ⟨z, List.mem_cons_of_mem x hz, e, hfailed, rfl⟩

end Traverse

/-! ## Networks -/

namespace Engine

variable {α : Type} [Scalar α] {engine : Engine α} {n : Network} {cells : List Cell}

theorem centresOf_of_ne (h : n.size ≠ 1) :
    engine.centresOf n = (engine.centres n).mapError .layoutFailed := by
  rw [centresOf]
  split
  · rename_i w hw
    exact absurd (by rw [Network.size, ← Array.length_toList, hw]; rfl) h
  · rfl

/-- The corners of a network are the cells next to those of the boxes around its centres. -/
theorem corners_eq_ok_iff : engine.corners n = .ok cells ↔
    ∃ centre, engine.centresOf n = .ok centre ∧
      List.Forall₂ (fun entry c => snap (centre entry.2) entry.1 = .ok c) n.widths.toList.zipIdx
        cells := by
  rw [corners, bind_eq_ok_iff]
  exact exists_congr fun centre => and_congr_right' (mapError_eq_ok_iff.trans mapM_eq_ok_iff)

theorem length_corners (h : engine.corners n = .ok cells) : cells.length = n.size := by
  obtain ⟨centre, -, hcells⟩ := corners_eq_ok_iff.1 h
  rw [← hcells.length_eq, List.length_zipIdx, Array.length_toList, Network.size]

/-- A box has the cell next to the corner of a box around its centre. -/
theorem snap_of_getElem? {centre : Nat → Point α}
    (h : List.Forall₂ (fun entry c => snap (centre entry.2) entry.1 = .ok c)
      n.widths.toList.zipIdx cells) {i w : Nat} {c : Cell} (hw : n.widths.toList[i]? = some w)
    (hc : cells[i]? = some c) : snap (centre i) w = .ok c := by
  have hentry : n.widths.toList.zipIdx[i]? = some (w, i) := by
    rw [List.getElem?_zipIdx, hw, Option.map_some, Nat.zero_add]
  obtain ⟨hi, hentry⟩ := List.getElem?_eq_some_iff.1 hentry
  obtain ⟨hi', rfl⟩ := List.getElem?_eq_some_iff.1 hc
  have hsnap := (List.forall₂_iff_get.1 h).2 i hi hi'
  rwa [List.get_eq_getElem, hentry] at hsnap

end Engine

/-! ## Graphs -/

namespace Graph

variable {α : Type} [Scalar α] {engine : Engine α} {g : Graph}
  {drawn : List (Component × List Cell)}

/-- A graph is drawn exactly if each of its components is. -/
theorem drawnBy_eq_ok_iff : g.drawnBy engine = .ok drawn ↔
    drawn.map (·.1) = g.components engine ∧
      ∀ d ∈ drawn, engine.corners (g.network d.1) = .ok d.2 := by
  have hentry {c : Component} {d : Component × List Cell} :
      (engine.corners (g.network c)).map (c, ·) = .ok d ↔
        d.1 = c ∧ engine.corners (g.network d.1) = .ok d.2 := by
    rw [map_eq_ok_iff]
    constructor
    · rintro ⟨cells, h, rfl⟩
      exact ⟨rfl, h⟩
    · rintro ⟨rfl, h⟩
      exact ⟨d.2, h, rfl⟩
  rw [drawnBy, mapM_eq_ok_iff]
  generalize g.components engine = cs
  induction drawn generalizing cs with
  | nil => simp [eq_comm]
  | cons d rest ih =>
      rw [List.forall₂_cons_right_iff, List.map_cons, List.forall_mem_cons]
      constructor
      · rintro ⟨c, cs, hd, hrest, rfl⟩
        obtain ⟨hfst, hcells⟩ := hentry.1 hd
        obtain ⟨hmap, hall⟩ := (ih cs).1 hrest
        exact ⟨by rw [hfst, hmap], hcells, hall⟩
      · rintro ⟨rfl, hcells, hall⟩
        exact ⟨d.1, _, hentry.2 ⟨rfl, hcells⟩, (ih _).2 ⟨rfl, hall⟩, rfl⟩

/-- Components that share out the nodes of a graph, with a corner for each of their boxes. -/
structure Drawn (g : Graph) (drawn : List (Component × List Cell)) : Prop where
  shared : Shared g.nodes.length (drawn.map (·.1))
  length_eq : ∀ d ∈ drawn, d.2.length = d.1.length

/-- The width of the box of a node, by the node's index. -/
def widthAt (g : Graph) (i : Nat) : Nat := ((g.nodes[i]?).map (·.width)).getD 0

theorem widths_network {c : Component} (h : ∀ v ∈ c, v < g.nodes.length) :
    (g.network c).widths.toList = c.map g.widthAt := by
  rw [network]
  dsimp only
  rw [List.filterMap_eq_map_iff_forall_eq_some]
  intro v hv
  rw [widthAt, List.getElem?_eq_getElem (h v hv), Option.map_some, Option.getD_some]

theorem size_network {c : Component} (h : ∀ v ∈ c, v < g.nodes.length) :
    (g.network c).size = c.length := by
  rw [Network.size, ← Array.length_toList, widths_network h, List.length_map]

/-- What an engine draws has a corner for every node. -/
theorem drawn_of_drawnBy (h : g.drawnBy engine = .ok drawn) : g.Drawn drawn := by
  obtain ⟨hmap, hcorners⟩ := drawnBy_eq_ok_iff.1 h
  have S : Shared g.nodes.length (drawn.map (·.1)) := hmap ▸ g.shared_components engine
  refine ⟨S, fun d hd => ?_⟩
  rw [Engine.length_corners (hcorners d hd),
    size_network fun v hv => S.lt_of_mem (List.mem_map_of_mem hd) hv]

end Graph

/-! ## Layouts -/

section Layouts

variable {α : Type} [Scalar α] {engine : Engine α} {g : Graph}

theorem result_layoutWith :
    (layoutWith engine g).result = (g.drawnBy engine).map fun drawn => (g.layoutOf drawn).1 := by
  rw [layoutWith, Report.bind_result]
  change g.drawnBy engine >>= _ = _
  cases g.drawnBy engine <;> rfl

theorem result_of_drawnBy {drawn : List (Component × List Cell)}
    (h : g.drawnBy engine = .ok drawn) :
    (layoutWith engine g).result = .ok (g.layoutOf drawn).1 := by
  rw [result_layoutWith, h]
  rfl

/-- A layout has what the engine drew in it. -/
theorem exists_drawnBy {l : Layout} (h : (layoutWith engine g).result = .ok l) :
    ∃ drawn, g.drawnBy engine = .ok drawn ∧ (g.layoutOf drawn).1 = l := by
  rw [result_layoutWith] at h
  exact map_eq_ok_iff.1 h

end Layouts

end Flow
end CellSketch
