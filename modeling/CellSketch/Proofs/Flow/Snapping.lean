import CellSketch.Proofs.Flow.Engines
import CellSketch.Proofs.Number.Magnitude

/-!
# Snapping — centres that are not too large

An engine may answer with any doubles.  Where they are finite and not too large, the boxes around
them all have cells next to their corners, so that a graph is drawn unless the engine fails.

* `exists_snap` — there is a cell next to the corner of a box around a moderate centre;
* `Engine.Moderate.drawnBy_cases` — a graph is drawn, or the engine tells why it is not.
-/

namespace CellSketch
namespace Flow

open Number Doubles

theorem exists_snap {p : Point Measure} (hx : p.x.Moderate) (hy : p.y.Moderate) {w : Nat}
    (hw : w < 2 ^ 52) : ∃ c, snap p w = .ok c := by
  obtain ⟨x, hx⟩ := hx.exists_round hw
  obtain ⟨y, hy⟩ := hy.exists_round (w := boxHeight) (by decide)
  exact ⟨⟨x, y⟩, by rw [snap, hx, hy]; rfl⟩

namespace Engine

variable {engine : Engine Measure} {n : Network} {g : Graph}

/-- The engine's centres for a network, if there are any, are doubles below `2 ^ 968`. -/
def Bounds (engine : Engine Measure) (n : Network) : Prop :=
  ∀ centre, engine.centres n = .ok centre → ∀ v < n.size,
    (centre v).x.Moderate ∧ (centre v).y.Moderate

/-- An engine that does not give the centres of a network has failed on it. -/
theorem centresOf_error {e : Error} (h : engine.centresOf n = .error e) :
    ∃ reason, e = .layoutFailed reason := by
  rw [centresOf] at h
  split at h
  · cases h
  · obtain ⟨reason, -, rfl⟩ := mapError_eq_error_iff.1 h
    exact ⟨reason, rfl⟩

/-- All boxes of a network have moderate centres, also one by itself. -/
theorem Bounds.centresOf (h : engine.Bounds n) (hwidths : ∀ w ∈ n.widths.toList, w < 2 ^ 52)
    {centre : Nat → Point Measure} (hcentre : engine.centresOf n = .ok centre) {v : Nat}
    (hv : v < n.size) : (centre v).x.Moderate ∧ (centre v).y.Moderate := by
  by_cases hsize : n.size = 1
  · obtain ⟨w, hw⟩ := List.length_eq_one_iff.1 hsize
    -- the engine is not asked for the centre of a single box
    rw [Engine.centresOf, hw] at hcentre
    obtain rfl := Except.ok.inj hcentre
    exact ⟨Measure.moderate_half (hwidths w (hw ▸ List.mem_singleton_self w)),
      Measure.moderate_half (w := boxHeight) (by decide)⟩
  · rw [centresOf_of_ne hsize, mapError_eq_ok_iff] at hcentre
    exact h centre hcentre v hv

/-- A network of moderate widths and centres has its corners, unless the engine fails. -/
theorem Bounds.corners_cases (h : engine.Bounds n)
    (hwidths : ∀ w ∈ n.widths.toList, w < 2 ^ 52) :
    (∃ cells, engine.corners n = .ok cells) ∨
      ∃ reason, engine.corners n = .error (.layoutFailed reason) := by
  cases hcentre : engine.centresOf n with
  | error e =>
      obtain ⟨reason, rfl⟩ := centresOf_error hcentre
      exact .inr ⟨reason, by rw [corners, hcentre]; rfl⟩
  | ok centre =>
      obtain ⟨cells, hcells⟩ := exists_mapM (f := fun entry => snap (centre entry.2) entry.1)
        n.widths.toList.zipIdx fun entry hentry => by
          have hw := List.mem_zipIdx_iff_getElem?.1 hentry
          obtain ⟨hx, hy⟩ := h.centresOf hwidths hcentre (List.getElem?_eq_some_iff.1 hw).1
          exact exists_snap hx hy (hwidths _ (List.mem_of_getElem? hw))
      exact .inl ⟨cells, corners_eq_ok_iff.2 ⟨centre, hcentre, mapM_eq_ok_iff.1 hcells⟩⟩

/-- The engine's centres for the components of a graph are doubles below `2 ^ 968`, as far as it
answers, and no label is longer than `2 ^ 52`. -/
structure Moderate (engine : Engine Measure) (g : Graph) : Prop where
  labels : ∀ n ∈ g.nodes, n.width < 2 ^ 52
  centres : ∀ c ∈ g.components engine, engine.Bounds (g.network c)

/-- A graph is drawn, or the engine tells why it is not. -/
theorem Moderate.drawnBy_cases (h : engine.Moderate g) :
    (∃ drawn, g.drawnBy engine = .ok drawn) ∨
      ∃ reason, g.drawnBy engine = .error (.layoutFailed reason) := by
  rcases mapM_cases (f := fun c => (engine.corners (g.network c)).map (c, ·)) (g.components engine)
    with hdrawn | ⟨c, hc, e, hfailed, herror⟩
  · exact .inl hdrawn
  · refine .inr ?_
    -- the widths of a component are widths of nodes
    have hwidths : ∀ w ∈ (g.network c).widths.toList, w < 2 ^ 52 := by
      intro w hw
      obtain ⟨v, -, hv⟩ := List.mem_filterMap.1 hw
      obtain ⟨node, hnode, rfl⟩ := Option.map_eq_some_iff.1 hv
      exact h.labels node (List.mem_of_getElem? hnode)
    rcases (h.centres c hc).corners_cases hwidths with ⟨cells, hcells⟩ | ⟨reason, hreason⟩
    · rw [hcells] at hfailed
      cases hfailed
    · rw [hreason] at hfailed
      cases hfailed
      exact ⟨reason, herror⟩

end Engine

end Flow
end CellSketch
