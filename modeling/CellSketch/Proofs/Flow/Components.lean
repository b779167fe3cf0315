import Mathlib.Data.List.Nodup
import Mathlib.Data.List.Pairwise
import Mathlib.Logic.Relation
import Mathlib.Tactic.Common
import CellSketch.Flow.Grouping
import CellSketch.Flow.Layout

/-!
# Components — which nodes of a graph belong together

Two nodes are linked when edges lead from one to the other, in any direction and over any number of
other nodes.  The components of a graph are its linked nodes:

* `Shared.eq_of_mem` — each node is in one component only;
* `Splits.linked_iff_of_mem` — nodes are linked exactly when they are in one component;
* `Splits.join` — one more edge keeps the components apart and linked inside;
* `splits_joined` — the components that are put together edge by edge are the linked nodes.
-/

namespace CellSketch
namespace Flow

/-- Vertices that edges lead between, in either direction and over any number of others. -/
def Linked (edges : List (Nat × Nat)) : Nat → Nat → Prop :=
  Relation.EqvGen fun a b => (a, b) ∈ edges

/-- Nodes of a graph that its edges lead between. -/
def Graph.Linked (g : Graph) : Nat → Nat → Prop := Flow.Linked g.indexedEdges

theorem Linked.mono {edges more : List (Nat × Nat)} (h : edges ⊆ more) {v w : Nat}
    (hlinked : Linked edges v w) : Linked more v w :=
  Relation.EqvGen.mono (fun _ _ hmem => h hmem) v w hlinked

/-! ## What components share out -/

namespace Shared

variable {count : Nat} {cs : List Component}

theorem nodup (S : Shared count cs) : cs.flatten.Nodup :=
  S.perm.nodup_iff.2 List.nodup_range

theorem exists_mem (S : Shared count cs) {v : Nat} (h : v < count) : ∃ c ∈ cs, v ∈ c :=
  List.mem_flatten.1 (S.perm.mem_iff.2 (List.mem_range.2 h))

theorem lt_of_mem (S : Shared count cs) {c : Component} (hc : c ∈ cs) {v : Nat} (hv : v ∈ c) :
    v < count :=
  List.mem_range.1 (S.perm.mem_iff.1 (List.mem_flatten_of_mem hc hv))

/-- A vertex is in one component only. -/
theorem eq_of_mem (S : Shared count cs) {c d : Component} (hc : c ∈ cs) (hd : d ∈ cs)
    {v : Nat} (hvc : v ∈ c) (hvd : v ∈ d) : c = d := by
  by_contra hne
  have hsymm : Std.Symm (List.Disjoint (α := Nat)) := ⟨fun _ _ => List.disjoint_symm⟩
  exact (List.nodup_flatten.1 S.nodup).2.forall hc hd hne hvc hvd

end Shared

/-! ## What edges leave apart -/

/-- Components that share out the vertices below `count`, linked inside by edges that do not leave
them. -/
structure Splits (count : Nat) (edges : List (Nat × Nat)) (cs : List Component) : Prop
    extends Shared count cs where
  linked : ∀ c ∈ cs, ∀ v ∈ c, ∀ w ∈ c, Linked edges v w
  closed : ∀ e ∈ edges, ∀ c ∈ cs, e.1 ∈ c ↔ e.2 ∈ c

namespace Splits

variable {count : Nat} {edges : List (Nat × Nat)} {cs : List Component}

theorem of_perm (S : Splits count edges cs) {cs' : List Component} (h : cs'.Perm cs) :
    Splits count edges cs' where
  perm := h.flatten.trans S.perm
  inhabited c hc := S.inhabited c (h.mem_iff.1 hc)
  linked c hc := S.linked c (h.mem_iff.1 hc)
  closed e he c hc := S.closed e he c (h.mem_iff.1 hc)

/-- Every vertex by itself, without edges. -/
theorem single (count : Nat) : Splits count [] ((List.range count).map ([·])) where
  toShared := Shared.single count
  linked c hc v hv w hw := by
    obtain ⟨u, -, rfl⟩ := List.mem_map.1 hc
    rw [List.mem_singleton.1 hv, List.mem_singleton.1 hw]
    exact Relation.EqvGen.refl u
  closed e he := by cases he

/-- One more edge. -/
theorem join (S : Splits count edges cs) {e : Nat × Nat} (h₁ : e.1 < count) (h₂ : e.2 < count) :
    Splits count (edges ++ [e]) (joinComponents cs e) := by
  have hmono {v w : Nat} : Linked edges v w → Linked (edges ++ [e]) v w :=
    Linked.mono (List.subset_append_left edges [e])
  rcases joinComponents_cases S.nodup e with ⟨heq, hsame⟩ | ⟨a, b, rest, hperm, hea, heb, hjoined⟩
  · obtain ⟨c, hc, hec₁, hec₂⟩ : ∃ c ∈ cs, e.1 ∈ c ∧ e.2 ∈ c := by
      rcases hsame with hnone | hnone | hsame
      · obtain ⟨c, hc, hmem⟩ := S.exists_mem h₁
        exact absurd hmem (hnone c hc)
      · obtain ⟨c, hc, hmem⟩ := S.exists_mem h₂
        exact absurd hmem (hnone c hc)
      · exact hsame
    refine ⟨S.toShared.join e, ?_, ?_⟩ <;> rw [heq]
    · exact fun c hc v hv w hw => hmono (S.linked c hc v hv w hw)
    intro f hf d hd
    rcases List.mem_append.1 hf with hf | hf
    · exact S.closed f hf d hd
    · rw [List.mem_singleton.1 hf]
      exact ⟨fun hmem => S.eq_of_mem hc hd hec₁ hmem ▸ hec₂,
        fun hmem => S.eq_of_mem hc hd hec₂ hmem ▸ hec₁⟩
  · have hmem {c : Component} (hc : c ∈ joinComponents cs e) : c = a ++ b ∨ c ∈ rest :=
      List.mem_cons.1 (hjoined.mem_iff.1 hc)
    replace hjoined := S.toShared.join e
    replace S := S.of_perm hperm.symm
    have hamem : a ∈ a :: b :: rest := List.mem_cons_self
    have hbmem : b ∈ a :: b :: rest := List.mem_cons_of_mem a List.mem_cons_self
    have hrest {c : Component} (hc : c ∈ rest) : c ∈ a :: b :: rest :=
      List.mem_cons_of_mem a (List.mem_cons_of_mem b hc)
    refine ⟨hjoined, fun c hc => ?_, fun f hf c hc => ?_⟩
    · -- the new edge links the two halves of the joined component
      have hcross {v w : Nat} (hv : v ∈ a) (hw : w ∈ b) : Linked (edges ++ [e]) v w :=
        ((hmono (S.linked a hamem v hv e.1 hea)).trans _ _ _
          (Relation.EqvGen.rel _ _ (by simp))).trans _ _ _ (hmono (S.linked b hbmem e.2 heb w hw))
      intro v hv w hw
      rcases hmem hc with rfl | hc
      · rcases List.mem_append.1 hv with hv | hv <;> rcases List.mem_append.1 hw with hw | hw
        · exact hmono (S.linked a hamem v hv w hw)
        · exact hcross hv hw
        · exact (hcross hw hv).symm
        · exact hmono (S.linked b hbmem v hv w hw)
      · exact hmono (S.linked c (hrest hc) v hv w hw)
    · rcases List.mem_append.1 hf with hf | hf
      · rcases hmem hc with rfl | hc
        · rw [List.mem_append, List.mem_append, S.closed f hf a hamem, S.closed f hf b hbmem]
        · exact S.closed f hf c (hrest hc)
      · rw [List.mem_singleton.1 hf]
        rcases hmem hc with rfl | hc
        · simp [hea, heb]
        · have hdisjoint := S.nodup
          simp only [List.flatten_cons, List.nodup_append', List.disjoint_append_right] at hdisjoint
          obtain ⟨-, ⟨-, -, hbrest⟩, -, harest⟩ := hdisjoint
          exact ⟨fun hmem => (harest hea (List.mem_flatten_of_mem hc hmem)).elim,
            fun hmem => (hbrest heb (List.mem_flatten_of_mem hc hmem)).elim⟩

/-- All edges of a list, one after the other. -/
theorem joinAll (S : Splits count edges cs) (more : List (Nat × Nat))
    (h : ∀ e ∈ more, e.1 < count ∧ e.2 < count) :
    Splits count (edges ++ more) (more.foldl joinComponents cs) := by
  induction more generalizing edges cs with
  | nil => rwa [List.append_nil]
  | cons e more ih =>
      obtain ⟨h₁, h₂⟩ := h e List.mem_cons_self
      rw [List.append_cons]
      exact ih (S.join h₁ h₂) fun f hf => h f (List.mem_cons_of_mem e hf)

/-- Linked vertices are in the same components. -/
theorem mem_iff_of_linked (S : Splits count edges cs) {v w : Nat} (h : Linked edges v w)
    {c : Component} (hc : c ∈ cs) : v ∈ c ↔ w ∈ c := by
  induction h with
  | rel v w hedge => exact S.closed (v, w) hedge c hc
  | refl v => exact Iff.rfl
  | symm v w _ ih => exact ih.symm
  | trans u v w _ _ ih₁ ih₂ => exact ih₁.trans ih₂

/-- Vertices are linked exactly when they are in one component. -/
theorem linked_iff_of_mem (S : Splits count edges cs) {c d : Component} (hc : c ∈ cs) (hd : d ∈ cs)
    {v w : Nat} (hv : v ∈ c) (hw : w ∈ d) : Linked edges v w ↔ c = d := by
  constructor
  · intro h
    exact S.eq_of_mem hc hd ((S.mem_iff_of_linked h hc).1 hv) hw
  · rintro rfl
    exact S.linked c hc v hv w hw

end Splits

/-- The components that are put together edge by edge are the linked vertices. -/
theorem splits_joined {count : Nat} {edges : List (Nat × Nat)}
    (h : ∀ e ∈ edges, e.1 < count ∧ e.2 < count) : Splits count edges (joined count edges) := by
  simpa [joined] using (Splits.single count).joinAll edges h

/-! ## Graphs -/

namespace Graph

theorem lt_of_mem_indexedEdges {g : Graph} {e : Nat × Nat} (h : e ∈ g.indexedEdges) :
    e.1 < g.nodes.length ∧ e.2 < g.nodes.length := by
  obtain ⟨edge, -, hedge⟩ := List.mem_filterMap.1 h
  obtain ⟨a, ha, hedge⟩ := Option.bind_eq_some_iff.1 hedge
  obtain ⟨b, hb, hedge⟩ := Option.bind_eq_some_iff.1 hedge
  cases hedge
  exact ⟨(List.findIdx?_eq_some_iff_findIdx_eq.1 ha).1,
    (List.findIdx?_eq_some_iff_findIdx_eq.1 hb).1⟩

/-- Each node of a graph is in one component. -/
theorem shared_components {α : Type} (g : Graph) (engine : Engine α) :
    Shared g.nodes.length (g.components engine) :=
  engine.shared _ _

end Graph

/-- An engine whose components of a graph are the linked nodes. -/
def Engine.Groups {α : Type} (engine : Engine α) (g : Graph) : Prop :=
  Splits g.nodes.length g.indexedEdges (g.components engine)

namespace Engine.Groups

variable {α : Type} {engine : Engine α} {g : Graph}

theorem of_joined (h : engine.components = joined) : engine.Groups g := by
  rw [Groups, Graph.components, h]
  exact splits_joined fun e he => Graph.lt_of_mem_indexedEdges he

/-- Nodes are in one component exactly if they are linked. -/
theorem mem_component_iff_linked (h : engine.Groups g) {i j : Nat}
    (hi : i < g.nodes.length) (hj : j < g.nodes.length) :
    (∃ c ∈ g.components engine, i ∈ c ∧ j ∈ c) ↔ g.Linked i j := by
  have S : Splits _ _ _ := h
  obtain ⟨c, hc, hic⟩ := S.exists_mem hi
  obtain ⟨d, hd, hjd⟩ := S.exists_mem hj
  rw [Graph.Linked, S.linked_iff_of_mem hc hd hic hjd]
  constructor
  · rintro ⟨e, he, hie, hje⟩
    rw [S.eq_of_mem hc he hic hie, S.eq_of_mem hd he hjd hje]
  · rintro rfl
    exact ⟨c, hc, hic, hjd⟩

end Engine.Groups

end Flow
end CellSketch
