import CellSketch.Flow.Engine

/-!
# Grouping — connected components edge by edge

Every vertex starts as a component of its own.  Edge by edge the components of both ends are put
together, if they differ: the second one is appended to the first.

Main statements:

* `joinComponents_cases` — an edge joins two components or changes nothing;
* `shared_joined` — the components share out the vertices.
-/

namespace CellSketch
namespace Flow

/-- Puts the components of two joined vertices together, if they differ: the second one is appended
to the first. -/
def joinComponents (cs : List Component) (edge : Nat × Nat) : List Component :=
  match cs.find? (·.contains edge.1), cs.find? (·.contains edge.2) with
  | some a, some b =>
      if a.contains edge.2 then cs
      else (cs.filter fun c => !c.contains edge.2).map fun c =>
        if c.contains edge.1 then c ++ b else c
  | _, _ => cs

/-- The connected components of the vertices below `count`. -/
def joined (count : Nat) (edges : List (Nat × Nat)) : List Component :=
  edges.foldl joinComponents ((List.range count).map ([·]))

variable {cs : List Component}

/-- The two components with the ends of an edge are put together, and no other one changes. -/
theorem perm_appended {a b : Component} {rest : List Component} {e : Nat × Nat}
    (hnodup : cs.flatten.Nodup) (hperm : cs.Perm (a :: b :: rest)) (hea : e.1 ∈ a) (heb : e.2 ∈ b)
    (hapart : e.2 ∉ a) :
    ((cs.filter fun c => !c.contains e.2).map fun c => if c.contains e.1 then c ++ b else c).Perm
      ((a ++ b) :: rest) := by
  -- no other component has one of the two ends
  have hdisjoint := (hperm.flatten.nodup_iff).1 hnodup
  simp only [List.flatten_cons, List.nodup_append, List.mem_append] at hdisjoint
  obtain ⟨-, ⟨-, -, hbrest⟩, harest⟩ := hdisjoint
  have hrest : ∀ c ∈ rest, e.1 ∉ c ∧ e.2 ∉ c := fun c hc =>
    ⟨fun hmem => harest _ hea _ (.inr (List.mem_flatten_of_mem hc hmem)) rfl,
      fun hmem => hbrest _ heb _ (List.mem_flatten_of_mem hc hmem) rfl⟩
  have hfilter : (a :: b :: rest).filter (fun c => !c.contains e.2) = a :: rest := by
    rw [List.filter_cons_of_pos (by simpa using hapart),
      List.filter_cons_of_neg (by simpa using heb), List.filter_eq_self.2]
    intro c hc
    simpa using (hrest c hc).2
  refine ((hperm.filter _).map _).trans ?_
  rw [hfilter, List.map_cons, if_pos (by simpa using hea), List.map_congr_left, List.map_id]
  intro c hc
  rw [if_neg (by simpa using (hrest c hc).1), id]

/-- An edge joins the components of its ends, where these are two. -/
theorem joinComponents_cases (hnodup : cs.flatten.Nodup) (e : Nat × Nat) :
    (joinComponents cs e = cs ∧ ((∀ c ∈ cs, e.1 ∉ c) ∨ (∀ c ∈ cs, e.2 ∉ c) ∨
      ∃ c ∈ cs, e.1 ∈ c ∧ e.2 ∈ c)) ∨
    ∃ a b rest, cs.Perm (a :: b :: rest) ∧ e.1 ∈ a ∧ e.2 ∈ b ∧
      (joinComponents cs e).Perm ((a ++ b) :: rest) := by
  have hnone {v : Nat} (h : cs.find? (·.contains v) = none) : ∀ c ∈ cs, v ∉ c := fun c hc => by
    simpa using List.find?_eq_none.1 h c hc
  have hsome {v : Nat} {c : Component} (h : cs.find? (·.contains v) = some c) : c ∈ cs ∧ v ∈ c :=
    ⟨List.mem_of_find?_eq_some h, by simpa using List.find?_some h⟩
  rw [joinComponents]
  cases ha : cs.find? (·.contains e.1) with
  | none => exact .inl ⟨rfl, .inl (hnone ha)⟩
  | some a =>
      obtain ⟨hamem, hea⟩ := hsome ha
      cases hb : cs.find? (·.contains e.2) with
      | none => exact .inl ⟨rfl, .inr (.inl (hnone hb))⟩
      | some b =>
          obtain ⟨hbmem, heb⟩ := hsome hb
          dsimp only
          split
          · rename_i hsame
            exact .inl ⟨rfl, .inr (.inr ⟨a, hamem, hea, by simpa using hsame⟩)⟩
          · rename_i hapart
            rw [List.contains_iff_mem] at hapart
            have hne : b ≠ a := fun heq => hapart (heq ▸ heb)
            have hperm : cs.Perm (a :: b :: (cs.erase a).erase b) :=
              (List.perm_cons_erase hamem).trans
                ((List.perm_cons_erase ((List.mem_erase_of_ne hne).2 hbmem)).cons a)
            exact .inr ⟨a, b, _, hperm, hea, heb, perm_appended hnodup hperm hea heb hapart⟩

namespace Shared

/-- Every vertex by itself. -/
theorem single (count : Nat) : Shared count ((List.range count).map ([·])) where
  perm := by
    rw [← List.flatMap_def, List.flatMap_singleton']
  inhabited c hc := by
    obtain ⟨v, -, rfl⟩ := List.mem_map.1 hc
    exact List.cons_ne_nil _ _

/-- One more edge. -/
theorem join {count : Nat} (S : Shared count cs) (e : Nat × Nat) :
    Shared count (joinComponents cs e) := by
  rcases joinComponents_cases (S.perm.nodup_iff.2 List.nodup_range) e with
    ⟨heq, -⟩ | ⟨a, b, rest, hperm, hea, -, hjoined⟩
  · rwa [heq]
  · have hflatten : ((a ++ b) :: rest).flatten = (a :: b :: rest).flatten := by
      rw [List.flatten_cons, List.flatten_cons, List.flatten_cons, List.append_assoc]
    refine ⟨(hflatten ▸ hjoined.flatten).trans (hperm.flatten.symm.trans S.perm), fun c hc => ?_⟩
    rcases List.mem_cons.1 (hjoined.mem_iff.1 hc) with rfl | hc
    · exact List.append_ne_nil_of_left_ne_nil (List.ne_nil_of_mem hea) b
    · exact S.inhabited c
        (hperm.mem_iff.2 (List.mem_cons_of_mem a (List.mem_cons_of_mem b hc)))

end Shared

/-- The components that are put together edge by edge share out the vertices. -/
theorem shared_joined (count : Nat) (edges : List (Nat × Nat)) :
    Shared count (joined count edges) :=
  List.foldlRecOn edges joinComponents (Shared.single count) fun _ S e _ => S.join e

end Flow
end CellSketch
