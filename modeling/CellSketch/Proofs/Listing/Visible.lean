import Mathlib.Data.List.Sort
import CellSketch.Listing

/-!
# Visible — which directories are listed, and in which order

* `paths_visible` — the directories that are not hidden and inside no hidden one, each once;
* `sorted_visible` — siblings stand in the order of their names;
* `increasing_visible` — strictly, where siblings have different names.
-/

namespace CellSketch
namespace Forest

/-- The path of names to each directory of a forest. -/
def paths : Forest → List (List (List Char))
  | nil => []
  | cons name inside rest => [name] :: (inside.paths.map (name :: ·) ++ rest.paths)

/-- The names of the outer directories. -/
def names : Forest → List (List Char)
  | nil => []
  | cons name _ rest => name :: rest.names

/-- For each directory of a forest the names of the directories in it. -/
def contents : Forest → List (List (List Char))
  | nil => []
  | cons _ inside rest => inside.names :: (inside.contents ++ rest.contents)

/-- The names of siblings, group by group. -/
def siblings (f : Forest) : List (List (List Char)) := f.names :: f.contents

/-- No directory on the way is hidden. -/
def isShown (path : List (List Char)) : Bool := path.all fun name => !isHidden name

/-! ## The order of insertion -/

/-- A name that does not come after another one. -/
def NotAfter (a b : List Char) : Prop := ¬ b < a

instance : DecidableRel NotAfter := fun a b => inferInstanceAs (Decidable (¬ b < a))

instance : Std.Total NotAfter where
  total a b := by
    by_cases hlt : b < a
    · exact Or.inr (List.lt_asymm hlt)
    · exact Or.inl hlt

instance : IsTrans (List Char) NotAfter where
  trans _ _ _ hab hbc :=
    List.not_lt.2 (List.le_trans (List.not_lt.1 hab) (List.not_lt.1 hbc))

theorem names_insert (f : Forest) (name : List Char) (inside : Forest) :
    (f.insert name inside).names = f.names.orderedInsert NotAfter name := by
  induction f with
  | nil => rfl
  | cons other content rest _ ih =>
    rw [insert, names, List.orderedInsert]
    by_cases hlt : other < name
    · rw [if_pos hlt, if_neg (fun hafter : NotAfter name other => hafter hlt), names, ih]
    · rw [if_neg hlt, if_pos (show NotAfter name other from hlt), names, names]

theorem paths_insert (f : Forest) (name : List Char) (inside : Forest) :
    (f.insert name inside).paths.Perm (cons name inside f).paths := by
  induction f with
  | nil => rfl
  | cons other content rest _ ih =>
    rw [insert]
    split
    · rw [paths]
      refine ((ih.append_left _).cons _).trans ?_
      simp only [paths]
      rw [← List.cons_append, ← List.cons_append, ← List.cons_append, ← List.cons_append,
        ← List.append_assoc, ← List.append_assoc]
      exact List.perm_append_comm.append_right _
    · rfl

theorem mem_contents_insert {f inside : Forest} {name : List Char} {group : List (List Char)} :
    group ∈ (f.insert name inside).contents ↔ group ∈ inside.siblings ∨ group ∈ f.contents := by
  induction f with
  | nil => simp [insert, contents, siblings]
  | cons other content rest _ ih =>
    rw [insert]
    split
    · simp only [contents, List.mem_cons, List.mem_append, ih]
      tauto
    · simp only [contents, siblings, List.mem_cons, List.mem_append]
      tauto

/-! ## What is visible -/

/-- Exactly the directories with no hidden one on the way are visible. -/
theorem paths_visible (f : Forest) : f.visible.paths.Perm (f.paths.filter isShown) := by
  induction f with
  | nil => rfl
  | cons name inside rest ihInside ihRest =>
    rw [visible, paths, List.filter_cons, List.filter_append, List.filter_map]
    by_cases hhidden : isHidden name = true
    · have hnone : isShown ∘ (name :: ·) = fun _ => false := by
        funext path
        simp [isShown, hhidden]
      rw [if_pos hhidden, hnone]
      simpa [isShown, hhidden] using ihRest
    · have hsome : isShown ∘ (name :: ·) = isShown := by
        funext path
        simp [isShown, hhidden]
      rw [if_neg hhidden, hsome]
      refine (paths_insert _ _ _).trans ?_
      simpa [isShown, hhidden, paths] using ((ihInside.map _).append ihRest)

theorem names_visible (f : Forest) :
    f.visible.names = (f.names.filter fun name => !isHidden name).insertionSort NotAfter := by
  induction f with
  | nil => rfl
  | cons name inside rest _ ih =>
    rw [visible, names, List.filter_cons]
    by_cases hhidden : isHidden name = true
    · simpa [hhidden] using ih
    · simp [hhidden, names_insert, ih]

/-- The siblings that are visible are siblings that are not hidden, in order. -/
theorem exists_siblings (f : Forest) : ∀ group ∈ f.visible.siblings, ∃ group' ∈ f.siblings,
    group = (group'.filter fun name => !isHidden name).insertionSort NotAfter := by
  -- the outermost siblings are known; the others come from a directory that is visible
  suffices h : ∀ group ∈ f.visible.contents, ∃ group' ∈ f.contents,
      group = (group'.filter fun name => !isHidden name).insertionSort NotAfter by
    rintro group (_ | ⟨_, hgroup⟩)
    · exact ⟨f.names, List.mem_cons_self, names_visible f⟩
    · obtain ⟨group', hgroup', heq⟩ := h group hgroup
      exact ⟨group', List.mem_cons_of_mem _ hgroup', heq⟩
  induction f with
  | nil => exact fun _ hgroup => nomatch hgroup
  | cons name inside rest ihInside ihRest =>
    have hrest : ∀ group ∈ rest.visible.contents, ∃ group' ∈ (cons name inside rest).contents,
        group = (group'.filter fun name => !isHidden name).insertionSort NotAfter := by
      intro group hgroup
      obtain ⟨group', hgroup', heq⟩ := ihRest group hgroup
      exact ⟨group', List.mem_cons_of_mem _ (List.mem_append_right _ hgroup'), heq⟩
    intro group hgroup
    rw [visible] at hgroup
    split at hgroup
    · exact hrest group hgroup
    · rcases mem_contents_insert.1 hgroup with (_ | ⟨_, hgroup⟩) | hgroup
      · exact ⟨inside.names, List.mem_cons_self, names_visible inside⟩
      · obtain ⟨group', hgroup', heq⟩ := ihInside group hgroup
        exact ⟨group', List.mem_cons_of_mem _ (List.mem_append_left _ hgroup'), heq⟩
      · exact hrest group hgroup

/-- Siblings stand in the order of their names. -/
theorem sorted_visible (f : Forest) : ∀ group ∈ f.visible.siblings, group.Pairwise NotAfter := by
  intro group hgroup
  obtain ⟨group', -, rfl⟩ := f.exists_siblings group hgroup
  exact List.pairwise_insertionSort _ _

/-- Siblings with different names stand in increasing order. -/
theorem increasing_visible (f : Forest) (h : ∀ group ∈ f.siblings, group.Nodup) :
    ∀ group ∈ f.visible.siblings, group.Pairwise (· < ·) := by
  intro group hgroup
  have hsorted := f.sorted_visible group hgroup
  obtain ⟨group', hgroup', rfl⟩ := f.exists_siblings group hgroup
  have hnodup : ((group'.filter fun name => !isHidden name).insertionSort NotAfter).Nodup :=
    (List.perm_insertionSort _ _).nodup_iff.2 ((h group' hgroup').filter _)
  refine (hsorted.and hnodup).imp fun {a b} hnot => ?_
  by_contra hlt
  exact hnot.2 (List.le_antisymm (List.not_lt.1 hnot.1) (List.not_lt.1 hlt))

/-- One forest is what another one shows: the directories that are not hidden and inside no hidden
one, siblings in the order of their names. -/
structure Shows (f shown : Forest) : Prop where
  paths : shown.paths.Perm (f.paths.filter isShown)
  sorted : ∀ group ∈ shown.siblings, group.Pairwise NotAfter
  increasing : (∀ group ∈ f.siblings, group.Nodup) →
    ∀ group ∈ shown.siblings, group.Pairwise (· < ·)

theorem shows_visible (f : Forest) : f.Shows f.visible :=
  ⟨f.paths_visible, f.sorted_visible, f.increasing_visible⟩

end Forest
end CellSketch
