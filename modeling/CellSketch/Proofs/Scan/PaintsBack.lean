import Mathlib.Data.List.Permutation
import CellSketch.Proofs.GridCells
import CellSketch.Proofs.Scan.Growth
import CellSketch.Proofs.Scan.Readings

/-!
# PaintsBack — a scan paints its grid

A scan loses nothing of its grid and adds nothing to it: painted back, it shows every character that
is not blank, and nothing else.

* `Follows` — what a scan has painted after some of the cells, the invariant of scanning;
* `Follows.addReading` — reading one more cell keeps it;
* `scan_paintsBack` — diagrams and trees paint back their texts.
-/

namespace CellSketch

open Scan

variable {read : Char → Neighbors → Reading} {g : Grid}

/-! ## What a cell adds -/

/-- What is painted for a cell with its character. -/
def contribution (read : Char → Neighbors → Reading) (g : Grid) (entry : Cell × Char) :
    List Paint :=
  match read entry.2 (g.neighbors entry.1) with
  | .nothing => []
  | .marks forms => forms.map fun form => ⟨entry.1, .mark form, form.char⟩
  | .line glyph _ => [⟨entry.1, .line glyph.axis, glyph.lineChar⟩]
  | .text => [⟨entry.1, .text, entry.2⟩]

theorem cell_of_mem_contribution {entry : Cell × Char} {p : Paint}
    (h : p ∈ contribution read g entry) : p.cell = entry.1 := by
  unfold contribution at h
  split at h
  · simp at h
  · obtain ⟨form, -, rfl⟩ := List.mem_map.1 h
    rfl
  · rw [List.mem_singleton.1 h]
  · rw [List.mem_singleton.1 h]

theorem Faithful.contribution_cases (hread : Faithful read) (cell : Cell) (c : Char) :
    (Text.isBlank c = true ∧ contribution read g (cell, c) = []) ∨
      (Text.isBlank c = false ∧ ((∃ ink, contribution read g (cell, c) = [⟨cell, ink, c⟩]) ∨
        ∃ a b, a ≠ b ∧ contribution read g (cell, c) =
          [⟨cell, .mark (.corner a), c⟩, ⟨cell, .mark (.corner b), c⟩])) := by
  unfold contribution
  dsimp only
  split
  · rename_i h
    exact Or.inl ⟨(hread.nothing _ _).1 h, rfl⟩
  -- whatever is read as something is not blank
  all_goals
    rename_i h
    have hblank : Text.isBlank c = false := by
      rw [Bool.eq_false_iff]
      intro hblank
      rw [(hread.nothing c (g.neighbors cell)).2 hblank] at h
      cases h
    refine Or.inr ⟨hblank, ?_⟩
  · cases hread.marks _ _ _ h with
    | one form hform => exact Or.inl ⟨.mark form, by simp [hform]⟩
    | two a b hne ha hb => exact Or.inr ⟨a, b, hne, by simp [ha, hb]⟩
  · exact Or.inl ⟨_, by rw [(hread.line _ _ _ _ h).1]⟩
  · exact Or.inl ⟨.text, rfl⟩

theorem Faithful.of_mem_contribution (hread : Faithful read) {cell : Cell} {c : Char} {p : Paint}
    (h : p ∈ contribution read g (cell, c)) : p.char = c ∧ Text.isBlank c = false := by
  rcases hread.contribution_cases (g := g) cell c with
    ⟨-, heq⟩ | ⟨hblank, ⟨ink, heq⟩ | ⟨a, b, -, heq⟩⟩
  all_goals
    rw [heq] at h
  · simp at h
  · rw [List.mem_singleton.1 h]
    exact ⟨rfl, hblank⟩
  · simp only [List.mem_cons, List.not_mem_nil, or_false] at h
    rcases h with rfl | rfl <;> exact ⟨rfl, hblank⟩

/-! ## Scanning -/

theorem Axis.previous_before (axis : Axis) (cell : Cell) : (axis.previous cell).Before cell := by
  cases axis with
  | horizontal => exact Or.inr ⟨rfl, Int.sub_lt_self _ Int.one_pos⟩
  | vertical => exact Or.inl (Int.sub_lt_self _ Int.one_pos)

/-- A scan that has painted what the cells in `done` add, where the newest line of a lane is the one
that reaches furthest. -/
structure Follows (read : Char → Neighbors → Reading) (g : Grid) (done : List (Cell × Char))
    (s : Scan) : Prop where
  indexed : s.Indexed
  paints : s.paints.Perm (done.flatMap (contribution read g))
  newest : ∀ p ∈ s.paints, ∀ axis, p.ink = .line axis →
    ∃ l, s.newestLine? axis (axis.lane p.cell) = some l ∧ axis.position p.cell ≤ l.last

theorem follows_empty : Follows read g [] {} where
  indexed := indexed_empty
  paints := by simp [Scan.paints]
  newest p hp := by simp [Scan.paints] at hp

namespace Follows

variable {done rest : List (Cell × Char)} {s : Scan} {cell : Cell} {c : Char}

theorem mem_paints (F : Follows read g done s) {p : Paint} :
    p ∈ s.paints ↔ ∃ entry ∈ done, p ∈ contribution read g entry := by
  rw [F.paints.mem_iff, List.mem_flatMap]

/-- What has been painted lies before the next cell. -/
theorem before (F : Follows read g done s) (h : g.cells = done ++ (cell, c) :: rest) {p : Paint}
    (hp : p ∈ s.paints) : p.cell.Before cell := by
  obtain ⟨⟨cell', c'⟩, hdone, hp⟩ := F.mem_paints.1 hp
  rw [cell_of_mem_contribution hp]
  exact Grid.before_of_mem h hdone

/-- Marks and text leave the lines as they are. -/
theorem extend (F : Follows read g done s) {s' : Scan} (hindexed : s'.Indexed)
    (hpaints : s'.paints.Perm (s.paints ++ contribution read g (cell, c)))
    (hnewest : s'.newestLine? = s.newestLine?)
    (hplain : ∀ p ∈ contribution read g (cell, c), ∀ axis, p.ink ≠ .line axis) :
    Follows read g (done ++ [(cell, c)]) s' where
  indexed := hindexed
  paints := by
    rw [List.flatMap_append, List.flatMap_singleton]
    exact hpaints.trans (F.paints.append_right _)
  newest p hp axis hink := by
    rw [hpaints.mem_iff, List.mem_append] at hp
    rcases hp with hp | hp
    · rw [hnewest]
      exact F.newest p hp axis hink
    · exact absurd hink (hplain p hp axis)

theorem addMarks (F : Follows read g done s) {forms : List MarkForm}
    (h : read c (g.neighbors cell) = .marks forms) :
    Follows read g (done ++ [(cell, c)]) (forms.foldl (·.addMark cell ·) s) := by
  have hfold : ∀ (forms : List MarkForm) (s : Scan), s.Indexed →
      (forms.foldl (·.addMark cell ·) s).Indexed ∧
        (forms.foldl (·.addMark cell ·) s).newestLine? = s.newestLine? ∧
        (forms.foldl (·.addMark cell ·) s).paints.Perm
          (s.paints ++ forms.map fun form => ⟨cell, .mark form, form.char⟩) := by
    intro forms
    induction forms with
    | nil => exact fun s hs => ⟨hs, rfl, by simp⟩
    | cons form forms ih =>
        intro s hs
        obtain ⟨hindexed, hnewest, hpaints⟩ := ih (s.addMark cell form) (hs.addMark cell form)
        refine ⟨hindexed, hnewest, hpaints.trans ?_⟩
        rw [List.map_cons, List.append_cons]
        exact (paints_addMark s cell form).append_right _
  obtain ⟨hindexed, hnewest, hpaints⟩ := hfold forms s F.indexed
  have hcontribution : contribution read g (cell, c) =
      forms.map fun form => ⟨cell, .mark form, form.char⟩ := by
    simp only [contribution, h]
  refine F.extend hindexed (by rwa [hcontribution]) hnewest fun p hp axis => ?_
  rw [hcontribution] at hp
  obtain ⟨form, -, rfl⟩ := List.mem_map.1 hp
  simp

theorem addText (F : Follows read g done s) (h : read c (g.neighbors cell) = .text) :
    Follows read g (done ++ [(cell, c)]) (s.addText cell [c]) := by
  have hcontribution : contribution read g (cell, c) = [⟨cell, .text, c⟩] := by
    simp only [contribution, h]
  refine F.extend F.indexed.addText ?_ newestLine?_addText fun p hp axis => ?_
  · rw [hcontribution]
    exact paints_addText F.indexed c
  · rw [hcontribution, List.mem_singleton] at hp
    simp [hp]

/-- The lines of a lane end before the next cell. -/
theorem last_lt (F : Follows read g done s) (h : g.cells = done ++ (cell, c) :: rest) {l : LineRun}
    (hl : l ∈ s.lines) (hlane : l.lane = l.axis.lane cell) : l.last < l.axis.position cell := by
  -- its last cell is painted, and everything painted so far lies before the next cell
  have hpaint : ⟨l.axis.cellAt l.lane l.last, .line l.axis,
      l.charAt (l.axis.cellAt l.lane l.last)⟩ ∈ l.paints := by
    rw [LineRun.mem_paints, LineRun.mem_cells]
    simp [(F.indexed.solid l hl).1]
  have hbefore := F.before h (Scan.mem_paints.2 (Or.inr (Or.inr ⟨l, hl, hpaint⟩)))
  rw [hlane] at hbefore
  revert hbefore
  unfold Cell.Before
  cases l.axis <;> simp only [Axis.cellAt, Axis.lane, Axis.position] <;> omega

/-- The character before a part of a line is the one painted there. -/
theorem char_before (F : Follows read g done s) (hread : Faithful read)
    (h : g.cells = done ++ (cell, c) :: rest) {glyph : Glyph} {before : Option Char}
    (hline : read c (g.neighbors cell) = .line glyph before) {p : Paint} (hp : p ∈ s.paints)
    (hcell : p.cell = glyph.axis.previous cell) : before = some p.char := by
  obtain ⟨⟨cell', c'⟩, hdone, hp⟩ := F.mem_paints.1 hp
  have hmem : (cell', c') ∈ g.cells := h ▸ List.mem_append_left _ hdone
  rw [(hread.line _ _ _ _ hline).2, Grid.before_neighbors, ← hcell, cell_of_mem_contribution hp,
    Grid.mem_cells.1 hmem, (hread.of_mem_contribution hp).1]

theorem addLine (F : Follows read g done s) (hread : Faithful read)
    (h : g.cells = done ++ (cell, c) :: rest) {glyph : Glyph} {before : Option Char}
    (hline : read c (g.neighbors cell) = .line glyph before) :
    Follows read g (done ++ [(cell, c)]) (s.addLine cell glyph before) := by
  obtain ⟨hchar, hbefore⟩ := hread.line _ _ _ _ hline
  rw [Grid.before_neighbors] at hbefore
  have hat : g.at? cell = some c := by
    rw [← Grid.mem_cells, h]
    simp
  have hcontribution : contribution read g (cell, c) =
      [⟨cell, .line glyph.axis, glyph.lineChar⟩] := by
    simp only [contribution, hline]
  have hpaints : (s.addLine cell glyph before).paints.Perm
      (s.paints ++ [⟨cell, .line glyph.axis, glyph.lineChar⟩]) := by
    refine paints_addLine F.indexed (fun _ => F.char_before hread h hline) fun hclosing => ?_
    -- the shaft before the head has been painted, so the newest line of the lane ends there
    obtain ⟨hshaft, hprevious⟩ := hread.closing _ _ _ _ hline hclosing
    obtain ⟨glyph', before', hline', haxis⟩ :=
      hprevious (g.neighbors (glyph.axis.previous cell))
        (by rw [Grid.after_neighbors_previous, hat])
    rw [hbefore] at hshaft
    have hdone := Grid.mem_of_before h hshaft (Axis.previous_before glyph.axis cell)
    have hpaint : (⟨glyph.axis.previous cell, .line glyph'.axis, glyph'.lineChar⟩ : Paint) ∈
        s.paints := by
      refine F.mem_paints.2 ⟨_, hdone, ?_⟩
      simp only [contribution, hline', List.mem_singleton]
    obtain ⟨l, hl, hlast⟩ := F.newest _ hpaint glyph.axis (by rw [haxis])
    simp only [Axis.previous, Axis.lane_cellAt, Axis.position_cellAt] at hl hlast
    refine ⟨?_, l, hl, ?_⟩
    · rw [hbefore, hshaft]
      cases glyph.axis <;> decide
    · obtain ⟨i, hi, hget⟩ := newestLine?_eq_some_iff.1 hl
      obtain ⟨hlaxis, hllane⟩ := F.indexed.key hi hget
      have hlt := F.last_lt h (Array.mem_of_getElem? hget) (by rw [hlaxis, hllane])
      rw [hlaxis] at hlt
      omega
  obtain ⟨⟨l, hl, hlast⟩, hother⟩ := @newestLine?_addLine s cell glyph before F.indexed
  refine ⟨F.indexed.addLine, ?_, fun p hp axis hink => ?_⟩
  · rw [List.flatMap_append, List.flatMap_singleton, hcontribution]
    exact hpaints.trans (F.paints.append_right _)
  · rw [hpaints.mem_iff, List.mem_append, List.mem_singleton] at hp
    rcases hp with hp | rfl
    · -- what lies on the same lane was read earlier, so it is behind the new end of the line
      by_cases hkey : glyph.axis = axis ∧ glyph.axis.lane cell = axis.lane p.cell
      · obtain ⟨rfl, hlane⟩ := hkey
        refine ⟨l, hlane ▸ hl, ?_⟩
        have hbefore' := F.before h hp
        unfold Cell.Before at hbefore'
        revert hlane hlast hbefore'
        cases glyph.axis <;> simp only [Axis.lane, Axis.position] <;> omega
      · rw [hother _ _ hkey]
        exact F.newest p hp axis hink
    · cases hink
      exact ⟨l, hl, hlast.ge⟩

/-- Reading one more cell. -/
theorem addReading (F : Follows read g done s) (hread : Faithful read)
    (h : g.cells = done ++ (cell, c) :: rest) :
    Follows read g (done ++ [(cell, c)]) (s.addReading cell c (read c (g.neighbors cell))) := by
  cases hreading : read c (g.neighbors cell) with
  | nothing =>
      have hcontribution : contribution read g (cell, c) = [] := by
        simp only [contribution, hreading]
      exact F.extend F.indexed (by simp [hcontribution, Scan.addReading]) rfl
        (by simp [hcontribution])
  | marks forms => exact F.addMarks hreading
  | line glyph before => exact F.addLine hread h hreading
  | text => exact F.addText hreading

/-- Reading all the rest. -/
theorem scan (hread : Faithful read) (rest : List (Cell × Char)) :
    ∀ done s, g.cells = done ++ rest → Follows read g done s →
      Follows read g g.cells
        (rest.foldl (fun s (cell, c) => s.addReading cell c (read c (g.neighbors cell))) s) := by
  induction rest with
  | nil =>
      intro done s h F
      rw [List.append_nil] at h
      rwa [h]
  | cons entry rest ih =>
      intro done s h F
      refine ih (done ++ [entry]) _ ?_ (F.addReading hread h)
      rw [h, List.append_assoc, List.singleton_append]

end Follows

theorem follows_ofGrid (hread : Faithful read) (g : Grid) :
    Follows read g g.cells (Scan.ofGrid read g) :=
  Follows.scan hread g.cells [] {} rfl follows_empty

/-! ## Painting back -/

/-- A scan that paints the characters of a grid back where they stand. -/
structure PaintsBack (s : Scan) (g : Grid) : Prop where
  /-- Every character that is not blank is painted. -/
  complete : ∀ cell c, g.at? cell = some c → Text.isBlank c = false → s.paintsAt cell ≠ []
  /-- Whatever is painted is a character of the grid that is not blank. -/
  sound : ∀ p ∈ s.paints, g.at? p.cell = some p.char ∧ Text.isBlank p.char = false
  /-- A cell is painted once, unless two different corners of one character share it. -/
  once : ∀ cell, (s.paintsAt cell).length ≤ 1 ∨
    ∃ a b c, a ≠ b ∧ s.paintsAt cell =
      [⟨cell, .mark (.corner a), c⟩, ⟨cell, .mark (.corner b), c⟩]
  /-- Lines are not empty, and no two heads of a line share a cell. -/
  solid : ∀ l ∈ s.lines, l.first ≤ l.last ∧ (l.arrow.atEnd = true → l.first < l.last)

theorem filter_flatMap_contribution_of_not_mem {cell : Cell} {entries : List (Cell × Char)}
    (h : ∀ entry ∈ entries, entry.1 ≠ cell) :
    (entries.flatMap (contribution read g)).filter (·.cell = cell) = [] := by
  rw [List.filter_eq_nil_iff]
  intro p hp
  obtain ⟨entry, hentry, hp⟩ := List.mem_flatMap.1 hp
  rw [decide_eq_true_eq, cell_of_mem_contribution hp]
  exact h entry hentry

theorem filter_flatMap_contribution {cell : Cell} {c : Char} (h : g.at? cell = some c) :
    (g.cells.flatMap (contribution read g)).filter (·.cell = cell) =
      contribution read g (cell, c) := by
  obtain ⟨before, after, hsplit⟩ := List.append_of_mem (Grid.mem_cells.2 h)
  -- the cells are listed in order, so none of the others is this one
  have hpairwise := g.pairwise_cells
  rw [hsplit] at hpairwise ⊢
  obtain ⟨-, hafter, hbefore⟩ := List.pairwise_append.1 hpairwise
  rw [List.flatMap_append, List.flatMap_cons, List.filter_append, List.filter_append,
    filter_flatMap_contribution_of_not_mem, filter_flatMap_contribution_of_not_mem,
    List.append_nil, List.nil_append, List.filter_eq_self]
  · intro p hp
    rw [decide_eq_true_eq]
    exact cell_of_mem_contribution hp
  · intro entry hentry heq
    have hless := (List.pairwise_cons.1 hafter).1 entry hentry
    rw [heq] at hless
    exact hless.asymm hless
  · intro entry hentry heq
    have hless := hbefore entry hentry _ List.mem_cons_self
    rw [heq] at hless
    exact hless.asymm hless

theorem Follows.paintsBack {s : Scan} (F : Follows read g g.cells s) (hread : Faithful read) :
    PaintsBack s g := by
  have hpaintsAt (cell : Cell) : (s.paintsAt cell).Perm
      ((g.cells.flatMap (contribution read g)).filter (·.cell = cell)) := F.paints.filter _
  refine ⟨fun cell c hat hblank => ?_, fun p hp => ?_, fun cell => ?_, F.indexed.solid⟩
  · have hperm := hpaintsAt cell
    rw [filter_flatMap_contribution hat] at hperm
    intro hnil
    rw [hnil, List.nil_perm] at hperm
    rcases hread.contribution_cases (g := g) cell c with
        ⟨hblank', -⟩ | ⟨-, ⟨ink, heq⟩ | ⟨a, b, -, heq⟩⟩
    · exact absurd (hblank.symm.trans hblank') (by decide)
    · simp [heq] at hperm
    · simp [heq] at hperm
  · obtain ⟨⟨cell, c⟩, hentry, hp⟩ := F.mem_paints.1 hp
    obtain ⟨hchar, hblank⟩ := hread.of_mem_contribution hp
    rw [cell_of_mem_contribution hp, hchar]
    exact ⟨Grid.mem_cells.1 hentry, hblank⟩
  · have hperm := hpaintsAt cell
    cases hat : g.at? cell with
    | none =>
        have hnone : ∀ entry ∈ g.cells, entry.1 ≠ cell := by
          rintro ⟨cell', c⟩ hentry rfl
          rw [Grid.mem_cells.1 hentry] at hat
          cases hat
        rw [filter_flatMap_contribution_of_not_mem hnone] at hperm
        exact Or.inl (by rw [hperm.eq_nil]; simp)
    | some c =>
        rw [filter_flatMap_contribution hat] at hperm
        rcases hread.contribution_cases (g := g) cell c with
          ⟨-, heq⟩ | ⟨-, ⟨ink, heq⟩ | ⟨a, b, hne, heq⟩⟩
        all_goals rw [heq] at hperm
        · exact Or.inl (by rw [hperm.eq_nil]; simp)
        · exact Or.inl (by rw [hperm.eq_singleton]; simp)
        · rcases List.perm_pair.1 hperm with h | h
          · exact Or.inr ⟨a, b, c, hne, h⟩
          · exact Or.inr ⟨b, a, c, hne.symm, h⟩

/-- Painted back, a diagram and a tree show the characters of their text, each just once. -/
theorem scan_paintsBack (text : List Char) :
    PaintsBack (Scan.ofDiagram text) (Grid.ofText text) ∧
      PaintsBack (Scan.ofTree text) (Grid.ofText text) :=
  ⟨(follows_ofGrid Reading.faithful_ofDiagram _).paintsBack Reading.faithful_ofDiagram,
    (follows_ofGrid Reading.faithful_ofTree _).paintsBack Reading.faithful_ofTree⟩

end CellSketch
