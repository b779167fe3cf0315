import CellSketch.Proofs.Scan.Painting

/-!
# Growth — what one more finding changes in a scan

A scan grows by marks, by text and by parts of lines, and it looks up by index which item a part
belongs to.

* `Indexed` — the indexes lead to items of their lanes; every operation keeps this;
* `addLine_cases` — all that adding a part of a line can do;
* `newestLine?_addLine` — afterwards the newest line of its lane ends in it, and those of the other
  lanes are what they were;
* `paints_addLine`, `paints_addText` — one more cell is painted.
-/

namespace CellSketch
namespace Scan

open Std

/-! ## Indexes -/

/-- The newest line of a lane. -/
def newestLine? (s : Scan) (axis : Axis) (lane : Int) : Option LineRun := do
  let i ← s.openLine? axis lane
  s.lines[i]?

/-- The indexes lead to items of their lanes, and every line covers its first cell, one with a head
at its end at least one more. -/
structure Indexed (s : Scan) : Prop where
  line : ∀ axis lane i, s.openLine? axis lane = some i →
    ∃ l, s.lines[i]? = some l ∧ l.axis = axis ∧ l.lane = lane
  text : ∀ row i, s.openTexts[row]? = some i → ∃ t : TextRun, s.texts[i]? = some t ∧ t.cell.y = row
  solid : ∀ l ∈ s.lines, l.first ≤ l.last ∧ (l.arrow.atEnd = true → l.first < l.last)

/-- The line that the index leads to belongs to the lane. -/
theorem Indexed.key {s : Scan} (I : s.Indexed) {axis : Axis} {lane : Int} {i : Nat} {l : LineRun}
    (hi : s.openLine? axis lane = some i) (hl : s.lines[i]? = some l) :
    l.axis = axis ∧ l.lane = lane := by
  obtain ⟨l', hl', hkey⟩ := I.line axis lane i hi
  rw [hl, Option.some.injEq] at hl'
  subst hl'
  exact hkey

theorem indexed_empty : Indexed {} where
  line axis lane i h := by cases axis <;> simp [openLine?] at h
  text row i h := by simp at h
  solid l h := by simp at h

theorem newestLine?_eq_some_iff {s : Scan} {axis : Axis} {lane : Int} {l : LineRun} :
    s.newestLine? axis lane = some l ↔
      ∃ i, s.openLine? axis lane = some i ∧ s.lines[i]? = some l :=
  Option.bind_eq_some_iff

theorem growing?_eq_some_iff {s : Scan} {cell : Cell} {glyph : Glyph} {before : Option Char}
    {i : Nat} :
    s.growing? cell glyph before = some i ↔
      s.openLine? glyph.axis (glyph.axis.lane cell) = some i ∧ ∃ l, s.lines[i]? = some l ∧
        glyph ≠ glyph.axis.opening ∧ before ≠ some glyph.axis.closingChar ∧
        l.last = glyph.axis.position cell - 1 := by
  rw [growing?]
  constructor
  · intro h
    obtain ⟨j, hj, h⟩ := Option.bind_eq_some_iff.1 h
    obtain ⟨l, hl, h⟩ := Option.bind_eq_some_iff.1 h
    split at h
    · rename_i hgrows
      cases h
      exact ⟨hj, l, hl, hgrows⟩
    · exact absurd h (by simp)
  · rintro ⟨hi, l, hl, hgrows⟩
    refine Option.bind_eq_some_iff.2 ⟨i, hi, Option.bind_eq_some_iff.2 ⟨l, hl, ?_⟩⟩
    rw [if_pos hgrows]

theorem growingText?_eq_some_iff {s : Scan} {cell : Cell} {i : Nat} :
    s.growingText? cell = some i ↔
      s.openTexts[cell.y]? = some i ∧ ∃ t, s.texts[i]? = some t ∧ t.stop = cell.x := by
  rw [growingText?]
  constructor
  · intro h
    obtain ⟨j, hj, h⟩ := Option.bind_eq_some_iff.1 h
    obtain ⟨t, ht, h⟩ := Option.bind_eq_some_iff.1 h
    split at h
    · rename_i hstop
      cases h
      exact ⟨hj, t, ht, hstop⟩
    · exact absurd h (by simp)
  · rintro ⟨hi, t, ht, hstop⟩
    refine Option.bind_eq_some_iff.2 ⟨i, hi, Option.bind_eq_some_iff.2 ⟨t, ht, ?_⟩⟩
    rw [if_pos hstop]

theorem getElem?_push_of_eq_some {α : Type} {xs : Array α} {i : Nat} {a : α} (x : α)
    (h : xs[i]? = some a) : (xs.push x)[i]? = some a := by
  obtain ⟨hi, rfl⟩ := Array.getElem?_eq_some_iff.1 h
  exact Array.getElem?_push_lt hi

theorem le_size_of_getElem?_push {α : Type} {xs : Array α} {x a : α} {i : Nat}
    (h : (xs.push x)[i]? = some a) : i ≤ xs.size := by
  have hlt := (Array.getElem?_eq_some_iff.1 h).1
  rw [Array.size_push] at hlt
  exact Nat.le_of_lt_succ hlt

/-! ## Opening a line -/

section OpenLine

variable (s : Scan) (cell : Cell) (glyph : Glyph)

@[simp] theorem lines_openLine :
    (s.openLine cell glyph).lines = s.lines.push (.single cell glyph) := by
  simp only [openLine]
  split <;> rfl

@[simp] theorem marks_openLine : (s.openLine cell glyph).marks = s.marks := by
  simp only [openLine]
  split <;> rfl

@[simp] theorem texts_openLine : (s.openLine cell glyph).texts = s.texts := by
  simp only [openLine]
  split <;> rfl

@[simp] theorem openTexts_openLine : (s.openLine cell glyph).openTexts = s.openTexts := by
  simp only [openLine]
  split <;> rfl

theorem openLine?_openLine (axis : Axis) (lane : Int) :
    (s.openLine cell glyph).openLine? axis lane =
      if glyph.axis = axis ∧ glyph.axis.lane cell = lane then some s.lines.size
      else s.openLine? axis lane := by
  simp only [openLine]
  split
  all_goals
    rename_i haxis
    rw [haxis]
    cases axis <;> simp [openLine?, TreeMap.getElem?_insert]

theorem paints_openLine (hglyph : glyph ≠ glyph.axis.closing) :
    (s.openLine cell glyph).paints = s.paints ++ [⟨cell, .line glyph.axis, glyph.lineChar⟩] := by
  simp only [paints, lines_openLine, marks_openLine, texts_openLine, Array.toList_push,
    List.flatMap_append, List.flatMap_cons, List.flatMap_nil, LineRun.paints_single hglyph,
    List.append_assoc, List.append_nil]

end OpenLine

/-! ## Adding a part of a line -/

section AddLine

variable {s : Scan} {cell : Cell} {glyph : Glyph} {before : Option Char}

/-- A part of a line makes the newest line of its lane grow, or it opens a line. -/
theorem addLine_cases (s : Scan) (cell : Cell) (glyph : Glyph) (before : Option Char) :
    (∃ i l, s.openLine? glyph.axis (glyph.axis.lane cell) = some i ∧ s.lines[i]? = some l ∧
      glyph ≠ glyph.axis.opening ∧ before ≠ some glyph.axis.closingChar ∧
      l.last = glyph.axis.position cell - 1 ∧
      s.addLine cell glyph before = { s with lines := s.lines.modify i (·.push cell glyph) }) ∨
    (s.growing? cell glyph before = none ∧
      s.addLine cell glyph before = s.openLine cell glyph) := by
  rw [addLine]
  cases hgrowing : s.growing? cell glyph before with
  | none => exact Or.inr ⟨rfl, rfl⟩
  | some i =>
      obtain ⟨hi, l, hl, hopening, hbefore, hlast⟩ := growing?_eq_some_iff.1 hgrowing
      exact Or.inl ⟨i, l, hi, hl, hopening, hbefore, hlast, rfl⟩

theorem Indexed.grow (I : s.Indexed) {i : Nat} {l : LineRun} (hl : s.lines[i]? = some l)
    (haxis : l.axis = glyph.axis) (hlast : l.last = glyph.axis.position cell - 1) :
    Indexed { s with lines := s.lines.modify i (·.push cell glyph) } := by
  refine ⟨fun axis lane j hj => ?_, I.text, fun m hm => ?_⟩
  · obtain ⟨m, hm, hmaxis, hmlane⟩ := I.line axis lane j hj
    by_cases hij : i = j
    · subst hij
      rw [hl, Option.some.injEq] at hm
      subst hm
      exact ⟨l.push cell glyph, by simp [Array.getElem?_modify, hl], hmaxis, hmlane⟩
    · exact ⟨m, by simp [Array.getElem?_modify, hm, hij], hmaxis, hmlane⟩
  · obtain ⟨j, hj⟩ := Array.getElem?_of_mem hm
    rw [Array.getElem?_modify] at hj
    split at hj
    · -- the line that grows now ends in the new cell, behind its first one
      rename_i hij
      subst hij
      rw [hl, Option.map_some, Option.some.injEq] at hj
      subst hj
      have hsolid := (I.solid l (Array.mem_of_getElem? hl)).1
      simp only [LineRun.push, haxis]
      omega
    · exact I.solid m (Array.mem_of_getElem? hj)

theorem Indexed.openLine (I : s.Indexed) : (s.openLine cell glyph).Indexed := by
  refine ⟨fun axis lane j hj => ?_, ?_, fun m hm => ?_⟩
  · rw [openLine?_openLine] at hj
    split at hj
    · rename_i hkey
      cases hj
      exact ⟨.single cell glyph, by simp, hkey.1, hkey.2⟩
    · obtain ⟨m, hm, hkey⟩ := I.line axis lane j hj
      exact ⟨m, by rw [lines_openLine, getElem?_push_of_eq_some _ hm], hkey⟩
  · rw [openTexts_openLine, texts_openLine]
    exact I.text
  · rw [lines_openLine, Array.mem_push] at hm
    rcases hm with hm | rfl
    · exact I.solid m hm
    · simp [LineRun.single]

theorem Indexed.addLine (I : s.Indexed) : (s.addLine cell glyph before).Indexed := by
  rcases addLine_cases s cell glyph before with ⟨i, l, hi, hl, -, -, hlast, h⟩ | ⟨-, h⟩
  · rw [h]
    exact I.grow hl (I.key hi hl).1 hlast
  · rw [h]
    exact I.openLine

/-- Afterwards the newest line of the lane ends in the new cell, and the others are as before. -/
theorem newestLine?_addLine (I : s.Indexed) :
    (∃ l, (s.addLine cell glyph before).newestLine? glyph.axis (glyph.axis.lane cell) = some l ∧
      l.last = glyph.axis.position cell) ∧
    ∀ axis lane, ¬ (glyph.axis = axis ∧ glyph.axis.lane cell = lane) →
      (s.addLine cell glyph before).newestLine? axis lane = s.newestLine? axis lane := by
  rcases addLine_cases s cell glyph before with ⟨i, l, hi, hl, -, -, -, h⟩ | ⟨-, h⟩
  · rw [h]
    obtain ⟨haxis, hlane⟩ := I.key hi hl
    refine ⟨⟨l.push cell glyph, newestLine?_eq_some_iff.2 ⟨i, hi, ?_⟩, ?_⟩, ?_⟩
    · rw [Array.getElem?_modify, if_pos rfl, hl]
      rfl
    · rw [LineRun.push, haxis]
    · intro axis lane hkey
      rw [newestLine?, newestLine?]
      refine Option.bind_congr fun j hj => ?_
      obtain ⟨m, hm, hmaxis, hmlane⟩ := I.line axis lane j hj
      -- a line belongs to one lane only
      have hij : i ≠ j := by
        rintro rfl
        rw [hl, Option.some.injEq] at hm
        subst hm
        exact hkey ⟨haxis.symm.trans hmaxis, hlane.symm.trans hmlane⟩
      rw [Array.getElem?_modify, if_neg hij]
  · rw [h]
    refine ⟨⟨.single cell glyph, newestLine?_eq_some_iff.2 ⟨s.lines.size, ?_, by simp⟩, rfl⟩, ?_⟩
    · rw [openLine?_openLine, if_pos ⟨rfl, rfl⟩]
    · intro axis lane hkey
      rw [newestLine?, newestLine?, openLine?_openLine, if_neg hkey]
      refine Option.bind_congr fun j hj => ?_
      obtain ⟨m, hm, -⟩ := I.line axis lane j hj
      rw [lines_openLine, hm]
      exact getElem?_push_of_eq_some _ hm

/-- A part of a line paints its cell with its glyph, if the character before it is the one painted
there and a head at the end finds the line that it closes. -/
theorem paints_addLine (I : s.Indexed)
    (hbefore : ∀ p ∈ s.paints, p.cell = glyph.axis.previous cell → before = some p.char)
    (hclosing : glyph = glyph.axis.closing → before ≠ some glyph.axis.closingChar ∧
      ∃ l, s.newestLine? glyph.axis (glyph.axis.lane cell) = some l ∧
        l.last = glyph.axis.position cell - 1) :
    (s.addLine cell glyph before).paints.Perm
      (s.paints ++ [⟨cell, .line glyph.axis, glyph.lineChar⟩]) := by
  rcases addLine_cases s cell glyph before with
    ⟨i, l, hi, hl, hopening, hnotafter, hlast, h⟩ | ⟨hnone, h⟩
  · rw [h]
    obtain ⟨haxis, hlane⟩ := I.key hi hl
    have hmem := Array.mem_of_getElem? hl
    have hsolid := (I.solid l hmem).1
    -- a line with a head at its end would have that head before the glyph
    have hend : l.arrow.atEnd = false := by
      rw [Bool.eq_false_iff]
      intro hend
      have hpaint := l.head_mem_paints hend ((I.solid l hmem).2 hend)
      refine hnotafter (hbefore _ (mem_paints.2 (Or.inr (Or.inr ⟨l, hmem, hpaint⟩))) ?_ |>.trans ?_)
      · rw [haxis, hlane, hlast, Axis.previous]
      · rw [haxis]
    have hpaints : (l.push cell glyph).paints =
        l.paints ++ [⟨cell, .line glyph.axis, glyph.lineChar⟩] := by
      refine LineRun.paints_push hsolid haxis ?_ ?_ hend hopening
      · rw [haxis, hlane]
      · rw [haxis, hlast]
    simp only [paints, Array.toList_modify, List.append_assoc]
    refine List.Perm.append_left _ (List.Perm.append_left _ ?_)
    exact flatMap_modify_perm (by rw [Array.getElem?_toList, hl]) hpaints
  · rw [h]
    -- a head at the end finds the line that it closes, which then grows
    have hglyph : glyph ≠ glyph.axis.closing := by
      intro hglyph
      obtain ⟨hnotafter, l, hnewest, hlast⟩ := hclosing hglyph
      obtain ⟨i, hi, hl⟩ := newestLine?_eq_some_iff.1 hnewest
      have hopening : glyph ≠ glyph.axis.opening := fun h =>
        glyph.closing_ne_opening (hglyph.symm.trans h)
      have hsome := growing?_eq_some_iff.2 ⟨hi, l, hl, hopening, hnotafter, hlast⟩
      rw [hnone] at hsome
      exact absurd hsome (by simp)
    rw [paints_openLine s cell glyph hglyph]

end AddLine

/-! ## Adding marks and text -/

@[simp] theorem marks_addMark (s : Scan) (cell : Cell) (form : MarkForm) :
    (s.addMark cell form).marks = s.marks.push ⟨cell, form⟩ := rfl

theorem Indexed.addMark {s : Scan} (I : s.Indexed) (cell : Cell) (form : MarkForm) :
    (s.addMark cell form).Indexed := ⟨I.line, I.text, I.solid⟩

section AddText

variable {s : Scan} {cell : Cell} {text : List Char}

theorem addText_cases (s : Scan) (cell : Cell) (text : List Char) :
    (∃ i t, s.openTexts[cell.y]? = some i ∧ s.texts[i]? = some t ∧ t.stop = cell.x ∧
      s.addText cell text =
        { s with texts := s.texts.modify i fun run => { run with text := run.text ++ text } }) ∨
    (s.growingText? cell = none ∧
      s.addText cell text =
        { s with
          texts := s.texts.push ⟨cell, text⟩
          openTexts := s.openTexts.insert cell.y s.texts.size }) := by
  rw [addText]
  cases hgrowing : s.growingText? cell with
  | none => exact Or.inr ⟨rfl, rfl⟩
  | some i =>
      obtain ⟨hi, t, ht, hstop⟩ := growingText?_eq_some_iff.1 hgrowing
      exact Or.inl ⟨i, t, hi, ht, hstop, rfl⟩

theorem newestLine?_addText : (s.addText cell text).newestLine? = s.newestLine? := by
  rcases addText_cases s cell text with ⟨i, t, -, -, -, h⟩ | ⟨-, h⟩
  all_goals
    rw [h]
    rfl

theorem Indexed.addText (I : s.Indexed) : (s.addText cell text).Indexed := by
  rcases addText_cases s cell text with ⟨i, t, hi, ht, -, h⟩ | ⟨-, h⟩
  · rw [h]
    refine ⟨I.line, fun row j hj => ?_, I.solid⟩
    obtain ⟨u, hu, hrow⟩ := I.text row j hj
    by_cases hij : i = j
    · subst hij
      exact ⟨{ u with text := u.text ++ text }, by simp [Array.getElem?_modify, hu], hrow⟩
    · exact ⟨u, by simp [Array.getElem?_modify, hu, hij], hrow⟩
  · rw [h]
    refine ⟨I.line, fun row j hj => ?_, I.solid⟩
    rw [TreeMap.getElem?_insert] at hj
    split at hj
    · rename_i hrow
      cases hj
      exact ⟨⟨cell, text⟩, by simp, Std.compare_eq_iff_eq.1 hrow⟩
    · obtain ⟨u, hu, hrow⟩ := I.text row j hj
      exact ⟨u, getElem?_push_of_eq_some _ hu, hrow⟩

/-- Text paints its cell. -/
theorem paints_addText (I : s.Indexed) (c : Char) :
    (s.addText cell [c]).paints.Perm (s.paints ++ [⟨cell, .text, c⟩]) := by
  have hperm (texts' : Array TextRun)
      (htexts : (texts'.toList.flatMap TextRun.paints).Perm
        (s.texts.toList.flatMap TextRun.paints ++ [⟨cell, .text, c⟩])) :
      (s.marks.toList.map Mark.paint ++ texts'.toList.flatMap TextRun.paints ++
        s.lines.toList.flatMap LineRun.paints).Perm (s.paints ++ [⟨cell, .text, c⟩]) := by
    rw [paints, List.append_assoc, List.append_assoc, List.append_assoc]
    refine List.Perm.append_left _ ((htexts.append_right _).trans ?_)
    rw [List.append_assoc]
    exact List.perm_append_comm.append_left _
  rcases addText_cases s cell [c] with ⟨i, t, hi, ht, hstop, h⟩ | ⟨-, h⟩
  · rw [h]
    obtain ⟨u, hu, hrow⟩ := I.text _ i hi
    rw [ht, Option.some.injEq] at hu
    subst hu
    refine hperm _ ?_
    rw [Array.toList_modify]
    exact flatMap_modify_perm (by rw [Array.getElem?_toList, ht])
      (TextRun.paints_append hrow hstop c)
  · rw [h]
    refine hperm _ ?_
    rw [Array.toList_push, List.flatMap_append]
    simp [TextRun.paints]

end AddText

end Scan
end CellSketch
