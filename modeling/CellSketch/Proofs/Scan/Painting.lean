import Mathlib.Tactic.Common
import CellSketch.Scan.Reading

/-!
# Painting — the findings of a scan as characters

Every item of a scan paints cells with characters: a mark paints its own cell, a text run its
characters to the right, and a line its shaft with the heads it carries.  What an operation adds to
a scan is then what it adds to the painted cells, in whatever order they are listed.

* `LineRun.paints_push` — a line that grows paints one more cell, and the old ones as before;
* `paints_addMark`, `paints_addText` — marks and text paint just the cell they are found in.
-/

namespace CellSketch

/-! ## Painted cells -/

/-- The kind of item that paints a cell. -/
inductive Ink where
  | mark (form : MarkForm)
  | line (axis : Axis)
  | text
  deriving DecidableEq, Repr

/-- A cell painted with a character. -/
structure Paint where
  cell : Cell
  ink : Ink
  char : Char
  deriving DecidableEq, Repr

/-- The character that stands for a mark. -/
def MarkForm.char : MarkForm → Char
  | .corner .topLeft | .corner .bottomRight => '/'
  | .corner .topRight | .corner .bottomLeft => '\\'
  | .marker .cross _ => 'x'
  | .marker .circle _ => 'o'
  | .marker .plain _ => '+'
  | .crossing => 'C'

def Mark.paint (m : Mark) : Paint := ⟨m.cell, .mark m.form, m.form.char⟩

/-- The characters of a text run, from its cell to the right. -/
def TextRun.paints (t : TextRun) : List Paint :=
  t.text.zipIdx.map fun (c, i) => ⟨⟨t.cell.x + i, t.cell.y⟩, .text, c⟩

namespace Axis

/-- The character of a line without a head. -/
def shaftChar : Axis → Char
  | .horizontal => '-'
  | .vertical => '|'

/-- The character of the head at the start of a line. -/
def openingChar : Axis → Char
  | .horizontal => '<'
  | .vertical => '^'

/-- The cell at a position of a lane. -/
def cellAt (axis : Axis) (lane position : Int) : Cell :=
  match axis with
  | .horizontal => ⟨position, lane⟩
  | .vertical => ⟨lane, position⟩

@[simp] theorem lane_cellAt (axis : Axis) (lane position : Int) :
    axis.lane (axis.cellAt lane position) = lane := by
  cases axis <;> rfl

@[simp] theorem position_cellAt (axis : Axis) (lane position : Int) :
    axis.position (axis.cellAt lane position) = position := by
  cases axis <;> rfl

@[simp] theorem cellAt_lane_position (axis : Axis) (cell : Cell) :
    axis.cellAt (axis.lane cell) (axis.position cell) = cell := by
  cases axis <;> rfl

/-- The cell before another one along an axis. -/
def previous (axis : Axis) (cell : Cell) : Cell :=
  axis.cellAt (axis.lane cell) (axis.position cell - 1)

end Axis

/-- The character of a line glyph. -/
def Glyph.lineChar (glyph : Glyph) : Char :=
  if glyph = glyph.axis.opening then glyph.axis.openingChar
  else if glyph = glyph.axis.closing then glyph.axis.closingChar
  else glyph.axis.shaftChar

theorem Glyph.closing_ne_opening (glyph : Glyph) : glyph.axis.closing ≠ glyph.axis.opening := by
  cases glyph <;> decide

namespace LineRun

/-- The cells of a line, from its first to its last. -/
def cells (l : LineRun) : List Cell :=
  (List.range (l.last + 1 - l.first).toNat).map fun (i : Nat) => l.axis.cellAt l.lane (l.first + i)

/-- The character of a line in one of its cells: its heads stand in its first and last cell. -/
def charAt (l : LineRun) (cell : Cell) : Char :=
  if l.arrow.atStart ∧ l.axis.position cell = l.first then l.axis.openingChar
  else if l.arrow.atEnd ∧ l.axis.position cell = l.last then l.axis.closingChar
  else l.axis.shaftChar

def paints (l : LineRun) : List Paint :=
  l.cells.map fun cell => ⟨cell, .line l.axis, l.charAt cell⟩

end LineRun

namespace Scan

/-- Everything that a scan paints. -/
def paints (s : Scan) : List Paint :=
  s.marks.toList.map Mark.paint ++ s.texts.toList.flatMap TextRun.paints ++
    s.lines.toList.flatMap LineRun.paints

/-- What a scan paints in one cell. -/
def paintsAt (s : Scan) (cell : Cell) : List Paint := s.paints.filter (·.cell = cell)

end Scan

/-! ## Lines -/

namespace LineRun

theorem mem_cells {l : LineRun} {cell : Cell} :
    cell ∈ l.cells ↔ l.axis.lane cell = l.lane ∧ l.first ≤ l.axis.position cell ∧
      l.axis.position cell ≤ l.last := by
  rw [cells, List.mem_map]
  constructor
  · rintro ⟨i, hi, rfl⟩
    rw [List.mem_range] at hi
    rw [Axis.lane_cellAt, Axis.position_cellAt]
    omega
  · rintro ⟨hlane, hfirst, hlast⟩
    refine ⟨(l.axis.position cell - l.first).toNat, ?_, ?_⟩
    · rw [List.mem_range]
      omega
    · have hback : l.first + ((l.axis.position cell - l.first).toNat : Int) =
          l.axis.position cell := by omega
      rw [hback, ← hlane, Axis.cellAt_lane_position]

theorem mem_paints {l : LineRun} {p : Paint} :
    p ∈ l.paints ↔ p.cell ∈ l.cells ∧ p.ink = .line l.axis ∧ p.char = l.charAt p.cell := by
  rw [paints, List.mem_map]
  constructor
  · rintro ⟨cell, hcell, rfl⟩
    exact ⟨hcell, rfl, rfl⟩
  · rintro ⟨hcell, hink, hchar⟩
    cases p
    exact ⟨_, hcell, by rw [← hink, ← hchar]⟩

/-- The head at the end of a line is painted in its last cell. -/
theorem head_mem_paints (l : LineRun) (hend : l.arrow.atEnd = true) (hlong : l.first < l.last) :
    ⟨l.axis.cellAt l.lane l.last, .line l.axis, l.axis.closingChar⟩ ∈ l.paints := by
  rw [mem_paints, mem_cells]
  refine ⟨by simp [Int.le_of_lt hlong], rfl, ?_⟩
  have hne : l.last ≠ l.first := by omega
  simp [charAt, hend, hne]

/-- A line that grows by the next cell of its lane. -/
theorem cells_push {l : LineRun} {cell : Cell} (glyph : Glyph) (hsolid : l.first ≤ l.last)
    (hlane : l.lane = l.axis.lane cell) (hlast : l.last = l.axis.position cell - 1) :
    (l.push cell glyph).cells = l.cells ++ [cell] := by
  have hcount : (l.axis.position cell + 1 - l.first).toNat = (l.last + 1 - l.first).toNat + 1 := by
    omega
  have hnext : l.first + ((l.last + 1 - l.first).toNat : Int) = l.axis.position cell := by
    omega
  simp only [cells, push]
  rw [hcount, List.range_succ, List.map_append, List.map_singleton, hnext, hlane,
    Axis.cellAt_lane_position]

/-- A line without a head at its end keeps its characters when it grows, and the new cell shows the
glyph. -/
theorem paints_push {l : LineRun} {cell : Cell} {glyph : Glyph} (hsolid : l.first ≤ l.last)
    (haxis : l.axis = glyph.axis) (hlane : l.lane = l.axis.lane cell)
    (hlast : l.last = l.axis.position cell - 1) (hend : l.arrow.atEnd = false)
    (hglyph : glyph ≠ glyph.axis.opening) :
    (l.push cell glyph).paints = l.paints ++ [⟨cell, .line glyph.axis, glyph.lineChar⟩] := by
  -- a head at the new end stands in the new cell only
  have hold : ∀ c ∈ l.cells, (l.push cell glyph).charAt c = l.charAt c := by
    intro c hc
    have hle := (mem_cells.1 hc).2.2
    have hne : l.axis.position c ≠ l.axis.position cell := by omega
    simp only [charAt, push, hend, hne, and_false, if_false, Bool.false_eq_true, false_and]
  have hnew : (l.push cell glyph).charAt cell = glyph.lineChar := by
    have hne : glyph.axis.position cell ≠ l.first := by
      rw [← haxis]
      omega
    simp only [charAt, push, hend, Bool.false_or, haxis, hne, and_false, if_false, and_true,
      beq_iff_eq, Glyph.lineChar, if_neg hglyph]
  rw [paints, paints, cells_push glyph hsolid hlane hlast, List.map_append, List.map_singleton,
    hnew, List.map_congr_left fun c hc => congrArg (Paint.mk c _) (hold c hc)]
  simp only [push, haxis]

theorem cells_single (cell : Cell) (glyph : Glyph) : (single cell glyph).cells = [cell] := by
  have hcount : (glyph.axis.position cell + 1 - glyph.axis.position cell).toNat = 1 := by omega
  simp only [cells, single, hcount]
  simp

/-- A line of one cell shows any glyph but a head at its end. -/
theorem paints_single {cell : Cell} {glyph : Glyph} (hglyph : glyph ≠ glyph.axis.closing) :
    (single cell glyph).paints = [⟨cell, .line glyph.axis, glyph.lineChar⟩] := by
  rw [paints, cells_single, List.map_singleton]
  simp [single, charAt, Glyph.lineChar, hglyph]

end LineRun

/-- A text run that grows by a character in the cell behind it. -/
theorem TextRun.paints_append {t : TextRun} {cell : Cell} (hrow : t.cell.y = cell.y)
    (hstop : t.stop = cell.x) (c : Char) :
    TextRun.paints { t with text := t.text ++ [c] } = t.paints ++ [⟨cell, .text, c⟩] := by
  have hcell : (⟨t.cell.x + t.text.length, t.cell.y⟩ : Cell) = cell := by
    rw [← TextRun.stop, hstop, hrow]
  simp [TextRun.paints, List.zipIdx_append, hcell]

/-! ## Scans that grow -/

/-- An item that grows adds what it paints more, in some order. -/
theorem flatMap_modify_perm {α β : Type} {f : α → α} {g : α → List β} {more : List β} {l : List α}
    {i : Nat} {x : α} (hi : l[i]? = some x) (hx : g (f x) = g x ++ more) :
    ((l.modify i f).flatMap g).Perm (l.flatMap g ++ more) := by
  induction l generalizing i with
  | nil => simp at hi
  | cons a rest ih =>
      cases i with
      | zero =>
          rw [List.getElem?_cons_zero, Option.some.injEq] at hi
          subst hi
          rw [List.modify_zero_cons, List.flatMap_cons, List.flatMap_cons, hx, List.append_assoc,
            List.append_assoc]
          exact List.perm_append_comm.append_left _
      | succ i =>
          rw [List.getElem?_cons_succ] at hi
          rw [List.modify_succ_cons, List.flatMap_cons, List.flatMap_cons, List.append_assoc]
          exact (ih hi).append_left _

namespace Scan

theorem mem_paints {s : Scan} {p : Paint} :
    p ∈ s.paints ↔ (∃ m ∈ s.marks, p = m.paint) ∨ (∃ t ∈ s.texts, p ∈ t.paints) ∨
      ∃ l ∈ s.lines, p ∈ l.paints := by
  simp only [paints, List.mem_append, List.mem_map, List.mem_flatMap, Array.mem_toList_iff,
    or_assoc, eq_comm (a := p)]

theorem paints_addMark (s : Scan) (cell : Cell) (form : MarkForm) :
    (s.addMark cell form).paints.Perm (s.paints ++ [⟨cell, .mark form, form.char⟩]) := by
  simp only [paints, addMark, Array.toList_push, List.map_append, List.map_singleton,
    List.append_assoc]
  refine List.Perm.append_left _ ?_
  rw [← List.append_assoc (List.flatMap _ _)]
  exact List.perm_append_comm

end Scan

end CellSketch
