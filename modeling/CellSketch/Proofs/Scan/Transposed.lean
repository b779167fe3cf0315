import CellSketch.Proofs.Listing.Rows
import CellSketch.Proofs.Scan.Inks

/-!
# Transposed — rows and columns are scanned alike

A grid is transposed when rows and columns change places and every part of a line is replaced by the
one along the other axis.  Horizontal lines are found within one row and vertical ones across rows,
and yet the scan of the transposed grid is the transposed scan.

* `Grid.Transposes` — one grid is another one transposed; `transposeRows` makes it of a text;
* `inks_transpose` — a transposed cell is painted with the transposed inks;
* `LineRun.whole_transpose` — a line is whole exactly when it is whole transposed;
* `scan_transposed` — lines, marks and the cells of text of a transposed text.
-/

namespace CellSketch

/-! ## Transposing -/

def Cell.transpose (cell : Cell) : Cell := ⟨cell.y, cell.x⟩

def Axis.other : Axis → Axis
  | .horizontal => .vertical
  | .vertical => .horizontal

/-- The diagonal from top left to bottom right stays where it is. -/
def Corner.transpose : Corner → Corner
  | .topLeft => .topLeft
  | .topRight => .bottomLeft
  | .bottomLeft => .topRight
  | .bottomRight => .bottomRight

def Sides.transpose (s : Sides) : Sides where
  up := s.left
  right := s.down
  down := s.right
  left := s.up

def MarkForm.transpose : MarkForm → MarkForm
  | .corner which => .corner which.transpose
  | .marker symbol connectors => .marker symbol connectors.transpose
  | .crossing => .crossing

def Mark.transpose (m : Mark) : Mark := ⟨m.cell.transpose, m.form.transpose⟩

/-- A line over the same positions of the same lane along the other axis. -/
def LineRun.transpose (l : LineRun) : LineRun := { l with axis := l.axis.other }

/-- The character that stands for the same part of a line along the other axis. -/
def transposeChar : Char → Char
  | '-' => '|'
  | '|' => '-'
  | '<' => '^'
  | '^' => '<'
  | '>' => 'V'
  | 'V' => '>'
  | c => c

def Glyph.transpose : Glyph → Glyph
  | .lineH => .lineV
  | .lineV => .lineH
  | .arrowLeft => .arrowUp
  | .arrowUp => .arrowLeft
  | .arrowRight => .arrowDown
  | .arrowDown => .arrowRight
  | glyph => glyph

def Ink.transpose : Ink → Ink
  | .mark form => .mark form.transpose
  | .line axis => .line axis.other
  | .text => .text

def Paint.transpose (p : Paint) : Paint :=
  ⟨p.cell.transpose, p.ink.transpose, transposeChar p.char⟩

/-- The columns of rows of one width, each character replaced by the one along the other axis. -/
def transposeRows (width : Nat) (rows : List (List Char)) : List (List Char) :=
  (List.range width).map fun x => rows.filterMap fun row => row[x]?.map transposeChar

/-- The second grid is the first one transposed. -/
def Grid.Transposes (g g' : Grid) : Prop :=
  ∀ cell : Cell, g'.at? cell.transpose = (g.at? cell).map transposeChar

/-! ### Twice -/

@[simp] theorem Cell.transpose_transpose (cell : Cell) : cell.transpose.transpose = cell := rfl

@[simp] theorem Axis.other_other (axis : Axis) : axis.other.other = axis := by
  cases axis <;> rfl

@[simp] theorem MarkForm.transpose_transpose (form : MarkForm) :
    form.transpose.transpose = form := by
  rcases form with ⟨_ | _ | _ | _⟩ | _ | _ <;> rfl

@[simp] theorem Mark.transpose_transpose (m : Mark) : m.transpose.transpose = m := by
  simp [Mark.transpose]

@[simp] theorem LineRun.transpose_transpose (l : LineRun) : l.transpose.transpose = l := by
  simp [LineRun.transpose]

@[simp] theorem Ink.transpose_transpose (ink : Ink) : ink.transpose.transpose = ink := by
  cases ink <;> simp [Ink.transpose]

/-- The characters of lines change, and no others do. -/
theorem transposeChar_cases (c : Char) :
    c ∈ ['-', '|', '<', '^', '>', 'V'] ∨ transposeChar c = c := by
  unfold transposeChar
  split
  all_goals simp

@[simp] theorem transposeChar_transposeChar (c : Char) : transposeChar (transposeChar c) = c := by
  rcases transposeChar_cases c with hline | hother
  · simp only [List.mem_cons, List.not_mem_nil, or_false] at hline
    rcases hline with rfl | rfl | rfl | rfl | rfl | rfl <;> rfl
  · rw [hother, hother]

theorem transposeChar_eq_iff {c d : Char} : transposeChar c = d ↔ c = transposeChar d :=
  Function.Involutive.eq_iff transposeChar_transposeChar

theorem Ink.transpose_eq_line {ink : Ink} {axis : Axis} :
    ink.transpose = .line axis ↔ ink = .line axis.other :=
  Function.Involutive.eq_iff Ink.transpose_transpose

@[simp] theorem Paint.transpose_transpose (p : Paint) : p.transpose.transpose = p := by
  simp [Paint.transpose]

theorem Grid.Transposes.symm {g g' : Grid} (T : g.Transposes g') : g'.Transposes g := by
  intro cell
  have hat := T cell.transpose
  rw [Cell.transpose_transpose] at hat
  simp [hat, Function.comp_def]

/-! ### Along the other axis -/

namespace Axis

theorem lane_other (axis : Axis) (cell : Cell) :
    axis.other.lane cell = axis.lane cell.transpose := by
  cases axis <;> rfl

theorem position_other (axis : Axis) (cell : Cell) :
    axis.other.position cell = axis.position cell.transpose := by
  cases axis <;> rfl

theorem openingChar_other (axis : Axis) :
    axis.other.openingChar = transposeChar axis.openingChar := by
  cases axis <;> rfl

theorem closingChar_other (axis : Axis) :
    axis.other.closingChar = transposeChar axis.closingChar := by
  cases axis <;> rfl

theorem shaftChar_other (axis : Axis) : axis.other.shaftChar = transposeChar axis.shaftChar := by
  cases axis <;> rfl

end Axis

/-! ## Reading transposed cells -/

theorem transposeChar_injective : Function.Injective transposeChar :=
  Function.Involutive.injective transposeChar_transposeChar

theorem transposeChar_surjective : Function.Surjective transposeChar :=
  Function.Involutive.surjective transposeChar_transposeChar

theorem Glyph.ofChar_transposeChar (c : Char) :
    Glyph.ofChar (transposeChar c) = (Glyph.ofChar c).transpose := by
  rcases transposeChar_cases c with hline | hother
  · simp only [List.mem_cons, List.not_mem_nil, or_false] at hline
    rcases hline with rfl | rfl | rfl | rfl | rfl | rfl <;> rfl
  · -- a character that stays has none of the glyphs that change
    have hchar : ∀ d, (Glyph.ofChar c).char? = some d → c = d :=
      fun d => Glyph.eq_of_char?_ofChar
    rw [hother]
    generalize Glyph.ofChar c = glyph at hchar ⊢
    cases glyph
    case lineH | lineV | arrowLeft | arrowRight | arrowUp | arrowDown =>
      obtain rfl := hchar _ rfl
      exact absurd hother (by decide)
    all_goals rfl

theorem lineSides_transpose {g g' : Grid} (T : g.Transposes g') (cell : Cell) :
    Reading.lineSides (g'.neighbors cell.transpose) =
      (Reading.lineSides (g.neighbors cell)).transpose := by
  have hside (side : Cell) (c : Char) :
      (g'.at? side.transpose == some (transposeChar c)) = (g.at? side == some c) := by
    rw [T side, Bool.eq_iff_iff, beq_iff_eq, beq_iff_eq, ← Option.map_some,
      (Option.map_injective transposeChar_injective).eq_iff]
  rw [Reading.lineSides, Reading.lineSides, Sides.transpose, Sides.mk.injEq]
  exact ⟨hside ⟨cell.x - 1, cell.y⟩ '-', hside ⟨cell.x, cell.y + 1⟩ '|',
    hside ⟨cell.x + 1, cell.y⟩ '-', hside ⟨cell.x, cell.y - 1⟩ '|'⟩

namespace Reading

/-- A transposed glyph between transposed lines is painted with the transposed inks.  The two
corners of a backslash change places. -/
theorem inks_transpose (glyph : Glyph) (s : Sides) :
    ((inks glyph s).map Ink.transpose).Perm (inks glyph.transpose s.transpose) := by
  obtain ⟨_ | _, _ | _, _ | _, _ | _⟩ := s <;> cases glyph <;> decide

end Reading

/-- A transposed grid is painted with the transposed paints. -/
theorem Painted.transpose {g g' : Grid} (T : g.Transposes g') {p : Paint}
    (h : Painted Reading.ofDiagram g p) : Painted Reading.ofDiagram g' p.transpose := by
  obtain ⟨hat, hink⟩ := Reading.painted_ofDiagram_iff.1 h
  refine Reading.painted_ofDiagram_iff.2 ⟨?_, ?_⟩
  · simp only [Paint.transpose, T p.cell, hat, Option.map_some]
  · simp only [Paint.transpose, Glyph.ofChar_transposeChar, lineSides_transpose T]
    rw [← (Reading.inks_transpose _ _).mem_iff]
    exact List.mem_map_of_mem hink

theorem painted_transpose {g g' : Grid} (T : g.Transposes g') (p : Paint) :
    Painted Reading.ofDiagram g' p ↔ Painted Reading.ofDiagram g p.transpose := by
  refine ⟨fun h => h.transpose T.symm, fun h => ?_⟩
  have hback := h.transpose T
  rwa [Paint.transpose_transpose] at hback

/-! ## Whole lines -/

namespace LineRun

theorem charAt_transpose (l : LineRun) (cell : Cell) :
    l.transpose.charAt cell = transposeChar (l.charAt cell.transpose) := by
  simp only [charAt, transpose, Axis.position_other, Axis.openingChar_other,
    Axis.closingChar_other, Axis.shaftChar_other, apply_ite transposeChar]

theorem mem_paints_transpose {l : LineRun} {p : Paint} :
    p ∈ l.transpose.paints ↔ p.transpose ∈ l.paints := by
  rw [mem_paints, mem_paints, mem_cells, mem_cells, charAt_transpose]
  simp only [transpose, Axis.lane_other, Axis.position_other, Paint.transpose,
    Ink.transpose_eq_line, transposeChar_eq_iff]

variable {P : Paint → Prop} {l : LineRun}

theorem Whole.transpose (h : l.Whole fun p => P p.transpose) : l.transpose.Whole P where
  solid := h.solid
  painted p hp := by
    have hback := h.painted p.transpose (mem_paints_transpose.1 hp)
    rwa [Paint.transpose_transpose] at hback
  start p hp hink hlane hposition := by
    have hparted := h.start p.transpose (by rwa [Paint.transpose_transpose])
      (Ink.transpose_eq_line.2 hink) ((l.axis.lane_other p.cell).symm.trans hlane)
      ((l.axis.position_other p.cell).symm.trans hposition)
    refine hparted.imp_left fun hclosed => ?_
    rw [LineRun.transpose, Axis.closingChar_other]
    exact transposeChar_eq_iff.1 hclosed
  stop p hp hink hlane hposition := by
    have hparted := h.stop p.transpose (by rwa [Paint.transpose_transpose])
      (Ink.transpose_eq_line.2 hink) ((l.axis.lane_other p.cell).symm.trans hlane)
      ((l.axis.position_other p.cell).symm.trans hposition)
    refine hparted.imp_right fun hopened => ?_
    rw [LineRun.transpose, Axis.openingChar_other]
    exact transposeChar_eq_iff.1 hopened

/-- A line is whole exactly when it is whole transposed. -/
theorem whole_transpose : l.transpose.Whole P ↔ l.Whole fun p => P p.transpose := by
  refine ⟨fun h => ?_, Whole.transpose⟩
  rw [← l.transpose_transpose]
  exact Whole.transpose (by simpa only [Paint.transpose_transpose] using h)

end LineRun

/-! ## Cells of text -/

/-- A character of the text stands in the cell. -/
def TextRun.Covers (t : TextRun) (cell : Cell) : Prop :=
  cell.y = t.cell.y ∧ t.cell.x ≤ cell.x ∧ cell.x < t.stop

theorem TextRun.covers_iff {t : TextRun} {cell : Cell} :
    t.Covers cell ↔ ∃ c, ⟨cell, .text, c⟩ ∈ t.paints := by
  simp only [mem_paints, Paint.mk.injEq, true_and]
  constructor
  · rintro ⟨hrow, hfirst, hstop⟩
    have hlt : (cell.x - t.cell.x).toNat < t.text.length := by
      rw [stop] at hstop
      omega
    refine ⟨_, _, _, List.getElem?_eq_getElem hlt, ?_, rfl⟩
    obtain ⟨x, y⟩ := cell
    rw [Cell.mk.injEq]
    dsimp only at hrow hfirst ⊢
    omega
  · rintro ⟨c, i, d, hd, rfl, rfl⟩
    have hlt := (List.getElem?_eq_some_iff.1 hd).1
    rw [Covers, stop]
    dsimp only
    omega

/-- The cells of text are those painted as text. -/
theorem exists_covers_iff {read : Char → Neighbors → Reading} {g : Grid} (hread : Faithful read)
    {cell : Cell} : (∃ t ∈ (Scan.ofGrid read g).texts, t.Covers cell) ↔
      ∃ c, Painted read g ⟨cell, .text, c⟩ := by
  constructor
  · rintro ⟨t, ht, hcovers⟩
    obtain ⟨c, hp⟩ := TextRun.covers_iff.1 hcovers
    exact ⟨c, (mem_paints_ofGrid hread).1 (Scan.mem_paints.2 (Or.inr (Or.inl ⟨t, ht, hp⟩)))⟩
  · rintro ⟨c, hp⟩
    rcases Scan.mem_paints.1 ((mem_paints_ofGrid hread).2 hp) with
      ⟨m, -, hm⟩ | ⟨t, ht, hpt⟩ | ⟨l, -, hpl⟩
    · cases congrArg Paint.ink hm
    · exact ⟨t, ht, TextRun.covers_iff.2 ⟨c, hpt⟩⟩
    · cases (LineRun.mem_paints.1 hpl).2.1

/-! ## Texts -/

/-- Lines that are put together show their characters where they stood, the empty ones at the end
apart, which show none. -/
theorem Text.getElem?_lines_joinWith {rows : List (List Char)}
    (h : ∀ row ∈ rows, ∀ c ∈ row, isLineBreak c = false) (x y : Nat) :
    ((lines (joinWith ['\n'] rows))[y]?).bind (·[x]?) = rows[y]?.bind (·[x]?) := by
  induction rows generalizing y with
  | nil => rfl
  | cons row rest ih =>
    have hrow := h row List.mem_cons_self
    cases rest with
    | nil =>
      rw [joinWith, List.intercalate_singleton]
      by_cases hne : row = []
      · subst hne
        cases y <;> simp [lines]
      · rw [lines_of_line hrow hne]
    | cons next rest =>
      rw [joinWith_cons_cons, lines_append hrow]
      cases y with
      | zero => rfl
      | succ y => exact ih (fun row' hrow' => h row' (List.mem_cons_of_mem _ hrow')) y

theorem Grid.at?_ofText (text : List Char) (x y : Nat) :
    (Grid.ofText text).at? ⟨x, y⟩ = (Text.lines text)[y]?.bind (·[x]?) := by
  have hneg : ¬ ((x : Int) < 0 ∨ (y : Int) < 0) := by omega
  simp only [at?, if_neg hneg, ofText, Int.toNat_natCast, List.getElem?_toArray, List.getElem?_map]
  cases (Text.lines text)[y]? <;> simp

theorem Grid.at?_of_negative (g : Grid) {cell : Cell} (h : cell.x < 0 ∨ cell.y < 0) :
    g.at? cell = none := by
  rw [at?, if_pos h]

theorem getElem?_filterMap_of_isSome {α β : Type} {f : α → Option β} {l : List α}
    (h : ∀ a ∈ l, (f a).isSome) (i : Nat) : (l.filterMap f)[i]? = l[i]?.bind f := by
  induction l generalizing i with
  | nil => rfl
  | cons a l ih =>
    obtain ⟨b, hb⟩ := Option.isSome_iff_exists.1 (h a List.mem_cons_self)
    rw [List.filterMap_cons_some hb]
    cases i with
    | zero => simp [hb]
    | succ i =>
      rw [List.getElem?_cons_succ, List.getElem?_cons_succ]
      exact ih (fun a' ha' => h a' (List.mem_cons_of_mem _ ha')) i

theorem getElem?_transposeRows {width : Nat} {rows : List (List Char)}
    (hwidth : ∀ row ∈ rows, row.length = width) (x y : Nat) :
    ((transposeRows width rows)[x]?).bind (·[y]?) =
      (rows[y]?.bind (·[x]?)).map transposeChar := by
  rw [transposeRows, List.getElem?_map]
  by_cases hx : x < width
  · have hsome : ∀ row ∈ rows, (row[x]?.map transposeChar).isSome := by
      intro row hrow
      rw [List.getElem?_eq_getElem ((hwidth row hrow).symm ▸ hx)]
      rfl
    rw [List.getElem?_range hx, Option.map_some, Option.bind_some,
      getElem?_filterMap_of_isSome hsome, Option.map_bind]
    rfl
  · -- there is no such column, and no row reaches that far
    have hnone : rows[y]?.bind (·[x]?) = none := by
      rw [Option.bind_eq_none_iff]
      intro row hrow
      rw [List.getElem?_eq_none_iff, hwidth row (List.mem_of_getElem? hrow)]
      exact Nat.not_lt.1 hx
    rw [hnone, List.getElem?_eq_none (by simpa using hx)]
    rfl

theorem mem_transposeRows {width : Nat} {rows : List (List Char)} {column : List Char} {c : Char}
    (hcolumn : column ∈ transposeRows width rows) (hc : c ∈ column) :
    ∃ row ∈ rows, ∃ d ∈ row, c = transposeChar d := by
  obtain ⟨x, -, rfl⟩ := List.mem_map.1 hcolumn
  obtain ⟨row, hrow, hmap⟩ := List.mem_filterMap.1 hc
  obtain ⟨d, hd, rfl⟩ := Option.map_eq_some_iff.1 hmap
  exact ⟨row, hrow, d, List.mem_of_getElem? hd, rfl⟩

theorem isLineBreak_transposeChar {c : Char} (h : Text.isLineBreak c = false) :
    Text.isLineBreak (transposeChar c) = false := by
  rcases transposeChar_cases c with hline | hother
  · simp only [List.mem_cons, List.not_mem_nil, or_false] at hline
    rcases hline with rfl | rfl | rfl | rfl | rfl | rfl <;> rfl
  · rwa [hother]

/-- A text in rows of one width, and its columns put together. -/
theorem transposes_ofText {width : Nat} {rows : List (List Char)}
    (hwidth : ∀ row ∈ rows, row.length = width)
    (hbreaks : ∀ row ∈ rows, ∀ c ∈ row, Text.isLineBreak c = false) :
    (Grid.ofText (Text.joinWith ['\n'] rows)).Transposes
      (.ofText (Text.joinWith ['\n'] (transposeRows width rows))) := by
  have hturned : ∀ column ∈ transposeRows width rows, ∀ c ∈ column,
      Text.isLineBreak c = false := by
    intro column hcolumn c hc
    obtain ⟨row, hrow, d, hd, rfl⟩ := mem_transposeRows hcolumn hc
    exact isLineBreak_transposeChar (hbreaks row hrow d hd)
  intro cell
  by_cases hneg : cell.x < 0 ∨ cell.y < 0
  · rw [Grid.at?_of_negative _ hneg, Grid.at?_of_negative _ hneg.symm, Option.map_none]
  · obtain ⟨x, hx⟩ := Int.eq_ofNat_of_zero_le (a := cell.x) (by omega)
    obtain ⟨y, hy⟩ := Int.eq_ofNat_of_zero_le (a := cell.y) (by omega)
    obtain rfl : cell = ⟨x, y⟩ := by
      cases cell
      cases hx
      cases hy
      rfl
    rw [Cell.transpose, Grid.at?_ofText, Grid.at?_ofText, Text.getElem?_lines_joinWith hturned,
      Text.getElem?_lines_joinWith hbreaks, getElem?_transposeRows hwidth]

/-! ## The scan -/

theorem Mark.paint_transpose (m : Mark) : m.transpose.paint = m.paint.transpose := by
  obtain ⟨cell, form⟩ := m
  rcases form with ⟨_ | _ | _ | _⟩ | ⟨_ | _ | _⟩ | _ <;> rfl

/-- A list without repetitions holds the images of another one. -/
theorem perm_map_of_mem_iff {α : Type} {f : α → α} (hf : Function.Involutive f) {l l' : List α}
    (hl : l.Nodup) (hl' : l'.Nodup) (hmem : ∀ a, a ∈ l' ↔ f a ∈ l) : l'.Perm (l.map f) := by
  refine (List.perm_ext_iff_of_nodup hl' (hl.map hf.injective)).2 fun a => ?_
  rw [hmem, List.mem_map_of_involutive hf]

/-- Rows and columns are scanned alike: the lines of a transposed text are the lines of the text
along the other axis, its marks are the transposed marks, and its cells of text are the transposed
cells of text. -/
theorem scan_transposed (width : Nat) (rows : List (List Char))
    (hwidth : ∀ row ∈ rows, row.length = width)
    (hbreaks : ∀ row ∈ rows, ∀ c ∈ row, Text.isLineBreak c = false) :
    let scan := Scan.ofDiagram (Text.joinWith ['\n'] rows)
    let turned := Scan.ofDiagram (Text.joinWith ['\n'] (transposeRows width rows))
    turned.lines.toList.Perm (scan.lines.toList.map LineRun.transpose) ∧
      turned.marks.toList.Perm (scan.marks.toList.map Mark.transpose) ∧
      ∀ cell : Cell, (∃ t ∈ turned.texts, t.Covers cell.transpose) ↔
        ∃ t ∈ scan.texts, t.Covers cell := by
  intro scan turned
  have hread := Reading.faithful_ofDiagram
  have hpainted : Painted Reading.ofDiagram
      (.ofText (Text.joinWith ['\n'] (transposeRows width rows))) = fun p =>
        Painted Reading.ofDiagram (.ofText (Text.joinWith ['\n'] rows)) p.transpose :=
    funext fun p => propext (painted_transpose (transposes_ofText hwidth hbreaks) p)
  refine ⟨?_, ?_, fun cell => ?_⟩
  · refine perm_map_of_mem_iff LineRun.transpose_transpose (nodup_findings hread).2.2
      (nodup_findings hread).2.2 fun l => ?_
    simp only [Array.mem_toList_iff, turned, scan, Scan.ofDiagram, mem_lines_iff hread, hpainted]
    exact LineRun.whole_transpose.symm
  · refine perm_map_of_mem_iff Mark.transpose_transpose (nodup_findings hread).1
      (nodup_findings hread).1 fun m => ?_
    simp only [Array.mem_toList_iff, turned, scan, Scan.ofDiagram, mem_marks_iff hread, hpainted,
      Mark.paint_transpose]
  · simp only [turned, scan, Scan.ofDiagram, exists_covers_iff hread, hpainted]
    exact (transposeChar_surjective.exists (p := fun c =>
      Painted Reading.ofDiagram (.ofText (Text.joinWith ['\n'] rows)) ⟨cell, .text, c⟩)).symm

/-- Two corners in one cell, with heads, short lines and text around it. -/
def bend : List (List Char) := ["  | ^".toList, "<-\\->".toList, "V-|x|".toList]

example : transposeRows 5 bend = [" ^>".toList, " ||".toList, "-\\-".toList, " |x".toList,
    "<V-".toList] := by decide

theorem scan_bend_transposed :
    (∀ row ∈ bend, row.length = 5) ∧
      (∀ row ∈ bend, ∀ c ∈ row, Text.isLineBreak c = false) ∧
      (Scan.ofDiagram (Text.joinWith ['\n'] (transposeRows 5 bend))).lines.toList.Perm
        ((Scan.ofDiagram (Text.joinWith ['\n'] bend)).lines.toList.map LineRun.transpose) := by
  have hwidth : ∀ row ∈ bend, row.length = 5 := by decide
  have hbreaks : ∀ row ∈ bend, ∀ c ∈ row, Text.isLineBreak c = false := by decide
  exact ⟨hwidth, hbreaks, (scan_transposed 5 bend hwidth hbreaks).1⟩

end CellSketch
