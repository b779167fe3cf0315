import CellSketch.Proofs.Scan.SideBySide

/-!
# Inks — a diagram's cell, by its glyph and the line ends around it

Of the four characters around a cell of a diagram only one thing matters: on which sides a dash or a
bar points at the cell.  What is painted there is then a finite table over glyphs and sides.

* `inks` — that table;
* `paints_ofDiagram` — reading a cell paints what the table says;
* `mark_mem_inks`, `formsAt_of_line_mem_inks` — marks stand where no line does;
* `painted_ofDiagram_iff` — the painted cells of a diagram, by the table.
-/

namespace CellSketch
namespace Reading

/-! ## The table -/

/-- The marks that a glyph makes of the line ends around it. -/
def formsAt : Glyph → Sides → List MarkForm
  | .slash, s =>
      (if s.up ∧ s.left then [.corner .bottomRight] else []) ++
        (if s.right ∧ s.down then [.corner .topLeft] else [])
  | .backslash, s =>
      (if s.up ∧ s.right then [.corner .bottomLeft] else []) ++
        (if s.down ∧ s.left then [.corner .topRight] else [])
  | .cross, s => if s = {} then [] else [.marker .cross s]
  | .circle, s => if s = {} then [] else [.marker .circle s]
  | .plus, s => if s = {} then [] else [.marker .plain s]
  | .crossing, s => if s = ⟨true, true, true, true⟩ then [.crossing] else []
  | _, _ => []

/-- The axis of the line that a glyph is part of; a head is part of the shaft that it sits on. -/
def axisAt? : Glyph → Sides → Option Axis
  | .lineH, _ => some .horizontal
  | .lineV, _ => some .vertical
  | .arrowLeft, s => if s.right then some .horizontal else none
  | .arrowRight, s => if s.left then some .horizontal else none
  | .arrowUp, s => if s.down then some .vertical else none
  | .arrowDown, s => if s.up then some .vertical else none
  | _, _ => none

/-- What a cell of a diagram is painted with, by its glyph and the line ends around it. -/
def inks (glyph : Glyph) (s : Sides) : List Ink :=
  if glyph = .blank then []
  else
    match formsAt glyph s, axisAt? glyph s with
    | form :: more, _ => (form :: more).map .mark
    | [], some axis => [.line axis]
    | [], none => [.text]

theorem mark_mem_inks {glyph : Glyph} {s : Sides} {form : MarkForm} :
    .mark form ∈ inks glyph s ↔ form ∈ formsAt glyph s := by
  unfold inks
  split
  · rename_i hblank
    simp [hblank, formsAt]
  · split
    · rename_i hforms
      simp [hforms]
    · rename_i hforms _
      simp [hforms]
    · rename_i hforms _
      simp [hforms]

/-- Where there is a mark, no line is painted. -/
theorem formsAt_of_line_mem_inks {glyph : Glyph} {s : Sides} {axis : Axis}
    (h : .line axis ∈ inks glyph s) : formsAt glyph s = [] := by
  unfold inks at h
  split at h
  · simp at h
  · split at h
    · simp at h
    · assumption
    · assumption

/-! ## Reading by the table -/

/-- Reading a cell of a diagram paints what the table says. -/
theorem paints_ofDiagram (cell : Cell) (c : Char) (n : Neighbors) :
    (ofDiagram c n).paints cell c =
      (inks (Glyph.ofChar c) (lineSides n)).map fun ink => ⟨cell, ink, c⟩ := by
  have hchar : ∀ d, (Glyph.ofChar c).char? = some d → c = d := fun d => Glyph.eq_of_char?_ofChar
  unfold ofDiagram
  -- only the character of the glyph matters, not which other characters are text
  generalize Glyph.ofChar c = glyph at hchar ⊢
  cases glyph
  case blank | text => rfl
  all_goals
    obtain rfl := hchar _ rfl
    simp only [corners, markerOf?, lineBefore?, inks, formsAt, axisAt?, reduceCtorEq, if_false]
  case lineH | lineV => rfl
  case cross | circle | plus | crossing => split_ifs <;> rfl
  all_goals
    simp only [lineSides, beq_iff_eq]
    split_ifs <;> rfl

/-- The painted cells of a diagram. -/
theorem painted_ofDiagram_iff {g : Grid} {p : Paint} :
    Painted ofDiagram g p ↔ g.at? p.cell = some p.char ∧
      p.ink ∈ inks (Glyph.ofChar p.char) (lineSides (g.neighbors p.cell)) := by
  obtain ⟨cell, ink, char⟩ := p
  constructor
  · rintro ⟨c, hat, hp⟩
    rw [contribution_eq, paints_ofDiagram] at hp
    obtain ⟨ink', hink, heq⟩ := List.mem_map.1 hp
    simp only [Paint.mk.injEq, true_and] at heq
    obtain ⟨rfl, rfl⟩ := heq
    exact ⟨hat, hink⟩
  · rintro ⟨hat, hink⟩
    refine ⟨char, hat, ?_⟩
    rw [contribution_eq, paints_ofDiagram]
    exact List.mem_map.2 ⟨ink, hink, rfl⟩

end Reading
end CellSketch
