import Mathlib.Analysis.SpecialFunctions.Trigonometric.Basic
import CellSketch.Drawing
import CellSketch.Proofs.Scan.Inks

/-!
# Joints — marks and lines join without gaps

A mark is drawn toward those of its sides on which a line ends.  The cell on such a side belongs to
exactly one line along that axis, the line ends in that very cell, and the strokes of the mark and
of the line run to the same point of the edge between the two cells, whatever the size of a cell.

* `Side` — the four sides of a cell, each with the cell beyond it;
* `MarkForm.sides` — the sides toward which a mark is drawn;
* `exists_line_beyond` — beyond such a side there is a line, and it ends there;
* `Shape.ends` — where a stroke ends, an arc by its exact angles;
* `Mark.edge_mem_ends`, `LineRun.edge_mem_ends` — marks and lines are drawn up to the shared edge;
* `scan_joins` — the marks of a diagram join its lines.
-/

namespace CellSketch

open Number

/-! ## Sides -/

/-- One of the four sides of a cell. -/
inductive Side where
  | up
  | right
  | down
  | left
  deriving DecidableEq, Repr

namespace Side

/-- The axis of a line that crosses the side. -/
def axis : Side → Axis
  | .up | .down => .vertical
  | .right | .left => .horizontal

/-- The cell beyond the side. -/
def beyond (side : Side) (cell : Cell) : Cell :=
  match side with
  | .up => ⟨cell.x, cell.y - 1⟩
  | .right => ⟨cell.x + 1, cell.y⟩
  | .down => ⟨cell.x, cell.y + 1⟩
  | .left => ⟨cell.x - 1, cell.y⟩

def opposite : Side → Side
  | .up => .down
  | .right => .left
  | .down => .up
  | .left => .right

def all : List Side := [.up, .right, .down, .left]

theorem mem_all (side : Side) : side ∈ all := by
  cases side <;> decide

end Side

namespace Axis

/-- The side on which a line begins. -/
def startSide : Axis → Side
  | .horizontal => .left
  | .vertical => .up

/-- The side on which a line ends. -/
def stopSide : Axis → Side
  | .horizontal => .right
  | .vertical => .down

end Axis

/-- The answer for one side. -/
def Sides.at (s : Sides) : Side → Bool
  | .up => s.up
  | .right => s.right
  | .down => s.down
  | .left => s.left

/-- The sides toward which a mark is drawn. -/
def MarkForm.sides : MarkForm → Sides
  | .corner which => which.sides
  | .marker _ connectors => connectors
  | .crossing => ⟨true, true, true, true⟩

/-- The line ends right beyond a side of the cell. -/
def LineRun.EndsBeyond (l : LineRun) (side : Side) (cell : Cell) : Prop :=
  match side with
  | .up => l.axis = .vertical ∧ l.lane = cell.x ∧ l.last = cell.y - 1
  | .right => l.axis = .horizontal ∧ l.lane = cell.y ∧ l.first = cell.x + 1
  | .down => l.axis = .vertical ∧ l.lane = cell.x ∧ l.first = cell.y + 1
  | .left => l.axis = .horizontal ∧ l.lane = cell.y ∧ l.last = cell.x - 1

/-! ## The line beyond a side -/

namespace Reading

/-- A mark is only drawn toward sides on which a line ends. -/
theorem at_of_mem_inks {glyph : Glyph} {s : Sides} {form : MarkForm}
    (h : .mark form ∈ inks glyph s) {side : Side} (hside : form.sides.at side = true) :
    s.at side = true := by
  have hall : ∀ form ∈ formsAt glyph s, ∀ side ∈ Side.all,
      form.sides.at side = true → s.at side = true := by
    obtain ⟨_ | _, _ | _, _ | _, _ | _⟩ := s <;> cases glyph <;> decide
  exact hall form (mark_mem_inks.1 h) side side.mem_all hside

theorem inks_shaftChar (axis : Axis) (s : Sides) :
    inks (Glyph.ofChar axis.shaftChar) s = [.line axis] := by
  cases axis <;> rfl

end Reading

theorem lineSides_at (g : Grid) (cell : Cell) (side : Side) :
    (Reading.lineSides (g.neighbors cell)).at side =
      (g.at? (side.beyond cell) == some side.axis.shaftChar) := by
  cases side <;> rfl

section Line

variable {g : Grid}

/-- No line runs through the cell of a mark. -/
theorem notMem_cells_of_mark {m : Mark} (hm : m ∈ (Scan.ofGrid Reading.ofDiagram g).marks)
    {l : LineRun} (hl : l ∈ (Scan.ofGrid Reading.ofDiagram g).lines) : m.cell ∉ l.cells := by
  have hread := Reading.faithful_ofDiagram
  intro hcell
  obtain ⟨hmark, hmarkInk⟩ := Reading.painted_ofDiagram_iff.1 ((mem_marks_iff hread).1 hm)
  obtain ⟨hline, hlineInk⟩ :=
    Reading.painted_ofDiagram_iff.1 ((whole_of_mem_lines hread hl).paint hcell)
  -- both are read from the one character of the cell
  have hchar : m.paint.char = l.charAt m.cell := Option.some.inj (hmark.symm.trans hline)
  rw [← hchar] at hlineInk
  have hnone : Reading.formsAt (Glyph.ofChar m.paint.char)
      (Reading.lineSides (g.neighbors m.cell)) = [] := Reading.formsAt_of_line_mem_inks hlineInk
  have hform : m.form ∈ Reading.formsAt (Glyph.ofChar m.paint.char)
      (Reading.lineSides (g.neighbors m.cell)) := Reading.mark_mem_inks.1 hmarkInk
  rw [hnone] at hform
  exact List.not_mem_nil hform

/-- Beyond a side toward which a mark is drawn there is a line, and it ends there. -/
theorem exists_line_beyond {m : Mark} (hm : m ∈ (Scan.ofGrid Reading.ofDiagram g).marks)
    {side : Side} (hside : m.form.sides.at side = true) :
    ∃ l ∈ (Scan.ofGrid Reading.ofDiagram g).lines, l.axis = side.axis ∧
      side.beyond m.cell ∈ l.cells ∧ l.EndsBeyond side m.cell := by
  have hread := Reading.faithful_ofDiagram
  obtain ⟨-, hink⟩ := Reading.painted_ofDiagram_iff.1 ((mem_marks_iff hread).1 hm)
  have hend := Reading.at_of_mem_inks hink hside
  rw [lineSides_at, beq_iff_eq] at hend
  have hpaint : Painted Reading.ofDiagram g
      ⟨side.beyond m.cell, .line side.axis, side.axis.shaftChar⟩ := by
    refine Reading.painted_ofDiagram_iff.2 ⟨hend, ?_⟩
    rw [Reading.inks_shaftChar]
    exact List.mem_singleton_self _
  obtain ⟨l, hl, hpl⟩ := exists_line_of_mem_paints ((mem_paints_ofGrid hread).2 hpaint) rfl
  obtain ⟨hcell, hlink, -⟩ := LineRun.mem_paints.1 hpl
  have haxis : l.axis = side.axis := by simpa using hlink.symm
  refine ⟨l, hl, haxis, hcell, ?_⟩
  -- a line that went on past its end would run through the mark
  have hnot := notMem_cells_of_mark hm hl
  rw [LineRun.mem_cells, haxis] at hcell hnot
  cases side <;>
    simp only [Side.axis, Side.beyond, Axis.lane, Axis.position, LineRun.EndsBeyond]
      at haxis hcell hnot ⊢ <;>
    exact ⟨haxis, hcell.1.symm, by omega⟩

end Line

/-! ## Strokes in pixels -/

/-- The point of an ellipse at an angle in degrees, clockwise from the right. -/
noncomputable def arcPoint (centre : Point Rat) (rx ry : Rat) (degrees : Int) : Point ℝ :=
  ⟨centre.x + rx * Real.cos (degrees * (Real.pi / 180)),
    centre.y + ry * Real.sin (degrees * (Real.pi / 180))⟩

/-- A point among the real ones. -/
noncomputable def Number.Point.real (p : Point Rat) : Point ℝ := ⟨p.x, p.y⟩

/-- The two points where a stroke ends, and none for what is no stroke. -/
noncomputable def Shape.ends : Shape Rat → List (Point ℝ)
  | .line a b => [a.real, b.real]
  | .arc centre rx ry start stop => [arcPoint centre rx ry start, arcPoint centre rx ry stop]
  | .curve a _ _ b => [a.real, b.real]
  | _ => []

/-- The middle of the edge of a cell on one side. -/
def CellSize.edge {α : Type} [Scalar α] (s : CellSize α) (cell : Cell) : Side → Point α
  | .up => ⟨s.middleX cell.x, s.top cell.y⟩
  | .right => ⟨s.right cell.x, s.middleY cell.y⟩
  | .down => ⟨s.middleX cell.x, s.bottom cell.y⟩
  | .left => ⟨s.left cell.x, s.middleY cell.y⟩

/-- Where the strokes of a primitive end. -/
noncomputable def Primitive.ends (size : CellSize Rat) (style : Style Rat) (p : Primitive Rat) :
    List (Point ℝ) :=
  (p.shapes size style).flatMap Shape.ends

/-! ### Arcs between the edges -/

section Arcs

variable (c : Point Rat) (rx ry : Rat)

theorem arcPoint_right : arcPoint c rx ry 0 = ⟨c.x + rx, c.y⟩ := by
  simp [arcPoint]

theorem arcPoint_below : arcPoint c rx ry 90 = ⟨c.x, c.y + ry⟩ := by
  have h : (90 : ℝ) * (Real.pi / 180) = Real.pi / 2 := by ring
  simp [arcPoint, h]

theorem arcPoint_left : arcPoint c rx ry 180 = ⟨c.x - rx, c.y⟩ := by
  have h : (180 : ℝ) * (Real.pi / 180) = Real.pi := by ring
  simp [arcPoint, h, sub_eq_add_neg]

theorem arcPoint_above : arcPoint c rx ry 270 = ⟨c.x, c.y - ry⟩ := by
  have h : (270 : ℝ) * (Real.pi / 180) = Real.pi / 2 + Real.pi := by ring
  simp [arcPoint, h, Real.cos_add_pi, Real.sin_add_pi, sub_eq_add_neg]

theorem arcPoint_above' : arcPoint c rx ry (-90) = ⟨c.x, c.y - ry⟩ := by
  have h : (90 : ℝ) * (Real.pi / 180) = Real.pi / 2 := by ring
  simp [arcPoint, h, sub_eq_add_neg]

theorem arcPoint_right' : arcPoint c rx ry 360 = ⟨c.x + rx, c.y⟩ := by
  have h : (360 : ℝ) * (Real.pi / 180) = 2 * Real.pi := by ring
  simp [arcPoint, h]

end Arcs

/-! ### Exact positions -/

section Exact

variable (width height : Rat) (k : Int)

@[simp] theorem halfWidth_of : (CellSize.of width height).halfWidth = width / 2 := rfl

@[simp] theorem halfHeight_of : (CellSize.of width height).halfHeight = height / 2 := rfl

@[simp] theorem left_of : (CellSize.of width height).left k = k * width := rfl

@[simp] theorem right_of : (CellSize.of width height).right k = k * width + width := rfl

@[simp] theorem top_of : (CellSize.of width height).top k = k * height := rfl

@[simp] theorem bottom_of : (CellSize.of width height).bottom k = k * height + height := rfl

@[simp] theorem middleX_of : (CellSize.of width height).middleX k = k * width + width / 2 := rfl

@[simp] theorem middleY_of : (CellSize.of width height).middleY k = k * height + height / 2 := rfl

@[simp] theorem measured_rat : (Scalar.measured k : Rat) = k := rfl

@[simp] theorem whole_rat : (Scalar.whole k : Rat) = k := rfl

end Exact

theorem add_sub_half (a b : ℝ) : a + b - b / 2 = a + b / 2 := by ring

theorem add_half_add_half (a b : ℝ) : a + b / 2 + b / 2 = a + b := by ring

/-! ### Marks and lines -/

section Edges

variable (width height : Rat) (style : Style Rat) (cell : Cell)

/-- Neighbouring cells share an edge. -/
theorem edge_beyond (side : Side) :
    (CellSize.of width height).edge (side.beyond cell) side.opposite =
      (CellSize.of width height).edge cell side := by
  cases side <;> simp [CellSize.edge, Side.beyond, Side.opposite] <;> ring

/-- A rounded corner ends at the edges of its two sides. -/
theorem edge_mem_ends_corner {which : Corner} {side : Side} (hside : which.sides.at side = true) :
    ((CellSize.of width height).edge cell side).real ∈
      (Primitive.roundCorner cell which).ends (.of width height) style := by
  cases which <;> cases side
  all_goals first
    | exact absurd hside (by decide)
    | simp [Primitive.ends, Primitive.shapes, Primitive.bend, Shape.ends, Number.Point.real,
        CellSize.edge, arcPoint_right, arcPoint_below, arcPoint_left, arcPoint_above,
        arcPoint_right', add_sub_half]

/-- A marker has a stub up to the edge of every side it is connected on. -/
theorem edge_mem_ends_marker {symbol : Marker} {connectors : Sides} {side : Side}
    (hside : connectors.at side = true) :
    ((CellSize.of width height).edge cell side).real ∈
      (Primitive.marker cell symbol connectors).ends (.of width height) style := by
  cases side <;> rw [Sides.at] at hside
  all_goals
    simp [Primitive.ends, Primitive.shapes, Primitive.markerShapes, Shape.ends, Number.Point.real,
      CellSize.edge, CellSize.middle, hside, add_half_add_half]

/-- A crossing ends at the edges of all four sides. -/
theorem edge_mem_ends_crossing (side : Side) :
    ((CellSize.of width height).edge cell side).real ∈
      (Primitive.crossing cell).ends (.of width height) style := by
  cases side
  all_goals
    simp [Primitive.ends, Primitive.shapes, Shape.ends, Number.Point.real, CellSize.edge,
      CellSize.middle, arcPoint_below, arcPoint_above', add_half_add_half]

/-- A mark is drawn up to the edges of its sides. -/
theorem Mark.edge_mem_ends (m : Mark) {side : Side} (hside : m.form.sides.at side = true) :
    ((CellSize.of width height).edge m.cell side).real ∈
      m.primitive.ends (.of width height) style := by
  obtain ⟨cell, form⟩ := m
  cases form with
  | corner which => exact edge_mem_ends_corner width height style cell hside
  | marker symbol connectors => exact edge_mem_ends_marker width height style cell hside
  | crossing => exact edge_mem_ends_crossing width height style cell side

/-- A line is drawn from the outer edge of its first cell to that of its last one. -/
theorem LineRun.edges_mem_ends {l : LineRun} (hsolid : l.first ≤ l.last) :
    ((CellSize.of width height).edge (l.axis.cellAt l.lane l.first) l.axis.startSide).real ∈
        l.primitive.ends (.of width height) style ∧
      ((CellSize.of width height).edge (l.axis.cellAt l.lane l.last) l.axis.stopSide).real ∈
        l.primitive.ends (.of width height) style := by
  obtain ⟨axis, lane, first, last, arrow⟩ := l
  dsimp only at hsolid
  -- the shaft is the first of its shapes, the heads come behind it
  constructor <;> cases axis
  all_goals
    refine List.mem_flatMap.2 ⟨_, List.mem_cons_self, ?_⟩
    simp [Shape.ends, Number.Point.real, CellSize.edge, Axis.cellAt, Axis.startSide, Axis.stopSide,
      min_eq_left hsolid, max_eq_right hsolid]

/-- A line that ends beyond a side is drawn up to the edge on that side. -/
theorem LineRun.edge_mem_ends {l : LineRun} (hsolid : l.first ≤ l.last) {side : Side}
    (hends : l.EndsBeyond side cell) :
    ((CellSize.of width height).edge cell side).real ∈
      l.primitive.ends (.of width height) style := by
  have hedges := LineRun.edges_mem_ends width height style hsolid
  rw [← edge_beyond]
  obtain ⟨axis, lane, first, last, arrow⟩ := l
  cases side
  all_goals obtain ⟨rfl, rfl, rfl⟩ := hends
  case up | left => exact hedges.2
  case right | down => exact hedges.1

end Edges

/-! ## The joints of a diagram -/

/-- Marks and lines join without gaps: beyond every side toward which a mark is drawn there is
exactly one line along that axis, it ends right there, and at every cell size the strokes of both
end in the middle of the edge between the two cells. -/
theorem scan_joins (text : List Char) (m : Mark) (hm : m ∈ (Scan.ofDiagram text).marks)
    (side : Side) (hside : m.form.sides.at side = true) :
    ∃ (i : Nat) (l : LineRun), (Scan.ofDiagram text).lines[i]? = some l ∧ l.EndsBeyond side m.cell ∧
      (∀ (j : Nat) (k : LineRun), (Scan.ofDiagram text).lines[j]? = some k → k.axis = side.axis →
        side.beyond m.cell ∈ k.cells → j = i) ∧
      ∀ (width height : Rat) (style : Style Rat),
        ((CellSize.of width height).edge m.cell side).real ∈
            m.primitive.ends (.of width height) style ∧
          ((CellSize.of width height).edge m.cell side).real ∈
            l.primitive.ends (.of width height) style := by
  have hread := Reading.faithful_ofDiagram
  obtain ⟨l, hl, haxis, hcell, hends⟩ := exists_line_beyond hm hside
  obtain ⟨i, hi⟩ := Array.getElem?_of_mem hl
  have hwhole := whole_of_mem_lines hread hl
  refine ⟨i, l, hi, hends, fun j k hj hkaxis hkcell => ?_, fun width height style => ?_⟩
  · have hk := whole_of_mem_lines hread (Array.mem_of_getElem? hj)
    obtain rfl : k = l := hk.eq_of_mem (singleChar_painted hread) hwhole (hkaxis.trans haxis.symm)
      hkcell hcell
    have hnodup := (nodup_findings (g := .ofText text) hread).2.2
    rw [← Array.getElem?_toList] at hi hj
    exact List.getElem?_inj (List.getElem?_eq_some_iff.1 hj).1 hnodup |>.1
      (hj.trans hi.symm)
  · exact ⟨m.edge_mem_ends width height style hside,
      LineRun.edge_mem_ends width height style m.cell hwhole.solid.1 hends⟩

/-- A backslash that joins two pairs of lines, one of them with a head right at the corner. -/
def doubleCorner : List Char := "  |\n<-\\->\n  |\n  V".toList

theorem scan_doubleCorner_joins :
    ⟨⟨2, 1⟩, .corner .topRight⟩ ∈ (Scan.ofDiagram doubleCorner).marks ∧
      (MarkForm.corner .topRight).sides.at .left = true ∧
      ∃ (i : Nat) (l : LineRun), (Scan.ofDiagram doubleCorner).lines[i]? = some l ∧
        l.EndsBeyond .left ⟨2, 1⟩ := by
  have hmark : ⟨⟨2, 1⟩, .corner .topRight⟩ ∈ (Scan.ofDiagram doubleCorner).marks := by
    decide +kernel
  have hside : (MarkForm.corner .topRight).sides.at .left = true := rfl
  obtain ⟨i, l, hi, hends, -, -⟩ :=
    scan_joins doubleCorner ⟨⟨2, 1⟩, .corner .topRight⟩ hmark .left hside
  exact ⟨hmark, hside, i, l, hi, hends⟩

end CellSketch
