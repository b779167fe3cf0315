import Mathlib.Data.List.Perm.Basic
import CellSketch.Proofs.Scan.Findings

/-!
# SideBySide — separate drawings are scanned separately

Two drawings that stand in one grid without touching each other are found there as they are found
alone, wherever they stand and however their rows and columns run through each other.

* `InkOnly` — a reading does not depend on the blanks around a cell;
* `painted_iff` — a grid of two drawings is painted as its drawings are;
* `LineRun.whole_or_iff`, `TextRun.whole_or_iff` — no item reaches from one drawing into the other;
* `scan_sideBySide` — marks, texts and lines of both are found, moved to where they stand.
-/

namespace CellSketch

/-! ## Moving -/

namespace Cell

/-- The cell moved as the origin moves to another cell. -/
def move (cell way : Cell) : Cell := ⟨cell.x + way.x, cell.y + way.y⟩

/-- The way back. -/
def opposite (way : Cell) : Cell := ⟨-way.x, -way.y⟩

/-- One of the four cells next to a cell. -/
def Beside (a b : Cell) : Prop :=
  (a.x = b.x ∧ (a.y = b.y + 1 ∨ b.y = a.y + 1)) ∨ (a.y = b.y ∧ (a.x = b.x + 1 ∨ b.x = a.x + 1))

instance (a b : Cell) : Decidable (a.Beside b) := by unfold Beside; infer_instance

theorem Beside.symm {a b : Cell} (h : a.Beside b) : b.Beside a := by
  unfold Beside at *
  omega

@[simp] theorem opposite_opposite (way : Cell) : way.opposite.opposite = way := by
  simp [opposite]

@[simp] theorem move_opposite (cell way : Cell) : (cell.move way).move way.opposite = cell := by
  cases cell
  simp only [move, opposite, mk.injEq]
  omega

@[simp] theorem opposite_move (cell way : Cell) : (cell.move way.opposite).move way = cell := by
  cases cell
  simp only [move, opposite, mk.injEq]
  omega

end Cell

def Mark.move (m : Mark) (way : Cell) : Mark := { m with cell := m.cell.move way }

def TextRun.move (t : TextRun) (way : Cell) : TextRun := { t with cell := t.cell.move way }

def LineRun.move (l : LineRun) (way : Cell) : LineRun :=
  { l with
    lane := l.lane + l.axis.lane way
    first := l.first + l.axis.position way
    last := l.last + l.axis.position way }

def Paint.move (p : Paint) (way : Cell) : Paint := { p with cell := p.cell.move way }

@[simp] theorem Mark.move_opposite (m : Mark) (way : Cell) :
    (m.move way).move way.opposite = m := by
  simp [Mark.move]

@[simp] theorem TextRun.move_opposite (t : TextRun) (way : Cell) :
    (t.move way).move way.opposite = t := by
  simp [TextRun.move]

@[simp] theorem Paint.opposite_move (p : Paint) (way : Cell) :
    (p.move way.opposite).move way = p := by
  simp [Paint.move]

@[simp] theorem Paint.move_opposite (p : Paint) (way : Cell) :
    (p.move way).move way.opposite = p := by
  simp [Paint.move]

@[simp] theorem LineRun.move_opposite (l : LineRun) (way : Cell) :
    (l.move way).move way.opposite = l := by
  obtain ⟨axis, lane, first, last, arrow⟩ := l
  rw [LineRun.move, LineRun.move, LineRun.mk.injEq]
  cases axis
  all_goals
    simp only [Cell.opposite, Axis.lane, Axis.position, true_and, and_true]
    omega

namespace Axis

theorem position_move (axis : Axis) (cell way : Cell) :
    axis.position (cell.move way) = axis.position cell + axis.position way := by
  cases axis <;> rfl

theorem cellAt_move (axis : Axis) (lane position : Int) (way : Cell) :
    (axis.cellAt lane position).move way =
      axis.cellAt (lane + axis.lane way) (position + axis.position way) := by
  cases axis <;> rfl

theorem cellAt_beside (axis : Axis) (lane position : Int) :
    (axis.cellAt lane position).Beside (axis.cellAt lane (position + 1)) := by
  cases axis <;> simp [cellAt, Cell.Beside]

end Axis

/-! ## What moved items paint -/

theorem TextRun.paints_move (t : TextRun) (way : Cell) :
    (t.move way).paints = t.paints.map (·.move way) := by
  rw [paints, paints, List.map_map]
  refine List.map_congr_left fun entry _ => ?_
  simp only [Function.comp, Paint.move, Cell.move, TextRun.move, Paint.mk.injEq, Cell.mk.injEq,
    and_true]
  omega

theorem LineRun.paints_move (l : LineRun) (way : Cell) :
    (l.move way).paints = l.paints.map (·.move way) := by
  have hcount : (l.move way).last + 1 - (l.move way).first = l.last + 1 - l.first := by
    simp only [LineRun.move]
    omega
  have hcells : (l.move way).cells = l.cells.map (·.move way) := by
    rw [cells, cells, List.map_map, hcount]
    refine List.map_congr_left fun i _ => ?_
    rw [Function.comp, Axis.cellAt_move]
    simp only [LineRun.move]
    congr 1
    omega
  rw [paints, paints, hcells, List.map_map, List.map_map]
  refine List.map_congr_left fun cell _ => ?_
  simp [charAt, LineRun.move, Paint.move, Axis.position_move]

/-! ## Readings and blanks -/

/-- The same characters around two cells, blanks apart. -/
def Neighbors.Agree (n n' : Neighbors) : Prop := ∀ d, Text.isBlank d = false →
  (n.up = some d ↔ n'.up = some d) ∧ (n.right = some d ↔ n'.right = some d) ∧
    (n.down = some d ↔ n'.down = some d) ∧ (n.left = some d ↔ n'.left = some d)

/-- What is painted for a reading. -/
def Reading.paints (cell : Cell) (c : Char) : Reading → List Paint
  | .nothing => []
  | .marks forms => forms.map fun form => ⟨cell, .mark form, form.char⟩
  | .line glyph _ => [⟨cell, .line glyph.axis, glyph.lineChar⟩]
  | .text => [⟨cell, .text, c⟩]

theorem contribution_eq (read : Char → Neighbors → Reading) (g : Grid) (entry : Cell × Char) :
    contribution read g entry = (read entry.2 (g.neighbors entry.1)).paints entry.1 entry.2 := rfl

theorem Reading.paints_move (r : Reading) (cell way : Cell) (c : Char) :
    r.paints (cell.move way) c = (r.paints cell c).map (·.move way) := by
  cases r <;> simp [paints, Paint.move]

/-- A reading that does not depend on the blanks around a cell. -/
def InkOnly (read : Char → Neighbors → Reading) : Prop := ∀ c n n' cell, n.Agree n' →
  (read c n).paints cell c = (read c n').paints cell c

namespace Reading

theorem corners_congr {n n' : Neighbors} (h : n.Agree n') (glyph : Glyph) :
    corners glyph n = corners glyph n' := by
  obtain ⟨hup, -, hdown, -⟩ := h '|' (by decide)
  obtain ⟨-, hright, -, hleft⟩ := h '-' (by decide)
  simp only [corners, hup, hright, hdown, hleft]

theorem lineSides_congr {n n' : Neighbors} (h : n.Agree n') : lineSides n = lineSides n' := by
  obtain ⟨hup, -, hdown, -⟩ := h '|' (by decide)
  obtain ⟨-, hright, -, hleft⟩ := h '-' (by decide)
  simp only [lineSides, Sides.mk.injEq]
  refine ⟨?_, ?_, ?_, ?_⟩ <;> rw [Bool.eq_iff_iff, beq_iff_eq, beq_iff_eq] <;> assumption

theorem isSome_lineBefore?_congr {n n' : Neighbors} (h : n.Agree n') (glyph : Glyph) :
    (lineBefore? glyph n).isSome = (lineBefore? glyph n').isSome := by
  obtain ⟨hup, -, hdown, -⟩ := h '|' (by decide)
  obtain ⟨-, hright, -, hleft⟩ := h '-' (by decide)
  cases glyph <;> simp only [lineBefore?, hup, hright, hdown, hleft] <;> first | rfl | split <;> rfl

/-- What comes before a part of a line is not painted with it. -/
theorem paints_line_congr (glyph : Glyph) (cell : Cell) (c : Char) (x y : Option (Option Char)) :
    x.isSome = y.isSome →
      paints cell c (match x with | some before => .line glyph before | none => .text) =
        paints cell c (match y with | some before => .line glyph before | none => .text) := by
  intro h
  cases x <;> cases y
  · rfl
  · cases h
  · cases h
  · rfl

/-- A diagram is read by its ink only. -/
theorem inkOnly_ofDiagram : InkOnly ofDiagram := by
  intro c n n' cell h
  unfold ofDiagram
  -- the glyph is the same on both sides, whichever it is
  generalize Glyph.ofChar c = glyph
  dsimp only
  rw [corners_congr h, lineSides_congr h]
  split
  · rfl
  · rfl
  · split <;> rfl
  · split <;> rfl
  · exact paints_line_congr _ cell c _ _ (isSome_lineBefore?_congr h _)

/-- So is a tree. -/
theorem inkOnly_ofTree : InkOnly ofTree := by
  intro c n n' cell h
  have hbeq {x y : Option Char} {d : Char} (hxy : x = some d ↔ y = some d) :
      (x == some d) = (y == some d) := by
    rw [Bool.eq_iff_iff, beq_iff_eq, beq_iff_eq]
    exact hxy
  obtain ⟨hup, -, hdown, -⟩ := h '|' (by decide)
  obtain ⟨hup', -, hdown', hleft'⟩ := h '+' (by decide)
  obtain ⟨-, hright, -, hleft⟩ := h '-' (by decide)
  obtain ⟨-, hright', -, -⟩ := h '>' (by decide)
  -- the parts of lines differ in what comes before them, which is not painted
  simp only [ofTree, apply_ite (paints cell c)]
  simp only [paints]
  simp only [List.any_cons, List.any_nil, hbeq hup, hbeq hup', hbeq hdown, hbeq hdown',
    hbeq hleft, hbeq hleft', hbeq hright, hbeq hright']
  -- the same conditions are decided in two ways
  congr

end Reading

/-! ## Two drawings in one grid -/

/-- The cells of a grid that are not blank, in order. -/
def Grid.inked (g : Grid) : List (Cell × Char) := g.cells.filter fun entry => !Text.isBlank entry.2

/-- A cell with its character, moved. -/
def shifted (way : Cell) (entry : Cell × Char) : Cell × Char := (entry.1.move way, entry.2)

/-- A grid that shows two drawings, each moved by its way, and nothing else; no cell of one lies
next to a cell of the other.  The drawings may be the parts of one that was taken apart. -/
structure Grid.SideBySide (whole first : Grid) (way₁ : Cell) (second : Grid) (way₂ : Cell) :
    Prop where
  inked : whole.inked.Perm (first.inked.map (shifted way₁) ++ second.inked.map (shifted way₂))
  apart : ∀ a ∈ first.inked, ∀ b ∈ second.inked, ¬ (a.1.move way₁).Beside (b.1.move way₂)

namespace Grid

variable {g : Grid} {cell : Cell} {c : Char}

theorem mem_inked : (cell, c) ∈ g.inked ↔ g.at? cell = some c ∧ Text.isBlank c = false := by
  rw [inked, List.mem_filter, mem_cells, Bool.not_eq_true']

theorem nodup_inked (g : Grid) : g.inked.Nodup := by
  refine (g.pairwise_cells.imp fun {a b} hbefore => ?_).filter _
  rintro rfl
  exact hbefore.asymm hbefore

/-- A drawing that a grid shows, moved, with nothing next to it that is not part of it. -/
structure Shows (whole part : Grid) (way : Cell) : Prop where
  shown : ∀ cell c, (cell, c) ∈ part.inked → (cell.move way, c) ∈ whole.inked
  alone : ∀ cell c cell' c', (cell, c) ∈ part.inked → (cell'.move way, c') ∈ whole.inked →
    cell.Beside cell' → (cell', c') ∈ part.inked

namespace SideBySide

variable {whole first second : Grid} {way₁ way₂ : Cell}

theorem mem_inked (S : whole.SideBySide first way₁ second way₂) :
    (cell, c) ∈ whole.inked ↔ (cell.move way₁.opposite, c) ∈ first.inked ∨
      (cell.move way₂.opposite, c) ∈ second.inked := by
  have hmem (part : Grid) (way : Cell) :
      (cell, c) ∈ part.inked.map (shifted way) ↔ (cell.move way.opposite, c) ∈ part.inked := by
    rw [List.mem_map]
    constructor
    · rintro ⟨⟨cell', c'⟩, hentry, heq⟩
      simp only [shifted, Prod.mk.injEq] at heq
      obtain ⟨rfl, rfl⟩ := heq
      rwa [Cell.move_opposite]
    · exact fun hentry => ⟨_, hentry, by rw [shifted, Cell.opposite_move]⟩
  rw [S.inked.mem_iff, List.mem_append, hmem, hmem]

theorem symm (S : whole.SideBySide first way₁ second way₂) :
    whole.SideBySide second way₂ first way₁ where
  inked := S.inked.trans List.perm_append_comm
  apart a ha b hb hbeside := S.apart b hb a ha hbeside.symm

/-- No cell belongs to both drawings. -/
theorem disjoint (S : whole.SideBySide first way₁ second way₂) {c' : Char}
    (h₁ : (cell.move way₁.opposite, c) ∈ first.inked)
    (h₂ : (cell.move way₂.opposite, c') ∈ second.inked) : False := by
  have hwhole₁ := Grid.mem_inked.1 (S.mem_inked.2 (Or.inl h₁))
  have hwhole₂ := Grid.mem_inked.1 (S.mem_inked.2 (Or.inr h₂))
  obtain rfl : c = c' := Option.some.inj (hwhole₁.1.symm.trans hwhole₂.1)
  -- the cell would be listed twice
  have hnodup := S.inked.nodup_iff.1 whole.nodup_inked
  refine (List.nodup_append'.1 hnodup).2.2 (List.mem_map_of_mem h₁) ?_
  rw [shifted, Cell.opposite_move]
  exact List.mem_map.2 ⟨_, h₂, by rw [shifted, Cell.opposite_move]⟩

theorem shows (S : whole.SideBySide first way₁ second way₂) : whole.Shows first way₁ where
  shown cell c hmem := S.mem_inked.2 (Or.inl (by rwa [Cell.move_opposite]))
  alone cell c cell' c' hmem hmem' hbeside := by
    rcases S.mem_inked.1 hmem' with hfirst | hsecond
    · rwa [Cell.move_opposite] at hfirst
    · refine absurd ?_ (S.apart _ hmem _ hsecond)
      rw [Cell.opposite_move]
      unfold Cell.Beside Cell.move at *
      dsimp only
      omega

end SideBySide

/-- Around a cell of a drawing the grid shows what the drawing shows. -/
theorem Shows.agree {whole part : Grid} {way : Cell} (S : whole.Shows part way)
    (hmem : (cell, c) ∈ part.inked) :
    (whole.neighbors (cell.move way)).Agree (part.neighbors cell) := by
  intro d hd
  have hside {x y x' y' : Int} (hx : x' = x + way.x) (hy : y' = y + way.y)
      (hbeside : cell.Beside ⟨x, y⟩) : whole.at? ⟨x', y'⟩ = some d ↔ part.at? ⟨x, y⟩ = some d := by
    rw [hx, hy]
    constructor
    · intro hat
      exact (mem_inked.1 (S.alone _ _ ⟨x, y⟩ _ hmem (mem_inked.2 ⟨hat, hd⟩) hbeside)).1
    · intro hat
      exact (mem_inked.1 (S.shown _ _ (mem_inked.2 ⟨hat, hd⟩))).1
  refine ⟨hside rfl (Int.add_right_comm _ _ (-1)) ?_, hside (Int.add_right_comm ..) rfl ?_,
    hside rfl (Int.add_right_comm ..) ?_, hside (Int.add_right_comm _ _ (-1)) rfl ?_⟩
  all_goals
    unfold Cell.Beside
    dsimp only
    omega

theorem Shows.contribution_eq {read : Char → Neighbors → Reading} (hink : InkOnly read)
    {whole part : Grid} {way : Cell} (S : whole.Shows part way) (hmem : (cell, c) ∈ part.inked) :
    contribution read whole (cell.move way, c) =
      (contribution read part (cell, c)).map (·.move way) := by
  rw [CellSketch.contribution_eq, CellSketch.contribution_eq, ← Reading.paints_move]
  exact hink _ _ _ _ (S.agree hmem)

end Grid

/-! ## What is painted -/

section Painted

variable {read : Char → Neighbors → Reading} {whole first second : Grid} {way₁ way₂ : Cell}

theorem painted_of_inked {g : Grid} {p : Paint} {c : Char} (hmem : (p.cell, c) ∈ g.inked)
    (hp : p ∈ contribution read g (p.cell, c)) : Painted read g p :=
  ⟨c, (Grid.mem_inked.1 hmem).1, hp⟩

theorem Painted.exists_inked (hread : Faithful read) {g : Grid} {p : Paint} (h : Painted read g p) :
    ∃ c, (p.cell, c) ∈ g.inked ∧ p ∈ contribution read g (p.cell, c) := by
  obtain ⟨c, hat, hp⟩ := h
  exact ⟨c, Grid.mem_inked.2 ⟨hat, (hread.of_mem_contribution hp).2⟩, hp⟩

/-- A drawing is painted in a grid that shows it as it is painted alone. -/
theorem Grid.Shows.painted_iff (hread : Faithful read) (hink : InkOnly read) {part : Grid}
    {way : Cell} (S : whole.Shows part way) {p : Paint} :
    Painted read part (p.move way.opposite) ↔
      Painted read whole p ∧ ∃ c, (p.cell.move way.opposite, c) ∈ part.inked := by
  constructor
  · intro hp
    obtain ⟨c, hmem, hpaint⟩ := hp.exists_inked hread
    have hshown := S.shown _ _ hmem
    have hmoved := List.mem_map_of_mem (f := (·.move way)) hpaint
    rw [← S.contribution_eq hink hmem, Paint.opposite_move] at hmoved
    simp only [Paint.move, Cell.opposite_move] at hmoved hshown
    exact ⟨painted_of_inked hshown hmoved, c, hmem⟩
  · rintro ⟨hp, c, hmem⟩
    obtain ⟨c', hinked, hpaint⟩ := hp.exists_inked hread
    have hshown := S.shown _ _ hmem
    rw [Cell.opposite_move] at hshown
    obtain rfl : c = c' :=
      Option.some.inj ((Grid.mem_inked.1 hshown).1.symm.trans (Grid.mem_inked.1 hinked).1)
    have hmoved := S.contribution_eq hink hmem
    rw [Cell.opposite_move] at hmoved
    rw [hmoved] at hpaint
    obtain ⟨q, hq, rfl⟩ := List.mem_map.1 hpaint
    rw [Paint.move_opposite]
    simp only [Paint.move, Cell.move_opposite] at hmem hq
    exact painted_of_inked hmem hq

/-- Two drawings in one grid are painted as they are painted alone. -/
theorem Grid.SideBySide.painted_iff (hread : Faithful read) (hink : InkOnly read)
    (S : whole.SideBySide first way₁ second way₂) {p : Paint} :
    Painted read whole p ↔
      Painted read first (p.move way₁.opposite) ∨ Painted read second (p.move way₂.opposite) := by
  rw [S.shows.painted_iff hread hink, S.symm.shows.painted_iff hread hink, ← and_or_left]
  refine (and_iff_left_of_imp fun hp => ?_).symm
  obtain ⟨c, hmem, -⟩ := hp.exists_inked hread
  exact (S.mem_inked.1 hmem).imp (fun h => ⟨c, h⟩) (fun h => ⟨c, h⟩)

end Painted

/-! ## Items of separate drawings -/

/-- Paints of which none share a cell or lie next to each other. -/
def Separate (P Q : Paint → Prop) : Prop :=
  ∀ p q, P p → Q q → p.cell ≠ q.cell ∧ ¬ p.cell.Beside q.cell

theorem Grid.SideBySide.separate {read : Char → Neighbors → Reading} (hread : Faithful read)
    {whole first second : Grid} {way₁ way₂ : Cell} (S : whole.SideBySide first way₁ second way₂) :
    Separate (fun p => Painted read first (p.move way₁.opposite))
      (fun p => Painted read second (p.move way₂.opposite)) := by
  intro p q hp hq
  obtain ⟨c, hmem, -⟩ := hp.exists_inked hread
  obtain ⟨c', hmem', -⟩ := hq.exists_inked hread
  refine ⟨fun hcell => S.disjoint hmem (by rw [hcell]; exact hmem'), fun hbeside => ?_⟩
  refine S.apart _ hmem _ hmem' ?_
  simpa only [Paint.move, Cell.opposite_move] using hbeside

namespace Separate

variable {P Q : Paint → Prop}

theorem symm (h : Separate P Q) : Separate Q P :=
  fun p q hp hq => ⟨(h q p hq hp).1.symm, fun hbeside => (h q p hq hp).2 hbeside.symm⟩

/-- Cells in a row that belong to two drawings belong to the drawing of the first of them. -/
theorem stays (h : Separate P Q) (axis : Axis) {lane first last : Int}
    (hall : ∀ k, first ≤ k → k ≤ last → ∃ p, (P p ∨ Q p) ∧ p.cell = axis.cellAt lane k)
    (hstart : ∃ p, P p ∧ p.cell = axis.cellAt lane first) (k : Int) (hfirst : first ≤ k)
    (hlast : k ≤ last) : ∃ p, P p ∧ p.cell = axis.cellAt lane k := by
  obtain ⟨n, rfl⟩ := Int.le.dest hfirst
  induction n with
  | zero => simpa using hstart
  | succ n ih =>
    obtain ⟨p, hp, hcell⟩ := ih (by omega) (by omega)
    obtain ⟨q, hq | hq, hcell'⟩ := hall _ hfirst hlast
    · exact ⟨q, hq, hcell'⟩
    · refine absurd ?_ (h p q hp hq).2
      rw [hcell, hcell', show first + ((n + 1 : Nat) : Int) = first + n + 1 by omega]
      exact axis.cellAt_beside lane _

/-- Nothing of the other drawing lies next to a painted cell. -/
theorem not_next (h : Separate P Q) (axis : Axis) {lane k : Int} {p q : Paint} (hp : P p)
    (hcell : p.cell = axis.cellAt lane k) (hq : Q q) (hlane : axis.lane q.cell = lane) :
    axis.position q.cell ≠ k + 1 ∧ axis.position q.cell ≠ k - 1 := by
  have hfar := (h p q hp hq).2
  rw [hcell, ← Axis.cellAt_lane_position axis q.cell, hlane] at hfar
  refine ⟨fun heq => hfar ?_, fun heq => hfar ?_⟩
  · rw [heq]
    exact axis.cellAt_beside lane k
  · rw [heq]
    have hbeside := axis.cellAt_beside lane (k - 1)
    rw [Int.sub_add_cancel] at hbeside
    exact hbeside.symm

/-- A paint in a cell of one drawing is a paint of that drawing. -/
theorem left_of_cell (h : Separate P Q) {p q : Paint} (hp : P p ∨ Q p) (hq : P q)
    (hcell : q.cell = p.cell) : P p :=
  hp.resolve_right fun hother => (h q p hq hother).1 hcell

end Separate

section Whole

variable {P Q : Paint → Prop}

theorem LineRun.Whole.or (h : Separate P Q) {l : LineRun} (hl : l.Whole P) :
    l.Whole (fun p => P p ∨ Q p) where
  solid := hl.solid
  painted p hp := Or.inl (hl.painted p hp)
  start p hp hink hlane hposition := by
    refine hp.elim (fun hp => hl.start p hp hink hlane hposition) fun hp => ?_
    have hfirst := hl.paint (cellAt_mem_cells.2 ⟨le_refl l.first, hl.solid.1⟩)
    exact absurd hposition (h.not_next l.axis hfirst rfl hp hlane).2
  stop p hp hink hlane hposition := by
    refine hp.elim (fun hp => hl.stop p hp hink hlane hposition) fun hp => ?_
    have hlast := hl.paint (cellAt_mem_cells.2 ⟨hl.solid.1, le_refl l.last⟩)
    exact absurd hposition (h.not_next l.axis hlast rfl hp hlane).1

theorem LineRun.Whole.of_first (h : Separate P Q) {l : LineRun}
    (hl : l.Whole (fun p => P p ∨ Q p))
    (hfirst : ∃ p, P p ∧ p.cell = l.axis.cellAt l.lane l.first) : l.Whole P where
  solid := hl.solid
  painted p hp := by
    obtain ⟨hcell, -, -⟩ := mem_paints.1 hp
    have hbounds := mem_cells.1 hcell
    obtain ⟨q, hq, hqcell⟩ := h.stays l.axis
      (fun k hk hk' => ⟨_, hl.paint (cellAt_mem_cells.2 ⟨hk, hk'⟩), rfl⟩) hfirst _ hbounds.2.1
      hbounds.2.2
    rw [← hbounds.1, Axis.cellAt_lane_position] at hqcell
    exact h.left_of_cell (hl.painted p hp) hq hqcell
  start p hp := hl.start p (Or.inl hp)
  stop p hp := hl.stop p (Or.inl hp)

/-- No line reaches from one drawing into the other. -/
theorem LineRun.whole_or_iff (h : Separate P Q) {l : LineRun} :
    l.Whole (fun p => P p ∨ Q p) ↔ l.Whole P ∨ l.Whole Q := by
  constructor
  · intro hl
    rcases hl.paint (cellAt_mem_cells.2 ⟨le_refl l.first, hl.solid.1⟩) with hp | hq
    · exact Or.inl (hl.of_first h ⟨_, hp, rfl⟩)
    · simp only [or_comm (a := P _)] at hl
      exact Or.inr (hl.of_first h.symm ⟨_, hq, rfl⟩)
  · rintro (hl | hl)
    · exact hl.or h
    · simp only [or_comm (a := P _)]
      exact hl.or h.symm

theorem TextRun.Whole.or (h : Separate P Q) {t : TextRun} (ht : t.Whole P) :
    t.Whole (fun p => P p ∨ Q p) where
  written := ht.written
  painted p hp := Or.inl (ht.painted p hp)
  ends p hp hink hrow := by
    refine hp.elim (fun hp => ht.ends p hp hink hrow) fun hp => ?_
    have hlength := List.length_pos_iff.2 ht.written
    obtain ⟨c, hfirst, -⟩ := ht.exists_paint (le_refl t.cell.x) (by rw [stop]; omega)
    obtain ⟨d, hlast, -⟩ := ht.exists_paint (x := t.stop - 1) (by rw [stop]; omega) (by omega)
    have hbefore := (h.not_next .horizontal hfirst rfl hp hrow).2
    have hbehind := (h.not_next .horizontal hlast rfl hp hrow).1
    rw [Int.sub_add_cancel] at hbehind
    exact ⟨hbefore, hbehind⟩

theorem TextRun.Whole.of_first (h : Separate P Q) {t : TextRun}
    (ht : t.Whole (fun p => P p ∨ Q p)) (hfirst : ∃ p, P p ∧ p.cell = t.cell) : t.Whole P where
  written := ht.written
  painted p hp := by
    obtain ⟨i, c, hc, rfl⟩ := mem_paints.1 hp
    have hi := (List.getElem?_eq_some_iff.1 hc).1
    have hall (k : Int) (hk : t.cell.x ≤ k) (hk' : k ≤ t.stop - 1) :
        ∃ p, (P p ∨ Q p) ∧ p.cell = Axis.horizontal.cellAt t.cell.y k := by
      obtain ⟨d, hd, -⟩ := ht.exists_paint hk (by omega)
      exact ⟨_, hd, rfl⟩
    obtain ⟨q, hq, hqcell⟩ :=
      h.stays .horizontal hall hfirst (t.cell.x + i) (by omega) (by rw [stop]; omega)
    exact h.left_of_cell (ht.painted _ hp) hq hqcell
  ends p hp := ht.ends p (Or.inl hp)

/-- No text reaches from one drawing into the other. -/
theorem TextRun.whole_or_iff (h : Separate P Q) {t : TextRun} :
    t.Whole (fun p => P p ∨ Q p) ↔ t.Whole P ∨ t.Whole Q := by
  constructor
  · intro ht
    have hlength := List.length_pos_iff.2 ht.written
    obtain ⟨c, hp | hq, -⟩ := ht.exists_paint (le_refl t.cell.x) (by rw [stop]; omega)
    · exact Or.inl (ht.of_first h ⟨_, hp, rfl⟩)
    · simp only [or_comm (a := P _)] at ht
      exact Or.inr (ht.of_first h.symm ⟨_, hq, rfl⟩)
  · rintro (ht | ht)
    · exact ht.or h
    · simp only [or_comm (a := P _)]
      exact ht.or h.symm

/-! ## Moved items -/

theorem LineRun.Whole.move {l : LineRun} {way : Cell} (hl : l.Whole fun p => P (p.move way)) :
    (l.move way).Whole P := by
  have hlane (cell : Cell) : l.axis.lane (cell.move way.opposite) =
      l.axis.lane cell - l.axis.lane way := by
    cases l.axis <;> rfl
  have hposition (cell : Cell) : l.axis.position (cell.move way.opposite) =
      l.axis.position cell - l.axis.position way := by
    cases l.axis <;> rfl
  constructor
  case solid => exact hl.solid.imp (by simp [LineRun.move]) (by simp [LineRun.move])
  case painted =>
    intro p hp
    rw [LineRun.paints_move] at hp
    obtain ⟨q, hq, rfl⟩ := List.mem_map.1 hp
    exact hl.painted q hq
  all_goals
    intro p hp hink hplane hpposition
    simp only [LineRun.move] at hink hplane hpposition ⊢
    have hback : P ((p.move way.opposite).move way) := by rwa [Paint.opposite_move]
    have hplane' : l.axis.lane (p.move way.opposite).cell = l.lane := by
      rw [Paint.move, hlane]
      omega
  case start =>
    refine hl.start (p.move way.opposite) hback hink hplane' ?_
    rw [Paint.move, hposition]
    omega
  case stop =>
    refine hl.stop (p.move way.opposite) hback hink hplane' ?_
    rw [Paint.move, hposition]
    omega

theorem LineRun.whole_move {l : LineRun} {way : Cell} :
    (l.move way).Whole P ↔ l.Whole fun p => P (p.move way) := by
  refine ⟨fun hl => ?_, Whole.move⟩
  rw [← l.move_opposite way]
  exact Whole.move (by simpa only [Paint.opposite_move] using hl)

theorem TextRun.Whole.move {t : TextRun} {way : Cell} (ht : t.Whole fun p => P (p.move way)) :
    (t.move way).Whole P := by
  refine ⟨ht.written, fun p hp => ?_, fun p hp hink hrow => ?_⟩
  · rw [TextRun.paints_move] at hp
    obtain ⟨q, hq, rfl⟩ := List.mem_map.1 hp
    exact ht.painted q hq
  · have hends := ht.ends (p.move way.opposite) (by rwa [Paint.opposite_move]) hink
    simp only [TextRun.move, TextRun.stop, Paint.move, Cell.move, Cell.opposite] at hrow hends ⊢
    have hfar := hends (by omega)
    omega

theorem TextRun.whole_move {t : TextRun} {way : Cell} :
    (t.move way).Whole P ↔ t.Whole fun p => P (p.move way) := by
  refine ⟨fun ht => ?_, Whole.move⟩
  rw [← t.move_opposite way]
  exact Whole.move (by simpa only [Paint.opposite_move] using ht)

end Whole

/-! ## The scan -/

/-- Two lists side by side, each moved, hold what a third one holds. -/
theorem perm_moved_append {α : Type} {whole first second : List α} {move : α → Cell → α}
    (hmove : ∀ a way, move (move a way) way.opposite = a) (hwhole : whole.Nodup)
    (hfirst : first.Nodup) (hsecond : second.Nodup) {way₁ way₂ : Cell}
    (hmem : ∀ a, a ∈ whole ↔ move a way₁.opposite ∈ first ∨ move a way₂.opposite ∈ second)
    (hdisjoint : ∀ a, move a way₁.opposite ∈ first → move a way₂.opposite ∉ second) :
    whole.Perm (first.map (move · way₁) ++ second.map (move · way₂)) := by
  have hmap (way : Cell) {l : List α} (a : α) :
      a ∈ l.map (move · way) ↔ move a way.opposite ∈ l := by
    rw [List.mem_map]
    constructor
    · rintro ⟨b, hb, rfl⟩
      rwa [hmove]
    · intro ha
      have hback := hmove a way.opposite
      rw [Cell.opposite_opposite] at hback
      exact ⟨_, ha, hback⟩
  have hinjective (way : Cell) : Function.Injective (move · way) :=
    Function.LeftInverse.injective (g := (move · way.opposite)) fun a => hmove a way
  have hnodup : (first.map (move · way₁) ++ second.map (move · way₂)).Nodup := by
    refine List.nodup_append'.2 ⟨hfirst.map (hinjective way₁), hsecond.map (hinjective way₂), ?_⟩
    exact fun a ha hb => hdisjoint a ((hmap way₁ a).1 ha) ((hmap way₂ a).1 hb)
  refine (List.perm_ext_iff_of_nodup hwhole hnodup).2 fun a => ?_
  rw [hmem, List.mem_append, hmap, hmap]

/-- Two drawings in one text that do not touch are scanned as each of them is scanned alone: the
same marks, texts and lines, moved to where the drawings stand. -/
theorem scan_sideBySide (whole first second : List Char) (way₁ way₂ : Cell)
    (h : (Grid.ofText whole).SideBySide (.ofText first) way₁ (.ofText second) way₂) :
    (Scan.ofDiagram whole).marks.toList.Perm
        ((Scan.ofDiagram first).marks.toList.map (·.move way₁) ++
          (Scan.ofDiagram second).marks.toList.map (·.move way₂)) ∧
      (Scan.ofDiagram whole).texts.toList.Perm
        ((Scan.ofDiagram first).texts.toList.map (·.move way₁) ++
          (Scan.ofDiagram second).texts.toList.map (·.move way₂)) ∧
      (Scan.ofDiagram whole).lines.toList.Perm
        ((Scan.ofDiagram first).lines.toList.map (·.move way₁) ++
          (Scan.ofDiagram second).lines.toList.map (·.move way₂)) := by
  have hread := Reading.faithful_ofDiagram
  have hseparate := h.separate hread
  have hpainted : Painted Reading.ofDiagram (.ofText whole) = fun p =>
      Painted Reading.ofDiagram (.ofText first) (p.move way₁.opposite) ∨
        Painted Reading.ofDiagram (.ofText second) (p.move way₂.opposite) :=
    funext fun p => propext (h.painted_iff hread Reading.inkOnly_ofDiagram)
  refine ⟨?_, ?_, ?_⟩
  · refine perm_moved_append Mark.move_opposite (nodup_findings hread).1
      (nodup_findings hread).1 (nodup_findings hread).1 (fun m => ?_) (fun m hm hm' => ?_)
    · simp only [Array.mem_toList_iff, mem_marks_iff hread, hpainted]
      rfl
    · simp only [Array.mem_toList_iff, mem_marks_iff hread] at hm hm'
      exact (hseparate m.paint m.paint hm hm').1 rfl
  · refine perm_moved_append TextRun.move_opposite (nodup_findings hread).2.1
      (nodup_findings hread).2.1 (nodup_findings hread).2.1 (fun t => ?_) (fun t ht ht' => ?_)
    · simp only [Array.mem_toList_iff, mem_texts_iff hread, hpainted]
      rw [TextRun.whole_move, TextRun.whole_move]
      exact TextRun.whole_or_iff hseparate
    · simp only [Array.mem_toList_iff, mem_texts_iff hread] at ht ht'
      rw [TextRun.whole_move] at ht ht'
      have hfirst := TextRun.mem_paints_of_lt (List.length_pos_iff.2 ht.written)
      exact (hseparate _ _ (ht.painted _ hfirst) (ht'.painted _ hfirst)).1 rfl
  · refine perm_moved_append LineRun.move_opposite (nodup_findings hread).2.2
      (nodup_findings hread).2.2 (nodup_findings hread).2.2 (fun l => ?_) (fun l hl hl' => ?_)
    · simp only [Array.mem_toList_iff, mem_lines_iff hread, hpainted]
      rw [LineRun.whole_move, LineRun.whole_move]
      exact LineRun.whole_or_iff hseparate
    · simp only [Array.mem_toList_iff, mem_lines_iff hread] at hl hl'
      rw [LineRun.whole_move] at hl hl'
      have hfirst := LineRun.cellAt_mem_cells.2 ⟨le_refl l.first, hl.solid.1⟩
      exact (hseparate _ _ (hl.paint hfirst) (hl'.paint hfirst)).1 rfl

/-- An arrow inside a box, and both alone. -/
def arrowInBox : List Char := "+----+\n|    |\n| <- |\n|    |\n+----+".toList

def boxAlone : List Char := "+----+\n|    |\n|    |\n|    |\n+----+".toList

def arrowAlone : List Char := "\n   <-".toList

theorem scan_arrowInBox :
    (Grid.ofText arrowInBox).SideBySide (.ofText boxAlone) ⟨0, 0⟩ (.ofText arrowAlone) ⟨-1, 1⟩ ∧
      (Scan.ofDiagram arrowInBox).lines.toList.Perm
        ((Scan.ofDiagram boxAlone).lines.toList.map (·.move ⟨0, 0⟩) ++
          (Scan.ofDiagram arrowAlone).lines.toList.map (·.move ⟨-1, 1⟩)) := by
  have h : (Grid.ofText arrowInBox).SideBySide (.ofText boxAlone) ⟨0, 0⟩
      (.ofText arrowAlone) ⟨-1, 1⟩ := ⟨by decide +kernel, by decide +kernel⟩
  exact ⟨h, (scan_sideBySide arrowInBox boxAlone arrowAlone ⟨0, 0⟩ ⟨-1, 1⟩ h).2.2⟩

end CellSketch
