import Mathlib.Data.List.DropRight
import CellSketch.Proofs.Canvas.Fitting
import CellSketch.Proofs.Scan.SideBySide

/-!
# DrawnSize — a scanned drawing is as large as what is written

The size of a drawing comes from the marks, texts and lines that were found in it, one after the
other, and not from the grid.  Still it can be told from the grid: the last written row and column
count, with one more column where a text ends.  Blanks behind them do not count.

* `Scan.sizeIn` — the size that a grid asks for;
* `Scan.reserves_primitives` — what is found asks for room as far as the written cells do;
* `Grid.SameInk.sizeIn_eq` — the size depends on the written cells only;
* `Grid.sameInk_of_trimmed` — blanks at the ends of lines and of the text are not written;
* `drawn_scan_size` — drawing a diagram or a tree takes just this size.
-/

namespace CellSketch

open Number

/-! ## Sizes of grids -/

namespace Scan

/-- Whether a cell belongs to a text. -/
def inText (s : Scan) (cell : Cell) : Bool :=
  s.texts.any fun t => t.cell.y = cell.y ∧ t.cell.x ≤ cell.x ∧ cell.x < t.stop

/-- The columns and rows up to the last written ones; behind a text there is a free column. -/
def sizeIn (s : Scan) (g : Grid) : Int × Int :=
  (Flow.extent (g.inked.map fun entry => entry.1.x + if s.inText entry.1 then 2 else 1),
    Flow.extent (g.inked.map fun entry => entry.1.y + 1))

/-- The last cell that is reserved for a written one. -/
def reach (s : Scan) (cell : Cell) : Cell := ⟨cell.x + if s.inText cell then 1 else 0, cell.y⟩

/-- The last cells of all marks, texts and lines; a text goes one column farther. -/
def lastCells (s : Scan) : List Cell :=
  s.marks.toList.map (·.cell) ++ s.texts.toList.map (fun t => ⟨t.stop, t.cell.y⟩) ++
    s.lines.toList.map fun l => l.axis.cellAt l.lane l.last

theorem inText_iff {s : Scan} {cell : Cell} : s.inText cell = true ↔
    ∃ t ∈ s.texts, t.cell.y = cell.y ∧ t.cell.x ≤ cell.x ∧ cell.x < t.stop := by
  simp only [inText, Array.any_eq_true', decide_eq_true_eq]

theorem le_reach (s : Scan) (axis : Axis) (cell : Cell) :
    axis.position cell ≤ axis.position (s.reach cell) := by
  cases axis
  · simp only [Axis.position, reach]
    split <;> omega
  · exact le_rfl

theorem position_reach_le {s : Scan} {axis : Axis} {cell : Cell} {m : Int}
    (h : axis.position cell ≤ m)
    (htext : ∀ t ∈ s.texts, t.cell.y = cell.y → t.cell.x ≤ cell.x → cell.x < t.stop →
      axis.position ⟨t.stop, t.cell.y⟩ ≤ m) : axis.position (s.reach cell) ≤ m := by
  by_cases hin : s.inText cell = true
  · obtain ⟨t, ht, hrow, hfirst, hstop⟩ := inText_iff.1 hin
    have hle := htext t ht hrow hfirst hstop
    cases axis
    · simp only [Axis.position, reach, hin, if_true] at hle ⊢
      omega
    · exact h
  · simpa [reach, hin] using h

section Spans

variable {read : Char → Neighbors → Reading} {g : Grid} (hread : Faithful read)
include hread

theorem exists_painted_of_inked {cell : Cell} {c : Char} (h : (cell, c) ∈ g.inked) :
    ∃ p, Painted read g p ∧ p.cell = cell := by
  obtain ⟨hat, hblank⟩ := Grid.mem_inked.1 h
  have hpainted := ((follows_ofGrid hread g).paintsBack hread).complete cell c hat hblank
  obtain ⟨p, hp⟩ := List.exists_mem_of_ne_nil _ hpainted
  obtain ⟨hp, hcell⟩ := List.mem_filter.1 hp
  exact ⟨p, (mem_paints_ofGrid hread).1 hp, of_decide_eq_true hcell⟩

theorem inked_of_painted {p : Paint} (h : Painted read g p) : (p.cell, p.char) ∈ g.inked :=
  Grid.mem_inked.2 (h.at? hread)

theorem inText_ofGrid {cell : Cell} :
    (Scan.ofGrid read g).inText cell = true ↔ ∃ c, Painted read g ⟨cell, .text, c⟩ := by
  rw [inText_iff]
  constructor
  · rintro ⟨t, ht, hrow, hfirst, hstop⟩
    obtain ⟨c, hp, -⟩ := (whole_of_mem_texts hread ht).exists_paint hfirst hstop
    rw [hrow] at hp
    exact ⟨c, hp⟩
  · rintro ⟨c, hp⟩
    rcases mem_paints.1 ((mem_paints_ofGrid hread).2 hp) with
      ⟨m, -, hm⟩ | ⟨t, ht, hpt⟩ | ⟨l, -, hpl⟩
    · cases congrArg Paint.ink hm
    · obtain ⟨i, d, hd, heq⟩ := TextRun.mem_paints.1 hpt
      have hlt := (List.getElem?_eq_some_iff.1 hd).1
      obtain rfl : cell = ⟨t.cell.x + i, t.cell.y⟩ := congrArg Paint.cell heq
      exact ⟨t, ht, rfl, by simp, by simp [TextRun.stop, hlt]⟩
    · cases (LineRun.mem_paints.1 hpl).2.1

/-- No item reaches farther than the written cells do. -/
theorem lastCells_le {axis : Axis} {m : Int}
    (h : ∀ entry ∈ g.inked, axis.position ((Scan.ofGrid read g).reach entry.1) ≤ m) :
    ∀ cell ∈ (Scan.ofGrid read g).lastCells, axis.position cell ≤ m := by
  set s := Scan.ofGrid read g with hs
  have hpainted {p : Paint} (hp : Painted read g p) : axis.position (s.reach p.cell) ≤ m :=
    h _ (inked_of_painted hread hp)
  simp only [lastCells, List.forall_mem_append, List.forall_mem_map, Array.mem_toList_iff]
  refine ⟨⟨fun mark hmark => ?_, fun t ht => ?_⟩, fun l hl => ?_⟩
  · exact (s.le_reach axis mark.cell).trans (hpainted ((mem_marks_iff hread).1 hmark))
  · have W := whole_of_mem_texts hread ht
    have hlength := List.length_pos_iff.2 W.written
    obtain ⟨c, hp, -⟩ := W.exists_paint (x := t.stop - 1) (by rw [TextRun.stop]; omega) (by omega)
    have hin : s.inText ⟨t.stop - 1, t.cell.y⟩ = true := (inText_ofGrid hread).2 ⟨c, hp⟩
    have hle := hpainted hp
    rw [reach, hin] at hle
    simpa using hle
  · have W := whole_of_mem_lines hread hl
    have hp := W.paint (LineRun.cellAt_mem_cells.2 ⟨W.solid.1, le_rfl⟩)
    exact (s.le_reach axis _).trans (hpainted hp)

/-- Every written cell belongs to an item, which reaches at least as far. -/
theorem reach_le {axis : Axis} {m : Int}
    (h : ∀ cell ∈ (Scan.ofGrid read g).lastCells, axis.position cell ≤ m) :
    ∀ entry ∈ g.inked, axis.position ((Scan.ofGrid read g).reach entry.1) ≤ m := by
  simp only [lastCells, List.forall_mem_append, List.forall_mem_map, Array.mem_toList_iff] at h
  obtain ⟨⟨hmarks, htexts⟩, hlines⟩ := h
  rintro ⟨cell, c⟩ hinked
  obtain ⟨p, hp, rfl⟩ := exists_painted_of_inked hread hinked
  refine position_reach_le ?_ fun t ht _ _ _ => htexts t ht
  rcases mem_paints.1 ((mem_paints_ofGrid hread).2 hp) with
    ⟨mark, hmark, rfl⟩ | ⟨t, ht, hpt⟩ | ⟨l, hl, hpl⟩
  · exact hmarks mark hmark
  · obtain ⟨i, d, hd, rfl⟩ := TextRun.mem_paints.1 hpt
    have hlt := (List.getElem?_eq_some_iff.1 hd).1
    have hle := htexts t ht
    cases axis
    · simp only [Axis.position, TextRun.stop] at hle ⊢
      omega
    · exact hle
  · have hcell := LineRun.mem_cells.1 (LineRun.mem_paints.1 hpl).1
    have hle := hlines l hl
    obtain ⟨hlane, -, hlast⟩ := hcell
    cases haxis : l.axis <;> cases axis <;> rw [haxis] at hlane hlast hle <;>
      simp only [Axis.position, Axis.lane, Axis.cellAt] at hlane hlast hle ⊢ <;> omega

variable {α : Type} [Scalar α] (hceil : ∀ n, Scalar.ceil (Scalar.whole n : α) = .ok n)
include hceil

/-- Every item asks for room up to its last cell. -/
theorem forall₂_reaches : List.Forall₂ Primitive.Reaches
    ((Scan.ofGrid read g).primitives : List (Primitive α)) (Scan.ofGrid read g).lastCells := by
  have hreaches {p : Primitive α} {e : Cell} (h : p.reach = some (Primitive.position e)) :
      p.Reaches e := ⟨_, h, hceil e.x, hceil e.y⟩
  refine List.rel_append (List.rel_append ?_ ?_) ?_
  all_goals rw [List.forall₂_map_left_iff, List.forall₂_map_right_iff, List.forall₂_same]
  · rintro ⟨cell, corner | ⟨marker, sides⟩ | -⟩ - <;> exact hreaches rfl
  · intro t _
    refine hreaches ?_
    rw [TextRun.primitive, Primitive.reach, String.length_ofList]
    rfl
  · intro l hl
    have hsolid := (whole_of_mem_lines hread (Array.mem_toList_iff.1 hl)).solid.1
    refine hreaches ?_
    cases haxis : l.axis <;>
      simp only [LineRun.primitive, haxis, Primitive.reach, Axis.cellAt, max_eq_right hsolid]

/-- Marks, texts and lines together ask for room exactly as far as written cells do. -/
theorem reserves_primitives :
    Reserves ((Scan.ofGrid read g).primitives : List (Primitive α))
      (g.inked.map fun entry => (Scan.ofGrid read g).reach entry.1) := by
  refine ⟨(Scan.ofGrid read g).lastCells, forall₂_reaches hread hceil, fun axis m => ?_⟩
  rw [List.forall_mem_map]
  exact ⟨reach_le hread, lastCells_le hread⟩

/-- A canvas with nothing else on it is as large as the grid asks for. -/
theorem sizeInCells_drawAll {c drawn : Canvas α} {i : Nat} {context : Context α}
    (hcontext : c.context? i = some context) (hfresh : context.Fresh)
    (hdrawn : c.drawAll i (Scan.ofGrid read g).primitives = ⟨drawn, none⟩) :
    drawn.sizeInCells i = (Scan.ofGrid read g).sizeIn g := by
  set s := Scan.ofGrid read g with hs
  have hreserves := reserves_primitives hread (g := g) hceil
  have hsize (axis : Axis) : drawn.sizeAlong i axis =
      Flow.extent (g.inked.map fun entry => axis.position (s.reach entry.1) + 1) := by
    refine eq_of_forall_ge_iff fun m => ?_
    rw [Canvas.sizeAlong_drawAll hcontext hfresh hreserves hdrawn, Flow.extent_le_iff,
      List.forall_mem_map, List.forall_mem_map]
  refine Prod.ext ((hsize .horizontal).trans ?_) (hsize .vertical)
  refine congrArg Flow.extent (List.map_congr_left fun entry _ => ?_)
  simp only [Axis.position, reach]
  split <;> omega

end Spans
end Scan

/-! ## Blanks -/

/-- Two grids with the same characters in the same cells, blanks apart. -/
def Grid.SameInk (g g' : Grid) : Prop := ∀ cell c, (cell, c) ∈ g.inked ↔ (cell, c) ∈ g'.inked

namespace Grid.SameInk

variable {read : Char → Neighbors → Reading} {g g' : Grid}

theorem symm (h : g.SameInk g') : g'.SameInk g := fun cell c => (h cell c).symm

theorem agree (h : g.SameInk g') (cell : Cell) : (g.neighbors cell).Agree (g'.neighbors cell) := by
  intro d hd
  have hat (cell : Cell) : g.at? cell = some d ↔ g'.at? cell = some d := by
    have hiff := h cell d
    rwa [mem_inked, mem_inked, and_iff_left hd, and_iff_left hd] at hiff
  exact ⟨hat _, hat _, hat _, hat _⟩

theorem painted (hread : Faithful read) (hink : InkOnly read) (h : g.SameInk g') {p : Paint}
    (hp : Painted read g p) : Painted read g' p := by
  obtain ⟨c, hmem, hpaint⟩ := hp.exists_inked hread
  rw [contribution_eq, hink c _ _ p.cell (h.agree p.cell)] at hpaint
  exact painted_of_inked ((h p.cell c).1 hmem) hpaint

theorem inText_eq (hread : Faithful read) (hink : InkOnly read) (h : g.SameInk g') (cell : Cell) :
    (Scan.ofGrid read g).inText cell = (Scan.ofGrid read g').inText cell := by
  rw [Bool.eq_iff_iff, Scan.inText_ofGrid hread, Scan.inText_ofGrid hread]
  exact ⟨fun ⟨c, hp⟩ => ⟨c, h.painted hread hink hp⟩,
    fun ⟨c, hp⟩ => ⟨c, h.symm.painted hread hink hp⟩⟩

/-- The size depends on the written cells only. -/
theorem sizeIn_eq (hread : Faithful read) (hink : InkOnly read) (h : g.SameInk g') :
    (Scan.ofGrid read g).sizeIn g = (Scan.ofGrid read g').sizeIn g' := by
  have hextent (f : Cell → Int) : Flow.extent (g.inked.map fun entry => f entry.1) =
      Flow.extent (g'.inked.map fun entry => f entry.1) := by
    refine eq_of_forall_ge_iff fun m => ?_
    rw [Flow.extent_le_iff, Flow.extent_le_iff, List.forall_mem_map, List.forall_mem_map]
    simp only [Prod.forall, h _ _]
  rw [Scan.sizeIn, Scan.sizeIn, hextent fun cell => cell.y + 1,
    hextent fun cell => cell.x + if (Scan.ofGrid read g).inText cell then 2 else 1]
  simp only [h.inText_eq hread hink]

end Grid.SameInk

/-- The lines of a text up to the last one that is not blank, without the blanks at their ends. -/
def trimmed (text : List Char) : List (List Char) :=
  ((Text.lines text).map Text.stripEnd).rdropWhile List.isEmpty

theorem getElem?_rdropWhile {α : Type} {p : α → Bool} {l : List α} {i : Nat} {a : α}
    (h : p a = false) : (l.rdropWhile p)[i]? = some a ↔ l[i]? = some a := by
  induction l using List.reverseRecOn with
  | nil => rfl
  | append_singleton l b ih =>
      rw [List.rdropWhile_concat]
      split
      · rename_i hb
        rw [ih, List.getElem?_append]
        split
        · rfl
        · rename_i hlong
          -- what was dropped is not what is looked for
          rw [List.getElem?_eq_none (by omega)]
          constructor
          · rintro ⟨⟩
          · intro hlast
            obtain rfl := List.mem_singleton.1 (List.mem_of_getElem? hlast)
            exact absurd (hb.symm.trans h) (by decide)
      · rfl

/-- A character that is not blank stands in the trimmed lines where it stands in the text. -/
theorem mem_inked_ofText {text : List Char} {cell : Cell} {c : Char} :
    (cell, c) ∈ (Grid.ofText text).inked ↔ Text.isBlank c = false ∧ ∃ x y : Nat, cell = ⟨x, y⟩ ∧
      ∃ row, (trimmed text)[y]? = some row ∧ row[x]? = some c := by
  rw [Grid.mem_inked, Grid.at?_eq_some_iff, and_comm]
  refine and_congr_right fun hblank => exists_congr fun x => exists_congr fun y =>
    and_congr_right fun _ => ?_
  have hstrip (row : List Char) : (Text.stripEnd row)[x]? = some c ↔ row[x]? = some c :=
    getElem?_rdropWhile hblank
  simp only [Grid.ofText, trimmed, List.getElem?_toArray, List.getElem?_map]
  constructor
  · rintro ⟨row, hrow, hc⟩
    obtain ⟨line, hline, rfl⟩ := Option.map_eq_some_iff.1 hrow
    rw [List.getElem?_toArray] at hc
    have hshown := (hstrip line).2 hc
    refine ⟨Text.stripEnd line, (getElem?_rdropWhile ?_).2 ?_, hshown⟩
    · rw [List.isEmpty_eq_false_iff]
      exact List.ne_nil_of_mem (List.mem_of_getElem? hshown)
    · rw [List.getElem?_map, hline]
      rfl
  · rintro ⟨line, hline, hc⟩
    have hne : line.isEmpty = false := by
      rw [List.isEmpty_eq_false_iff]
      exact List.ne_nil_of_mem (List.mem_of_getElem? hc)
    rw [getElem?_rdropWhile hne, List.getElem?_map] at hline
    obtain ⟨raw, hraw, rfl⟩ := Option.map_eq_some_iff.1 hline
    refine ⟨raw.toArray, by rw [hraw]; rfl, ?_⟩
    rw [List.getElem?_toArray]
    exact (hstrip raw).1 hc

/-- Blanks at the ends of lines, and blank lines at the end, are not written. -/
theorem Grid.sameInk_of_trimmed {text other : List Char} (h : trimmed text = trimmed other) :
    (Grid.ofText text).SameInk (.ofText other) := by
  intro cell c
  rw [mem_inked_ofText, mem_inked_ofText, h]

/-! ## Drawn texts -/

/-- What is found in a text that is not laid out. -/
def Kind.scan? (kind : Kind) (text : List Char) : Option Scan :=
  match kind with
  | .diagram => some (Scan.ofDiagram text)
  | .tree => some (Scan.ofTree text)
  | .flow => none

theorem Kind.exists_read {α : Type} [Scalar α] (engine : Flow.Engine α) {kind : Kind}
    {text : List Char} {scan : Scan} (h : kind.scan? text = some scan) :
    ∃ read, Faithful read ∧ InkOnly read ∧ scan = Scan.ofGrid read (.ofText text) ∧
      (∀ other, kind.scan? other = some (Scan.ofGrid read (.ofText other))) ∧
      ∀ round, (kind.primitives engine text round).result = .ok scan.primitives := by
  cases kind with
  | diagram =>
      cases h
      exact ⟨Reading.ofDiagram, Reading.faithful_ofDiagram, Reading.inkOnly_ofDiagram, rfl,
        fun _ => rfl, fun _ => rfl⟩
  | tree =>
      cases h
      exact ⟨Reading.ofTree, Reading.faithful_ofTree, Reading.inkOnly_ofTree, rfl, fun _ => rfl,
        fun _ => rfl⟩
  | flow => cases h

theorem Sketch.drawAll_of_draw {s drawn : Sketch} {i : Nat} {ps : List (Primitive Measure)}
    (h : s.draw i ps = .ok drawn) : s.canvas.drawAll i ps = ⟨drawn.canvas, none⟩ := by
  rw [draw, drawAll] at h
  generalize s.canvas.drawAll i ps = done at h ⊢
  obtain ⟨canvas, fault⟩ := done
  cases fault with
  | none =>
      cases h
      rfl
  | some fault => cases h

theorem Fitting.spans {α : Type} [Scalar α] {limit : Int} {H : Halves α limit}
    {ps : List (Primitive α)} (h : Fitting H ps) : ∃ cells, Spans H ps cells := by
  obtain ⟨ends, hplain, -⟩ := h
  exact ⟨ends, ends, hplain, .refl ends⟩

/-- A diagram or a tree of a moderate size is drawn on every new sketch. -/
theorem Text.Moderate.exists_drawText {text : List Char} (h : Text.Moderate text) {α : Type}
    [Scalar α] (engine : Flow.Engine α) {kind : Kind} {scan : Scan}
    (hscan : kind.scan? text = some scan) (round : Bool) {o : Options} {s : Sketch}
    (hs : (Sketch.ofOptions o).result = .ok s) :
    ∃ drawn, (s.drawText engine kind text round).result = .ok drawn := by
  obtain ⟨read, hread, -, rfl, -, hprimitives⟩ := Kind.exists_read engine hscan
  obtain ⟨cells, hspans⟩ := (h.fitting_primitives hread).spans
  obtain ⟨drawn, -, hdraw, -⟩ := Flow.exists_draw hs hspans
  rw [Sketch.drawText, Report.result_bind (hprimitives round)]
  exact ⟨drawn, hdraw⟩

/-- A diagram or a tree drawn on a fresh context takes just the cells up to the last written ones,
and a free column behind a text, whenever the drawing is finished: always in exact arithmetic, and
with doubles as long as there are fewer than `2 ^ 52` rows and columns.  Blanks behind what is
written never change it. -/
theorem drawn_scan_size {α : Type} [Scalar α] (engine : Flow.Engine α) {kind : Kind}
    {text : List Char} {scan : Scan} (h : kind.scan? text = some scan) :
    let size := scan.sizeIn (.ofText text)
    (∀ (c : Canvas Rat) i context, c.context? i = some context → context.Fresh →
      ∃ drawn, c.drawAll i scan.primitives = ⟨drawn, none⟩ ∧ drawn.sizeInCells i = size) ∧
    (∀ (c : Canvas Measure) i context drawn, c.context? i = some context → context.Fresh →
      c.drawAll i scan.primitives = ⟨drawn, none⟩ → drawn.sizeInCells i = size) ∧
    (∀ o s round, (Sketch.ofOptions o).result = .ok s →
      (∀ drawn, (s.drawText engine kind text round).result = .ok drawn →
        drawn.canvas.sizeInCells 0 = size) ∧
      (Text.Moderate text → ∃ drawn, (s.drawText engine kind text round).result = .ok drawn)) ∧
    ∀ other, trimmed other = trimmed text →
      ∃ found, kind.scan? other = some found ∧ found.sizeIn (.ofText other) = size := by
  intro size
  obtain ⟨read, hread, hink, rfl, hscan, hprimitives⟩ := Kind.exists_read engine h
  have hdoubles (c : Canvas Measure) (i : Nat) (context : Context Measure) (drawn : Canvas Measure)
      (hcontext : c.context? i = some context) (hfresh : context.Fresh)
      (hdrawn : c.drawAll i (Scan.ofGrid read (.ofText text)).primitives = ⟨drawn, none⟩) :
      drawn.sizeInCells i = size :=
    Scan.sizeInCells_drawAll hread (fun _ => rfl) hcontext hfresh hdrawn
  refine ⟨?_, hdoubles, ?_, ?_⟩
  · intro c i context hcontext hfresh
    obtain ⟨drawn, -, -, hdrawn, -⟩ :=
      Canvas.drawAll_exact hcontext (Scan.ofGrid read (.ofText text)).primitives
    have hceil (n : Int) : Scalar.ceil (Scalar.whole n : Rat) = .ok n :=
      congrArg Except.ok (Rat.ceil_intCast n)
    exact ⟨drawn, hdrawn, Scan.sizeInCells_drawAll hread hceil hcontext hfresh hdrawn⟩
  · intro o s round hs
    refine ⟨fun drawn hdrawn => ?_, fun hmoderate => hmoderate.exists_drawText engine h round hs⟩
    obtain ⟨root, hroot, hfresh, -⟩ := Sketch.blank_ofOptions hs
    rw [Sketch.drawText, Report.result_bind (hprimitives round)] at hdrawn
    exact hdoubles s.canvas 0 root drawn.canvas hroot hfresh (Sketch.drawAll_of_draw hdrawn)
  · intro other htrimmed
    exact ⟨_, hscan other, (Grid.sameInk_of_trimmed htrimmed).sizeIn_eq hread hink⟩

/-- A corner of a frame with a text in it. -/
def corner : List Char := "+--\n| abc".toList

/-- The same with blanks behind it. -/
def padded : List Char := "+--    \n| abc \n  \n\n".toList

theorem corner_drawn_size :
    Text.Moderate corner ∧ trimmed padded = trimmed corner ∧
    (∃ s drawn, (Sketch.ofOptions {}).result = .ok s ∧
      (s.drawText Flow.forkEngine .diagram corner false).result = .ok drawn ∧
      drawn.canvas.sizeInCells 0 = (6, 2)) ∧
    ∃ found, Kind.diagram.scan? padded = some found ∧ found.sizeIn (.ofText padded) = (6, 2) := by
  have hsize : (Scan.ofDiagram corner).sizeIn (.ofText corner) = (6, 2) := by decide +kernel
  have hmoderate : Text.Moderate corner :=
    ⟨by decide +kernel, List.forall_iff_forall_mem.1 (by decide +kernel)⟩
  have htrimmed : trimmed padded = trimmed corner := by decide +kernel
  have hscan : Kind.diagram.scan? corner = some (Scan.ofDiagram corner) := rfl
  obtain ⟨-, -, hsketches, hblanks⟩ := drawn_scan_size Flow.forkEngine hscan
  obtain ⟨s, hs⟩ : ∃ s, (Sketch.ofOptions {}).result = .ok s := ⟨_, rfl⟩
  obtain ⟨hcells, hfinished⟩ := hsketches {} s false hs
  obtain ⟨drawn, hdrawn⟩ := hfinished hmoderate
  replace hcells := hcells drawn hdrawn
  obtain ⟨found, hfound, hpadded⟩ := hblanks padded htrimmed
  rw [hsize] at hcells hpadded
  exact ⟨hmoderate, htrimmed, ⟨s, drawn, hs, hdrawn, hcells⟩, found, hfound, hpadded⟩

end CellSketch
