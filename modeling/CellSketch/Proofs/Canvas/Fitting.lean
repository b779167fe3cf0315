import CellSketch.Proofs.Flow.Drawn
import CellSketch.Proofs.Flow.Snapping
import CellSketch.Proofs.Scan.Findings

/-!
# Fitting — texts whose drawings stay below a limit

What is found in a text lies in its rows and columns, and what is laid out lies in the size of the
layout.  As long as these stay below a limit, everything that is drawn for the text is plain and
takes room below the limit only.

* `Fitting` — plain primitives whose last cells are below a limit;
* `Scan.fitting_primitives` — everything found in a grid fits if the cells of the grid do;
* `Flow.exists_fitting` — everything in a layout fits if the size of the layout does;
* `Kind.primitives_cases` — a text that is not too large is drawn as primitives that fit, or it is
  no flow, or the engine cannot draw it.
-/

namespace CellSketch

open Number

variable {α : Type} [Scalar α] {limit : Int}

/-- Primitives that meet no fault and take room below a limit only. -/
def Fitting (H : Halves α limit) (ps : List (Primitive α)) : Prop :=
  ∃ ends, List.Forall₂ (Plain H) ps ends ∧ ∀ e ∈ ends, ∀ axis, Axis.position axis e < limit

namespace Fitting

variable {H : Halves α limit} {ps qs : List (Primitive α)}

theorem nil : Fitting H [] := ⟨[], .nil, List.forall_mem_nil _⟩

theorem append (h : Fitting H ps) (h' : Fitting H qs) : Fitting H (ps ++ qs) := by
  obtain ⟨ends, hplain, hbelow⟩ := h
  obtain ⟨ends', hplain', hbelow'⟩ := h'
  exact ⟨ends ++ ends', List.rel_append hplain hplain', List.forall_mem_append.2 ⟨hbelow, hbelow'⟩⟩

theorem flatMap {β : Type} {items : List β} {draw : β → List (Primitive α)}
    (h : ∀ b ∈ items, Fitting H (draw b)) : Fitting H (items.flatMap draw) := by
  induction items with
  | nil => exact nil
  | cons b rest ih =>
      obtain ⟨hfirst, hrest⟩ := List.forall_mem_cons.1 h
      exact hfirst.append (ih hrest)

theorem map {β : Type} {items : List β} {draw : β → Primitive α}
    (h : ∀ b ∈ items, ∃ e, Plain H (draw b) e ∧ ∀ axis, Axis.position axis e < limit) :
    Fitting H (items.map draw) := by
  rw [List.map_eq_flatMap]
  refine flatMap fun b hb => ?_
  obtain ⟨e, hplain, hbelow⟩ := h b hb
  exact ⟨[e], .cons hplain .nil, List.forall_mem_singleton.2 hbelow⟩

/-- What reaches as far as some cells fits where they do. -/
theorem of_spans {cells : List Cell} (h : Spans H ps cells)
    (hcells : ∀ c ∈ cells, c.Within limit) : Fitting H ps := by
  obtain ⟨ends, hplain, hreach⟩ := h
  refine ⟨ends, hplain, fun e he axis => ?_⟩
  refine Int.lt_of_le_sub_one ((hreach axis (limit - 1)).2 (fun c hc => ?_) e he)
  obtain ⟨⟨-, hx⟩, -, hy⟩ := hcells c hc
  cases axis <;> simp only [Axis.position] <;> omega

end Fitting

/-! ## Scans -/

/-- A grid whose cells lie below a limit, with room for one more column. -/
def Grid.Below (limit : Int) (g : Grid) : Prop :=
  ∀ cell c, g.at? cell = some c → cell.x + 1 < limit ∧ cell.y < limit

theorem Grid.below_ofText {text : List Char} (hrows : (Text.lines text).length ≤ limit)
    (hcolumns : ∀ line ∈ Text.lines text, (line.length : Int) < limit) :
    (Grid.ofText text).Below limit := by
  intro cell c hat
  obtain ⟨x, y, rfl, row, hrow, hc⟩ := at?_eq_some_iff.1 hat
  rw [ofText, List.getElem?_toArray, List.getElem?_map] at hrow
  obtain ⟨line, hline, rfl⟩ := Option.map_eq_some_iff.1 hrow
  rw [List.getElem?_toArray] at hc
  have hx := (List.getElem?_eq_some_iff.1 hc).1
  have hy := (List.getElem?_eq_some_iff.1 hline).1
  have hlength := hcolumns line (List.mem_of_getElem? hline)
  dsimp only
  omega

namespace Scan

section Below

variable {read : Char → Neighbors → Reading} {g : Grid} (hread : Faithful read)
  (hbelow : g.Below limit) (H : Halves α limit)
include hread hbelow

theorem within_of_painted {p : Paint} (h : Painted read g p) :
    p.cell.Within limit ∧ p.cell.x + 1 < limit := by
  have hat := (h.at? hread).1
  obtain ⟨x, y, hcell, -⟩ := Grid.at?_eq_some_iff.1 hat
  obtain ⟨hx, hy⟩ := hbelow _ _ hat
  rw [hcell] at hx hy ⊢
  dsimp only at hx hy
  simp only [Cell.Within]
  omega

theorem fitting_mark {m : Mark} (hm : m ∈ (Scan.ofGrid read g).marks) :
    ∃ e, Plain H m.primitive e ∧ ∀ axis, Axis.position axis e < limit := by
  have hcell := (within_of_painted hread hbelow ((mem_marks_iff hread).1 hm)).1
  change m.cell.Within limit at hcell
  refine ⟨m.cell, ?_, fun axis => ?_⟩
  · obtain ⟨cell, corner | ⟨marker, sides⟩ | -⟩ := m
    · exact .roundCorner hcell corner
    · exact .marker hcell marker sides
    · exact .crossing hcell
  · cases axis
    · exact hcell.1.2
    · exact hcell.2.2

/-- A text takes room for one column after its last character. -/
theorem fitting_text {t : TextRun} (ht : t ∈ (Scan.ofGrid read g).texts) :
    ∃ e, Plain H t.primitive e ∧ ∀ axis, Axis.position axis e < limit := by
  have W := whole_of_mem_texts hread ht
  have hlength := List.length_pos_iff.2 W.written
  have hat {x : Int} (hfirst : t.cell.x ≤ x) (hstop : x < t.stop) :
      Cell.Within limit ⟨x, t.cell.y⟩ ∧ x + 1 < limit := by
    obtain ⟨c, hp, -⟩ := W.exists_paint hfirst hstop
    exact within_of_painted hread hbelow hp
  simp only [TextRun.stop] at hat
  have hfirst := (hat (x := t.cell.x) le_rfl (by omega)).1
  have hlast := (hat (x := t.cell.x + t.text.length - 1) (by omega) (by omega)).2
  refine ⟨_, .text hfirst _, fun axis => ?_⟩
  have hrow := hfirst.2.2
  cases axis
  · simp only [Axis.position, String.length_ofList]
    omega
  · exact hrow

theorem fitting_line {l : LineRun} (hl : l ∈ (Scan.ofGrid read g).lines) :
    ∃ e, Plain H l.primitive e ∧ ∀ axis, Axis.position axis e < limit := by
  have W := whole_of_mem_lines hread hl
  have hsolid := W.solid.1
  have hat {k : Int} (hk : l.first ≤ k ∧ k ≤ l.last) : (l.axis.cellAt l.lane k).Within limit :=
    (within_of_painted hread hbelow (W.paint (LineRun.cellAt_mem_cells.2 hk))).1
  have hlast := hat ⟨hsolid, le_rfl⟩
  refine ⟨_, .run (hat ⟨le_rfl, hsolid⟩) hlast l.arrow, fun axis => ?_⟩
  rw [max_eq_right hsolid]
  cases axis
  · exact hlast.1.2
  · exact hlast.2.2

/-- Everything that is found in a grid below a limit fits. -/
theorem fitting_primitives : Fitting H (Scan.ofGrid read g).primitives :=
  .append
    (.append (.map fun _ hm => fitting_mark hread hbelow H (Array.mem_toList_iff.1 hm))
      (.map fun _ ht => fitting_text hread hbelow H (Array.mem_toList_iff.1 ht)))
    (.map fun _ hl => fitting_line hread hbelow H (Array.mem_toList_iff.1 hl))

end Below

end Scan

/-! ## Layouts -/

namespace Flow

variable {g : Graph} {drawn : List (Component × List Cell)}

theorem exists_fitting_connections (H : Halves α limit) (round : Bool) {edges : List RoutedEdge}
    (hwithin : ∀ e ∈ edges, ∀ c ∈ e.points, c.Within limit) :
    ∃ ps, connectionsIn α round edges = .ok ps ∧ Fitting H ps := by
  induction edges with
  | nil => exact ⟨[], rfl, .nil⟩
  | cons e rest ih =>
      obtain ⟨hfirst, hrest⟩ := List.forall_mem_cons.1 hwithin
      obtain ⟨ps, ends, hps, hplain, hreach⟩ :=
        Connection.exists_connection H hfirst e.arrow round
      obtain ⟨qs, hqs, hmore⟩ := ih hrest
      have hfitting : Fitting H ps := by
        rcases hreach with hreach | ⟨rfl, -⟩
        · exact .of_spans ⟨ends, hplain, hreach⟩ hfirst
        · exact ⟨[], hplain, List.forall_mem_nil _⟩
      refine ⟨ps ++ qs, ?_, hfitting.append hmore⟩
      rw [connectionsIn, hps, hqs]
      rfl

/-- Everything in a layout is planned and fits where its size does. -/
theorem exists_fitting (H : Halves α limit) (hwidth : (g.layoutOf drawn).1.width ≤ limit)
    (hheight : (g.layoutOf drawn).1.height ≤ limit) (round : Bool) :
    ∃ ps, (g.layoutOf drawn).1.primitivesIn α round = .ok ps ∧ Fitting H ps := by
  have hwithin {c : Cell} (hc : c ∈ (g.layoutOf drawn).1.outermost) : c.Within limit :=
    within_of_mem_outermost hc hwidth hheight
  obtain ⟨ps, hps, hfitting⟩ := exists_fitting_connections H round fun e he c hc =>
    hwithin (List.mem_append_right _ (List.mem_flatMap_of_mem he hc))
  refine ⟨_, by rw [Layout.primitivesIn, hps]; rfl, .append (.flatMap fun b hb => ?_) hfitting⟩
  have hlast := hwithin (List.mem_append_left _ (List.mem_map_of_mem hb))
  exact .of_spans (spans_label H hb hlast round) (List.forall_mem_singleton.2 hlast)

end Flow

/-! ## Texts -/

/-- Texts of fewer than `2 ^ 52` lines and characters in a line; there may be a column after the
last character. -/
structure Text.Moderate (text : List Char) : Prop where
  rows : (Text.lines text).length < 2 ^ 52
  columns : ∀ line ∈ Text.lines text, line.length + 1 < 2 ^ 52

/-- Everything found in a text that is not too large fits. -/
theorem Text.Moderate.fitting_primitives {text : List Char} (h : Text.Moderate text)
    {read : Char → Neighbors → Reading} (hread : Faithful read) :
    Fitting Halves.doubles (Scan.ofGrid read (.ofText text)).primitives := by
  refine Scan.fitting_primitives hread (Grid.below_ofText ?_ fun line hline => ?_) _
  · exact Int.le_sub_one_of_lt (by exact_mod_cast h.rows)
  · have hlength := h.columns line hline
    omega

/-- Texts that are drawn in fewer than `2 ^ 52` columns and rows.  What is laid out has labels and
centres that are not too large. -/
def Kind.Moderate (engine : Flow.Engine Measure) (text : List Char) : Kind → Prop
  | .diagram | .tree => Text.Moderate text
  | .flow => ∀ g, (Flow.parse text).result = .ok g → engine.Moderate g ∧
      ∀ l, (Flow.layoutWith engine g).result = .ok l → l.width < 2 ^ 52 ∧ l.height < 2 ^ 52

/-- A flow that the engine draws, and not too large, is drawn as primitives that fit. -/
theorem Kind.exists_flow_primitives {engine : Flow.Engine Measure} {text : List Char}
    {g : Flow.Graph} {drawn : List (Flow.Component × List Cell)}
    (hparse : (Flow.parse text).result = .ok g) (hdrawn : g.drawnBy engine = .ok drawn)
    (hwidth : (g.layoutOf drawn).1.width < 2 ^ 52) (hheight : (g.layoutOf drawn).1.height < 2 ^ 52)
    (round : Bool) :
    ∃ ps, (Kind.flow.primitives engine text round).result = .ok ps ∧
      Fitting Halves.doubles ps := by
  obtain ⟨ps, hps, hfitting⟩ := Flow.exists_fitting Halves.doubles
    (Int.le_sub_one_of_lt hwidth) (Int.le_sub_one_of_lt hheight) round
  rw [Flow.Layout.primitivesIn_measure] at hps
  refine ⟨ps, ?_, hfitting⟩
  rw [primitives, Report.result_bind hparse, Report.result_bind (Flow.result_of_drawnBy hdrawn)]
  exact congrArg (Except.mapError Error.number) hps

/-- A text that is not too large is drawn as primitives that fit, unless it should be a flow and is
none, or the engine fails. -/
theorem Kind.primitives_cases {engine : Flow.Engine Measure} {kind : Kind} {text : List Char}
    (h : kind.Moderate engine text) (round : Bool) :
    (∃ ps, (kind.primitives engine text round).result = .ok ps ∧ Fitting Halves.doubles ps) ∨
      ∃ e, (kind.primitives engine text round).result = .error e ∧
        ((Flow.parse text).result = .error e ∨ ∃ reason, e = .layoutFailed reason) := by
  cases kind with
  | diagram => exact .inl ⟨_, rfl, Text.Moderate.fitting_primitives h Reading.faithful_ofDiagram⟩
  | tree => exact .inl ⟨_, rfl, Text.Moderate.fitting_primitives h Reading.faithful_ofTree⟩
  | flow =>
      cases hparse : (Flow.parse text).result with
      | error e => exact .inr ⟨e, by rw [primitives, Report.bind_result, hparse]; rfl, .inl rfl⟩
      | ok g =>
          obtain ⟨hengine, hsize⟩ := h g hparse
          rcases hengine.drawnBy_cases with ⟨drawn, hdrawn⟩ | ⟨reason, hfailed⟩
          · obtain ⟨hwidth, hheight⟩ := hsize _ (Flow.result_of_drawnBy hdrawn)
            exact .inl (exists_flow_primitives hparse hdrawn hwidth hheight round)
          · refine .inr ⟨.layoutFailed reason, ?_, .inr ⟨reason, rfl⟩⟩
            rw [primitives, Report.result_bind hparse, Report.bind_result, Flow.result_layoutWith,
              hfailed]
            rfl

end CellSketch
