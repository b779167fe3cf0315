import CellSketch.Proofs.Canvas.Names
import CellSketch.Proofs.Canvas.WrittenOut
import CellSketch.Proofs.Svg.WellFormed
import CellSketch.Render

/-!
# DiagramTexts — the documents of diagrams hold their text

A diagram is scanned, and the marks, texts and lines that were found are drawn one after the other.
Its document is therefore a tree with one text element for each text that was found.  Everything
else in it is fixed or a number, so that whether a document may hold all of its characters depends
on these texts alone.

* `Svg.root?_ofRoot` — a drawing on a new sketch is one group of figures;
* `Svg.diagram_document` — there are documents, which are read back and hold the texts of the scan,
  and all of their characters are legal just if those of the texts are;
* `Svg.diagram_document_not_legal` — which control characters are not, though they are no blanks.
-/

namespace CellSketch

open Number

/-! ## Documents -/

namespace Xml

/-- The element of a document: a declaration and one element. -/
def readDocument? (cs : List Char) : Option Xml :=
  (cs.dropPrefix? Svg.declaration.toList).bind read?

theorem readDocument?_write {x : Xml} (h : x.WellNamed) :
    readDocument? (Svg.declaration ++ x.write).toList = some x := by
  have hdrop : (Svg.declaration ++ x.write).toList.dropPrefix? Svg.declaration.toList =
      some x.write.toList := by
    rw [List.dropPrefix?_eq_some_iff, String.toList_append]
    exact ⟨_, rfl, beq_self_eq_true _⟩
  rw [readDocument?, hdrop, Option.bind_some, read?_write h]

end Xml

/-! ## Scans -/

namespace Scan

variable {α : Type}

theorem string?_mark (m : Mark) : (m.primitive : Primitive α).string? = none := by
  obtain ⟨cell, form⟩ := m
  cases form <;> rfl

/-- Text is all that a scan draws from strings. -/
theorem string?_primitives (s : Scan) :
    (s.primitives : List (Primitive α)).filterMap Primitive.string? =
      s.texts.toList.map (String.ofList ·.text) := by
  have hmarks :
      (s.marks.toList.map (Mark.primitive (α := α))).filterMap Primitive.string? = [] := by
    rw [List.filterMap_map, List.filterMap_eq_nil_iff]
    exact fun m _ => string?_mark m
  have htexts : (s.texts.toList.map (TextRun.primitive (α := α))).filterMap Primitive.string? =
      s.texts.toList.map (String.ofList ·.text) := by
    rw [List.filterMap_map, ← List.filterMap_eq_map]
    rfl
  have hlines : (s.lines.toList.map (LineRun.primitive (α := α))).filterMap Primitive.string? =
      [] := by
    rw [List.filterMap_map, List.filterMap_eq_nil_iff]
    exact fun _ _ => rfl
  rw [primitives, List.filterMap_append, List.filterMap_append, hmarks, htexts, hlines,
    List.nil_append, List.append_nil]

theorem ne_path_of_mem_primitives {s : Scan} {p : Primitive α} (hp : p ∈ s.primitives)
    (outline : String) : p ≠ .path outline := by
  rintro rfl
  simp only [primitives, List.mem_append, List.mem_map] at hp
  rcases hp with (⟨m, -, hm⟩ | ⟨t, -, ht⟩) | ⟨l, -, hl⟩
  · have hstring := string?_mark (α := α) m
    rw [hm] at hstring
    cases hstring
  · cases ht
  · cases hl

end Scan

/-! ## Drawings on new sketches -/

/-- Drawing on the only context of a sketch. -/
theorem Sketch.draw_ofRoot {s drawn : Sketch} {root : Context Measure}
    (hroot : s.canvas = .ofRoot root) {ps : List (Primitive Measure)}
    (h : s.draw 0 ps = .ok drawn) :
    (root.drawAll ps).fault = none ∧
      drawn = { s with canvas := .ofRoot (root.drawAll ps).state } := by
  have hall : s.drawAll 0 ps = (root.drawAll ps).map fun c => { s with canvas := .ofRoot c } := by
    rw [drawAll, hroot]
    rfl
  rw [draw, hall] at h
  generalize root.drawAll ps = done at h ⊢
  obtain ⟨state, fault⟩ := done
  cases fault with
  | none =>
      cases h
      exact ⟨rfl, rfl⟩
  | some fault => cases h

namespace Svg

/-- The figures of primitives in cells of a size and a style. -/
def figuresOf (size : CellSize Measure) (style : Style Measure) (ps : List (Primitive Measure)) :
    List (Figure Measure) :=
  (ps.flatMap (·.shapes size style)).map fun s => ⟨s, style.look size.height⟩

theorem ofItems_figures {base : Nat} {others : List (Element Measure)}
    (figures : List (Figure Measure)) :
    ofItems base others (figures.map .figure) = figures.map .figure := by
  induction figures with
  | nil => rfl
  | cons f rest ih => exact congrArg (.figure f :: ·) ih

/-- The group of a context on which there is nothing but figures. -/
theorem root?_ofRoot {root : Context Measure} {figures : List (Figure Measure)}
    (hitems : root.items.toList = figures.map .figure) (hleftovers : root.leftovers = #[])
    (hdebug : root.debug = .off) (shift : Option (Measure × Measure)) :
    root? (.ofRoot root) shift = some (.group shift (figures.map .figure)) := by
  have htrace (size : Int × Int) : (trace root size).figures = none := by
    rw [trace, if_pos hdebug]
  have hgroup (size : Int × Int) :
      ofContext 0 root size shift [] = .group shift (figures.map .figure) := by
    rw [ofContext, hitems, hleftovers, htrace, ofItems_figures]
    simp
  exact congrArg some (hgroup _)

/-- The document of a drawing on a new sketch is one group of figures. -/
theorem document_drawn {colors : Colors} {scale : Option String} {wide high : Float}
    {ps : List (Primitive Measure)} {drawn : Sketch} {document : Document}
    (hdrawn : (Sketch.fresh .svg colors scale wide high false).draw 0 ps = .ok drawn)
    (h : drawn.document = .ok document) :
    ∃ shift width height, document = .svg (declaration ++
      (page (some (.group shift ((figuresOf (.of (.real wide) (.real high))
        (.ofColors colors.background colors.foreground colors.fill) ps).map .figure)))
        width height).write) := by
  obtain ⟨hfault, rfl⟩ := Sketch.draw_ofRoot rfl hdrawn
  obtain ⟨width, height, hstate⟩ := Context.state_drawAll hfault
  unfold Sketch.document at h
  dsimp only [Sketch.fresh] at h hstate
  split at h
  · cases h
  · obtain ⟨⟨w, high⟩, -, rfl⟩ := exists_of_map_eq_ok h
    refine ⟨_, w, high, congrArg (fun root => Document.svg (declaration ++
      (page root w high).write)) (root?_ofRoot ?_ ?_ ?_ _)⟩
    · rw [hstate]
      simp [Context.figures, figuresOf, List.map_map]
    · rw [hstate]
    · rw [hstate]
      rfl

/-- The style of a sketch for which no colours were chosen. -/
def plainStyle : Style Measure :=
  .ofColors Colors.default.background Colors.default.foreground Colors.default.fill

/-- The figures of a scan are no outlines, and their looks are black and white. -/
theorem allLegible_scan (scan : Scan) (size : CellSize Measure) :
    AllLegible (figuresOf size plainStyle scan.primitives) := by
  refine List.forall_mem_map.2 fun s hs => ?_
  obtain ⟨p, hp, hs⟩ := List.mem_flatMap.1 hs
  refine ⟨Primitive.ne_path_of_mem_shapes (Scan.ne_path_of_mem_primitives hp) hs,
    ⟨(by decide : Spelled _ Colors.default.foreground),
      (by decide : Spelled _ Colors.default.fill), (by decide : Spelled _ defaultFamily)⟩,
    fun n hn => ?_⟩
  rcases Primitive.ownFill_shapes hs (Option.mem_toList.1 hn) with rfl | rfl | rfl
  all_goals decide

/-- The strings of its figures are the texts of a scan. -/
theorem strings_scan (scan : Scan) (size : CellSize Measure) (style : Style Measure) :
    (figuresOf size style scan.primitives).flatMap (·.shape.string?.toList) =
      scan.texts.toList.map (String.ofList ·.text) := by
  rw [← scan.string?_primitives (α := Measure), figuresOf, List.flatMap_map,
    List.filterMap_eq_flatMap_toList, List.flatMap_assoc]
  refine List.flatMap_congr fun p _ => ?_
  rw [← p.string?_shapes size style, List.filterMap_eq_flatMap_toList]

/-- A diagram that is rendered was drawn on a new sketch. -/
theorem exists_drawn {α : Type} [Scalar α] {engine : Flow.Engine α} {fs : FileSystem}
    {text : List Char} {o : Options} {document : Document}
    (h : (render engine fs .diagram text o).result = .ok document) :
    ∃ s drawn, (Sketch.ofOptions o).result = .ok s ∧
      s.draw 0 (Scan.ofDiagram text).primitives = .ok drawn ∧ drawn.document = .ok document := by
  obtain ⟨s, hs, h⟩ := Report.exists_of_result_bind h
  obtain ⟨source, hsource, h⟩ := Report.exists_of_result_bind h
  cases hsource
  obtain ⟨drawn, hdrawn, h⟩ := Report.exists_of_result_bind h
  exact ⟨s, drawn, hs, hdrawn, h⟩

/-- Diagrams of moderate size are rendered. -/
theorem exists_document {α : Type} [Scalar α] (engine : Flow.Engine α) {fs : FileSystem}
    {text : List Char} {o : Options} {colors : Colors}
    (hcolors : Colors.resolve o.theme o.background o.foreground = .ok colors)
    (hscale : ∀ given, o.scale = some given → given = "" ∨ Spec.isScale given.toList)
    (hwidth : o.cellSize.1.Moderate) (hheight : o.cellSize.2.Moderate)
    (htext : Text.Moderate text) :
    ∃ document, (render engine fs .diagram text o).result = .ok document := by
  obtain ⟨s, hs, M⟩ := Sketch.exists_ofOptions hcolors hscale hwidth hheight
  have hprimitives : (Kind.diagram.primitives engine text o.round).result =
      .ok (Scan.ofDiagram text).primitives := rfl
  obtain ⟨drawn, hdrawn, M'⟩ :=
    M.exists_drawText hprimitives (htext.fitting_primitives Reading.faithful_ofDiagram)
  obtain ⟨document, hdocument⟩ := M'.exists_document
  have hsource : (fs.sourceText .diagram text).result = .ok text := rfl
  refine ⟨document, ?_⟩
  rw [render, renderSource, Report.result_bind hs, Report.result_bind hsource,
    Report.result_bind hdrawn]
  exact hdocument

/-- A diagram of moderate size is rendered.  The document of a diagram, in black and white and
without the cells, is well-formed but for its characters and holds the texts that were found, in
order.  All of its characters are legal just if all characters of these texts are. -/
theorem diagram_document {α : Type} [Scalar α] (engine : Flow.Engine α) (fs : FileSystem)
    (text : List Char) {o : Options}
    (hformat : o.format = some "svg") (htheme : o.theme = none) (hbackground : o.background = none)
    (hforeground : o.foreground = none) (hdebug : o.debug = false) :
    ((∀ given, o.scale = some given → given = "" ∨ Spec.isScale given.toList) →
      o.cellSize.1.Moderate → o.cellSize.2.Moderate → Text.Moderate text →
        ∃ document, (render engine fs .diagram text o).result = .ok document) ∧
    ∀ document, (render engine fs .diagram text o).result = .ok document → ∃ x : Xml,
      document = .svg (declaration ++ x.write) ∧
      Xml.readDocument? document.text.toList = some x ∧
      x.texts = (Scan.ofDiagram text).texts.toList.map (String.ofList ·.text) ∧
      (Spelled Xml.IsLegal document.text ↔
        ∀ t ∈ (Scan.ofDiagram text).texts.toList, Spelled Xml.IsLegal (String.ofList t.text)) := by
  have hblack : Colors.resolve o.theme o.background o.foreground = .ok Colors.default := by
    rw [htheme, hbackground, hforeground]
    rfl
  refine ⟨fun hscale hwidth hheight htext =>
    exists_document engine hblack hscale hwidth hheight htext,
    fun document h => ?_⟩
  obtain ⟨s, drawn, hs, hdrawn, hdocument⟩ := exists_drawn h
  obtain ⟨colors, scale, wide, high, hcolors, rfl⟩ := Sketch.eq_ofOptions hs
  have hdefault : colors = Colors.default := Except.ok.inj (hcolors.symm.trans hblack)
  rw [hformat, hdebug, hdefault] at hdrawn
  obtain ⟨shift, width, height, rfl⟩ := document_drawn hdrawn hdocument
  have hlegible := allLegible_scan (Scan.ofDiagram text) (.of (.real wide) (.real high))
  have hstrings :=
    strings_scan (Scan.ofDiagram text) (.of (.real wide) (.real high)) plainStyle
  refine ⟨_, rfl, Xml.readDocument?_write (wellNamed_page _ _ _), ?_, ?_⟩
  · exact (texts_page hlegible _ _ _).trans hstrings
  · have hdeclaration : Spelled Xml.IsLegal declaration := by decide
    change Spelled Xml.IsLegal (declaration ++ Xml.write _) ↔ _
    rw [Spelled.append_iff, Xml.legal_write_iff (wellNamed_page _ _ _), and_iff_right hdeclaration]
    refine (legal_page_iff hlegible _ _ _).trans ?_
    rw [hstrings, List.forall_mem_map]

/-- Text with markup characters over a line. -/
def markedUp : List Char := "<a> & \"b\"\n ---->".toList

theorem diagram_document_markedUp : ∃ (document : Document) (x : Xml),
    (render Flow.forkEngine ⟨.empty, []⟩ .diagram markedUp {}).result = .ok document ∧
      Xml.readDocument? document.text.toList = some x ∧ x.texts = ["<a>", "&", "\"b\""] ∧
      Spelled Xml.IsLegal document.text := by
  have hscan : (Scan.ofDiagram markedUp).texts.toList =
      [⟨⟨0, 0⟩, "<a>".toList⟩, ⟨⟨4, 0⟩, ['&']⟩, ⟨⟨6, 0⟩, "\"b\"".toList⟩] := by
    decide +kernel
  have htext : Text.Moderate markedUp := ⟨by decide, by decide⟩
  obtain ⟨hwidth, hheight⟩ := Options.moderate_cellSize (o := {}) nofun nofun
  obtain ⟨hrendered, hdocument⟩ :=
    diagram_document Flow.forkEngine ⟨.empty, []⟩ markedUp (o := {}) rfl rfl rfl rfl rfl
  obtain ⟨document, h⟩ := hrendered nofun hwidth hheight htext
  obtain ⟨x, -, hread, htexts, hlegal⟩ := hdocument document h
  rw [hscan] at htexts hlegal
  exact ⟨document, x, h, hread, htexts, hlegal.2 (by decide)⟩

/-- An escape character is no blank, and is handed on from the text to the document. -/
theorem diagram_document_not_legal : ∃ document,
    (render Flow.forkEngine ⟨.empty, []⟩ .diagram ['\x1b'] {}).result = .ok document ∧
      ¬ Spelled Xml.IsLegal document.text := by
  have hillegal : ((render Flow.forkEngine ⟨.empty, []⟩ .diagram ['\x1b'] {}).result.toOption.any
      fun document => decide ('\x1b' ∈ document.text.toList)) = true := by
    decide +kernel
  cases h : (render Flow.forkEngine ⟨.empty, []⟩ .diagram ['\x1b'] {}).result with
  | error e =>
      rw [h] at hillegal
      cases hillegal
  | ok document =>
      rw [h] at hillegal
      exact ⟨document, rfl, fun hall => absurd (hall _ (of_decide_eq_true hillegal)) (by decide)⟩

end Svg

end CellSketch
