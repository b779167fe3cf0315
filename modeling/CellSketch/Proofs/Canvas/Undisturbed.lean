import CellSketch.Proofs.Canvas.LiveSketch

/-!
# Undisturbed — drawing and taking documents in any order

A document that is asked for leaves fresh overlays in the tree.  They are taken out for the next
one, so that nothing but what is drawn decides what it looks like.  Only an overlay that could not
be finished stays, since it is not yet known as one when it is given up.

* `LiveSketch.Follows.takeDocument` — a live sketch writes the documents that a sketch writes;
* `LiveSketch.document_undisturbed` — asking for sizes and documents changes no later document;
* `LiveSketch.not_undisturbed_unfinished` — unless one of them breaks off inside an overlay.
-/

namespace CellSketch

open Number

/-! ## Documents -/

theorem Context.cell_release {α : Type} (c : Context α) (place : Option Place) :
    (c.release place).cell = c.cell :=
  apply_release (fun _ _ _ => rfl) c place

namespace Svg

namespace Live

variable {l : Live Measure}

/-- Overlays take no room. -/
theorem sizeInPixels_drawn (l : Live Measure) (i : Nat) :
    l.canvas.sizeInPixels i = l.drawn.sizeInPixels i := by
  unfold Canvas.sizeInPixels
  rw [context?_drawn, (sameFrames_drawn l).sizeInCells]
  cases l.canvas.context? i with
  | none => rfl
  | some context =>
      dsimp only [Option.map_some]
      rw [context.cell_release]

/-- The text of a tree with fresh overlays is the one of a document that is built anew. -/
theorem text_render (h : l.drawn.Regular) (hstopped : stopped? l.drawn = none)
    (width height : Int) :
    (l.render.state.sized width height).text = Svg.document l.drawn width height := by
  have hdrawn : l.render.state.drawn = l.drawn := by rw [drawn_render, settled, hstopped]
  have hcell := map_context?_drawn Context.cell_release l.render.state 0
  have hshift : (l.render.state.canvas.context? 0).bind (fun root => crispShift root.cell) =
      (l.drawn.context? 0).bind fun root => crispShift root.cell := by
    rw [hdrawn] at hcell
    have hbind := congrArg (Option.bind · crispShift) hcell
    rw [Option.bind_map, Option.bind_map] at hbind
    exact hbind.symm
  have hroot : (l.render.state.sized width height).root? =
      Svg.root? l.drawn ((l.drawn.context? 0).bind fun root => crispShift root.cell) := by
    have hgroups := groups_render hstopped (fun i hi => h.nests.mem_nested hi) h.layered
      ((l.drawn.context? 0).bind fun root => crispShift root.cell)
    rw [Svg.root?, ← hgroups, ← hshift]
    rfl
  rw [text, hroot, Svg.document, documentXml]
  rfl

end Live

theorem stopped?_of_fault? {c : Canvas Measure} (h : fault? c = none) : stopped? c = none := by
  rw [fault?] at h
  cases hstopped : stopped? c with
  | none => rfl
  | some p =>
      rw [hstopped, Option.bind_some] at h
      rw [stopped?_eq] at hstopped
      obtain ⟨i, -, hi⟩ := List.exists_of_findSome?_eq_some hstopped
      obtain ⟨fault, hfault, rfl⟩ := Option.map_eq_some_iff.1 hi
      exact absurd (hfault.symm.trans h) (by simp)

end Svg

/-- Overlays do not change the size of a document. -/
theorem LiveSketch.size_sketch (l : LiveSketch) {s : Sketch} {tree : Svg.Live Measure}
    (h : tree.drawn = s.canvas) : (l.sketch tree).size = s.size := by
  change ((tree.canvas.sizeInPixels 0).bind _).mapError _ = _
  rw [tree.sizeInPixels_drawn, h]
  rfl

namespace LiveSketch.Follows

variable {l : LiveSketch} {s : Sketch}

theorem sketch_eq (h : Follows l s) (hcanvas : l.used.canvas = s.canvas) :
    l.sketch l.used = s := by
  obtain ⟨format, colors, scale, canvas⟩ := s
  cases h.format
  cases h.colors
  cases h.scale
  cases hcanvas
  rfl

/-- A tree that is written is drawn on as before, but for what is left of an overlay that could not
be finished; and it gives the document of the sketch. -/
theorem written (h : Follows l s) (hs : s.canvas.Regular) (hsvg : s.format = .svg) :
    l.written.2 = s.document ∧ l.written.1.Sound ∧ l.written.1.drawn = Svg.settled s.canvas := by
  have hsound : l.used.render.state.Sound := h.sound.each_refresh _
  have hdrawn : l.used.render.state.drawn = Svg.settled s.canvas := by
    rw [l.used.drawn_render, h.canvas]
  have hfault : l.used.render.fault = Svg.fault? s.canvas := by
    rw [l.used.fault_render, h.canvas]
  rw [LiveSketch.written, Sketch.document, hsvg, hfault]
  dsimp only
  cases hstop : Svg.fault? s.canvas with
  | some fault => exact ⟨rfl, hsound, hdrawn⟩
  | none =>
      -- nothing is stopped, so what is drawn stays, and with it the size
      have hstopped := Svg.stopped?_of_fault? hstop
      have hsettled : Svg.settled s.canvas = s.canvas := by rw [Svg.settled, hstopped]
      have hsize := l.size_sketch (hdrawn.trans hsettled)
      rw [hsize]
      cases s.size with
      | error e => exact ⟨rfl, hsound, hdrawn⟩
      | ok size =>
          obtain ⟨width, height⟩ := size
          have htext := Svg.Live.text_render (h.canvas ▸ hs) (h.canvas ▸ hstopped) width height
          rw [← h.canvas] at htext
          exact ⟨congrArg (fun text => Except.ok (Document.svg text)) htext, hsound, hdrawn⟩

/-- Asking for the document leaves a live sketch as it leaves the sketch, and gives the same. -/
theorem takeDocument (h : Follows l s) (hs : s.canvas.Regular) :
    l.document = s.document ∧ Follows l.takeDocument.1 s.settled := by
  have hsettled : s.settled.format = l.format ∧ s.settled.colors = l.colors ∧
      s.settled.scale = l.scale := by
    unfold Sketch.settled
    split <;> exact ⟨h.format, h.colors, h.scale⟩
  by_cases hsvg : s.format = .svg
  · obtain ⟨hdocument, hsound, hdrawn⟩ := h.written hs hsvg
    have htaken : l.takeDocument = ({ l with tree := some l.written.1 }, l.written.2) := by
      rw [LiveSketch.takeDocument, ← h.format, hsvg]
    rw [LiveSketch.document, htaken]
    refine ⟨hdocument, hsettled.1, hsettled.2.1, hsettled.2.2, ?_, hsound,
      fun hplain => absurd (h.format.symm.trans hsvg) hplain⟩
    rw [Sketch.settled, hsvg]
    exact hdrawn.symm
  · have heq := h.sketch_eq ((h.plain fun hl => hsvg (h.format.trans hl)).trans h.canvas.symm)
    have htaken : l.takeDocument =
        ({ l with tree := some l.used }, (l.sketch l.used).document) := by
      unfold LiveSketch.takeDocument
      split
      · next hl => exact absurd (h.format.trans hl) hsvg
      · rfl
    have hsame : s.settled = s := by
      unfold Sketch.settled
      split
      · contradiction
      · rfl
    rw [LiveSketch.document, htaken, hsame, heq]
    exact ⟨rfl, h.size⟩

end LiveSketch.Follows

/-! ## Runs -/

namespace Sketch

variable {s : Sketch}

theorem showCells_eq (s : Sketch) (shown : Bool) :
    (s.showCells shown).canvas = (s.canvas.perform (.work 0 (.setDebug shown true))).state :=
  s.canvas.modify_eq_attempt 0 _

/-- What operations and cell sizes do not change about a canvas lasts while documents are not asked
for. -/
theorem step_preserves {P : Canvas Measure → Prop}
    (hperform : ∀ c op, P c → P (Canvas.perform c op).state)
    (hresize : ∀ (c : Canvas Measure) i width height, P c →
      P (c.attempt i (·.setCellSize width height)).state)
    (hnonempty : 0 < s.canvas.contexts.size) (h : P s.canvas) {action : Action}
    (hstep : action.changes = true) : P (s.step action).canvas := by
  cases action with
  | setCellSize width height =>
      rw [step_setCellSize hnonempty]
      split
      · exact hresize s.canvas 0 width height h
      · exact h
  | setScale spec =>
      rw [step, setScale]
      split <;> exact h
  | showCells shown =>
      rw [step, showCells_eq]
      exact hperform s.canvas _ h
  | perform op => exact hperform s.canvas op h
  | resize i width height => exact hresize s.canvas i width height h
  | size => cases hstep
  | document => cases hstep

theorem regular_step (h : s.canvas.Regular) (action : Action) : (s.step action).canvas.Regular := by
  cases hchanges : action.changes with
  | true =>
      exact step_preserves (fun _ op hc => hc.perform op)
        (fun _ i width height hc => hc.setCellSize i width height) h.nests.nonempty h hchanges
  | false =>
      cases action with
      | size => exact h
      | document =>
          rw [Sketch.step, settled]
          split
          · exact h.settled
          · exact h
      | _ => cases hchanges

end Sketch

namespace LiveSketch

variable {l : LiveSketch} {s : Sketch}

/-- A live sketch draws what a sketch draws, whatever is done in whatever order. -/
theorem Follows.run (h : Follows l s) (hs : s.canvas.Regular) (actions : List Action) :
    Follows (l.run actions) (s.run actions) ∧ (s.run actions).canvas.Regular := by
  induction actions generalizing l s with
  | nil => exact ⟨h, hs⟩
  | cons action rest ih =>
      refine ih ?_ (Sketch.regular_step hs action)
      cases hchanges : action.changes with
      | true => exact h.step hs hchanges
      | false =>
          cases action with
          | size => exact h.size
          | document => exact (h.takeDocument hs).2
          | _ => cases hchanges

/-- Asking for the document breaks off inside an overlay, which it leaves unfinished. -/
def breaksOff (l : LiveSketch) : Bool :=
  match l.format, Svg.stopped? l.used.drawn with
  | .svg, some (_, ⟨some _, _⟩) => true
  | _, _ => false

/-- No document that is asked for in a list of actions breaks off inside an overlay. -/
def Unbroken (l : LiveSketch) : List Action → Prop
  | [] => True
  | .document :: rest => l.breaksOff = false ∧ (l.step .document).Unbroken rest
  | action :: rest => (l.step action).Unbroken rest

theorem unbroken_cons {action : Action} {rest : List Action} :
    l.Unbroken (action :: rest) ↔
      (action = .document → l.breaksOff = false) ∧ (l.step action).Unbroken rest := by
  cases action <;> simp [Unbroken]

/-- A document that is written does not break off. -/
theorem breaksOff_of_document {document : Document} (h : l.document = .ok document) :
    l.breaksOff = false := by
  unfold breaksOff
  split
  · next i figures fault hsvg hstopped =>
      have hfault : l.used.render.fault ≠ none := fun hnone => by
        rw [l.used.fault_render] at hnone
        rw [Svg.stopped?_of_fault? hnone] at hstopped
        cases hstopped
      obtain ⟨fault, hsome⟩ := Option.ne_none_iff_exists'.1 hfault
      rw [LiveSketch.document, LiveSketch.takeDocument, hsvg] at h
      dsimp only [written] at h
      rw [hsome] at h
      cases h
  · rfl

/-- Nothing breaks off if all documents that are asked for are written. -/
theorem unbroken_of_written {actions : List Action}
    (h : ∀ before after, actions = before ++ .document :: after →
      ∃ document, (l.run before).document = .ok document) : l.Unbroken actions := by
  induction actions generalizing l with
  | nil => trivial
  | cons action rest ih =>
      refine unbroken_cons.2 ⟨fun hstep => ?_, ih fun before after hrest => ?_⟩
      · obtain ⟨document, hdocument⟩ := h [] rest (by rw [hstep]; rfl)
        exact breaksOff_of_document hdocument
      · exact h (action :: before) after (by rw [hrest]; rfl)

theorem format_step (l : LiveSketch) (action : Action) : (l.step action).format = l.format := by
  cases action with
  | setCellSize width height =>
      rw [LiveSketch.step]
      split <;> rfl
  | setScale spec =>
      rw [LiveSketch.step]
      split <;> rfl
  | document =>
      rw [LiveSketch.step, LiveSketch.takeDocument]
      split <;> rfl
  | _ => rfl

/-- Documents of commands leave nothing unfinished. -/
theorem unbroken_of_format (h : l.format ≠ .svg) (actions : List Action) : l.Unbroken actions := by
  induction actions generalizing l with
  | nil => trivial
  | cons action rest ih =>
      refine unbroken_cons.2 ⟨fun _ => ?_, ih ((l.format_step action).symm ▸ h)⟩
      unfold breaksOff
      split
      · next hsvg _ => exact absurd hsvg h
      · rfl

theorem Follows.settled_eq (h : Follows l s) (hl : l.breaksOff = false) : s.settled = s := by
  rw [breaksOff, ← h.format, ← h.canvas] at hl
  unfold Sketch.settled
  split
  · next hsvg =>
      have hsettled : Svg.settled s.canvas = s.canvas := by
        unfold Svg.settled
        split
        · next hstopped =>
            rw [hsvg, hstopped] at hl
            cases hl
        · rfl
      rw [hsettled]
  · rfl

/-- What is asked for can be left out of the actions. -/
theorem Follows.run_filter (h : Follows l s) (hs : s.canvas.Regular) {actions : List Action}
    (hactions : l.Unbroken actions) : s.run actions = s.run (actions.filter Action.changes) := by
  induction actions generalizing l s with
  | nil => rfl
  | cons action rest ih =>
      obtain ⟨hdocument, hrest⟩ := unbroken_cons.1 hactions
      have hstep : Follows (l.step action) (s.step action) := (h.run hs [action]).1
      have hsame := ih hstep (Sketch.regular_step hs action) hrest
      cases hchanges : action.changes with
      | true =>
          rw [List.filter_cons_of_pos hchanges]
          exact hsame
      | false =>
          -- what only asks leaves the sketch as it was; the rest is run from there
          have hback : s.step action = s := by
            cases action with
            | size => rfl
            | document => exact h.settled_eq (hdocument rfl)
            | _ => cases hchanges
          rw [hback] at hsame
          rw [List.filter_cons_of_neg (by simp [hchanges])]
          change (s.step action).run rest = _
          rw [hback]
          exact hsame

end LiveSketch

/-! ## Asking twice -/

theorem Svg.trace_keep {α : Type} [Scalar α] (c : Context α)
    (figures : Option (List (Figure α))) (size : Int × Int) :
    trace (c.keep figures) size = trace c size :=
  Context.apply_keep (g := fun context => trace context size) (fun _ _ _ => rfl) c figures

/-- What is left of an overlay does not change what stops the next document. -/
theorem Svg.stopped?_keep {α : Type} [Scalar α] (c : Canvas α) (i : Nat)
    (figures : Option (List (Figure α))) :
    stopped? (c.modify i (·.keep figures)) = stopped? c := by
  have hframes : (c.modify i (·.keep figures)).SameFrames c :=
    Canvas.sameFrames_of_context? fun j => by
      rw [c.modify_eq_attempt]
      exact Canvas.map_context?_attempt (fun context => context.frame_keep figures) c i j
  have htrace (j : Nat) : traceAt (c.modify i (·.keep figures)) j = traceAt c j := by
    rw [traceAt, traceAt, Canvas.context?_modify, hframes.sizeInCells]
    by_cases hj : j = i
    · rw [if_pos hj, hj]
      cases c.context? i with
      | none => rfl
      | some context => exact trace_keep context figures _
    · rw [if_neg hj]
  simp only [stopped?_eq, hframes.nested, htrace]

theorem Svg.fault?_settled {α : Type} [Scalar α] (c : Canvas α) :
    fault? (settled c) = fault? c := by
  rw [fault?, fault?]
  unfold settled
  split
  · next i figures _ _ =>
      exact congrArg (Option.bind · fun p => p.2.fault) (stopped?_keep c i (some figures))
  · rfl

/-- Asking for the document again gives the same, even if it cannot be written. -/
theorem Sketch.document_settled (s : Sketch) : s.settled.document = s.document := by
  unfold settled
  split
  · next hsvg =>
      cases hfault : Svg.fault? s.canvas with
      | some fault =>
          rw [document, document, hsvg]
          dsimp only
          rw [Svg.fault?_settled, hfault]
      | none =>
          rw [Svg.settled, Svg.stopped?_of_fault? hfault]
  · rfl

/-! ## Nothing is disturbed -/

/-- Actions that ask for nothing leave nothing unfinished. -/
theorem Sketch.tidy_run {s : Sketch} (hs : s.canvas.Regular) (h : s.canvas.Tidy)
    {actions : List Action} (hactions : ∀ action ∈ actions, action.changes = true) :
    (s.run actions).canvas.Tidy := by
  induction actions generalizing s with
  | nil => exact h
  | cons action rest ih =>
      refine ih (regular_step hs action) ?_ fun later hmem =>
        hactions later (List.mem_cons_of_mem _ hmem)
      refine step_preserves (fun _ op hc => hc.perform op) (fun c i width height hc => ?_)
        hs.nests.nonempty h (hactions action List.mem_cons_self)
      exact Canvas.forall_attempt (fun _ hcontext => hcontext.setCellSize width height) hc i

/-- A document of elements that can be written is the one of the canvas, and nothing stops it. -/
theorem Sketch.document_svg {s : Sketch} (hsvg : s.format = .svg) {document : Document}
    (h : s.document = .ok document) :
    Svg.stopped? s.canvas = none ∧
      ∃ width height, document = .svg (Svg.document s.canvas width height) := by
  rw [Sketch.document, hsvg] at h
  dsimp only at h
  cases hfault : Svg.fault? s.canvas with
  | some fault =>
      rw [hfault] at h
      cases h
  | none =>
      rw [hfault] at h
      refine ⟨Svg.stopped?_of_fault? hfault, ?_⟩
      cases hsize : s.size with
      | error e =>
          rw [hsize] at h
          cases h
      | ok size =>
          rw [hsize] at h
          cases h
          exact ⟨size.1, size.2, rfl⟩

/-- A document that can be written has an overlay for each context that shows its cells. -/
theorem Sketch.document_grouped {s : Sketch} (hs : s.canvas.Regular) (htidy : s.canvas.Tidy)
    (hsvg : s.format = .svg) {document : Document} (h : s.document = .ok document) :
    ∃ groups root width height, groups.head? = some root ∧
      document = .svg (Svg.declaration ++ (Svg.page (some root) width height).write) ∧
      (Svg.page (some root) width height).debugGroups =
        s.canvas.contexts.toList.countP (fun context => context.debug != .off) ∧
      Svg.Grouped s.canvas groups := by
  obtain ⟨hstopped, width, height, rfl⟩ := Sketch.document_svg hsvg h
  let shift := (s.canvas.context? 0).bind fun root => Svg.crispShift root.cell
  have hgrouped := Svg.grouped_contextsFrom hs.nests htidy hstopped shift
  obtain ⟨root, hroot⟩ := Svg.exists_root hs.nests.nonempty shift
  refine ⟨_, root, width, height, hroot, ?_, ?_, hgrouped⟩
  · rw [Svg.document, Svg.documentXml, hroot]
  · rw [Xml.debugGroups_page]
    exact hgrouped.total root hroot

namespace LiveSketch

/-- Asking for sizes and documents disturbs neither the drawing nor any later document. -/
theorem document_undisturbed (format : Format) (colors : Colors) (actions : List Action)
    (hactions : (empty format colors).Unbroken actions) :
    let live := (empty format colors).run actions
    let sketch := (Sketch.empty format colors).run actions
    sketch = (Sketch.empty format colors).run (actions.filter Action.changes) ∧
      live.document = sketch.document ∧
      live.document = ((empty format colors).run (actions.filter Action.changes)).document ∧
      live.takeDocument.1.document = live.document ∧
      (format = .svg → ∀ document, live.document = .ok document →
        ∃ groups root width height, groups.head? = some root ∧
          document = .svg (Svg.declaration ++ (Svg.page (some root) width height).write) ∧
          (Svg.page (some root) width height).debugGroups =
            sketch.canvas.contexts.toList.countP (fun context => context.debug != .off) ∧
          Svg.Grouped sketch.canvas groups) := by
  have hempty := follows_empty format colors
  have hregular := regular_empty format colors
  obtain ⟨hlive, hsketch⟩ := hempty.run hregular actions
  obtain ⟨hfiltered, hfilteredRegular⟩ := hempty.run hregular (actions.filter Action.changes)
  have hsame := hempty.run_filter hregular hactions
  obtain ⟨hdocument, htaken⟩ := hlive.takeDocument hsketch
  have hsettled : ((Sketch.empty format colors).run actions).settled.canvas.Regular :=
    Sketch.regular_step hsketch .document
  refine ⟨hsame, hdocument, ?_, ?_, fun hsvg document hok => ?_⟩
  · rw [hdocument, (hfiltered.takeDocument hfilteredRegular).1, hsame]
  · rw [(htaken.takeDocument hsettled).1, Sketch.document_settled, hdocument]
  · have htidy : ((Sketch.empty format colors).run actions).canvas.Tidy := by
      rw [hsame]
      exact Sketch.tidy_run hregular (tidy_empty format colors)
        fun _ hmem => List.of_mem_filter hmem
    have hformat : ((Sketch.empty format colors).run actions).format = .svg := by
      rw [Sketch.format_run]
      exact hsvg
    exact Sketch.document_grouped hsketch htidy hformat (hdocument ▸ hok)

/-- The colours of the example drawings. -/
def inked : Colors where
  background := "white"
  foreground := "black"

/-- Contexts inside contexts are created, moved and drawn on, and documents are taken in between. -/
def interleavedActions : List Action :=
  [.size, .setCellSize (.whole 8) (.whole 16), .showCells true, .document,
    .perform (.addContext 0), .perform (.work 1 (.translate 2 1)), .document,
    .perform (.work 1 (.draw [.text ⟨0, 0⟩ "hi"])), .perform (.addContext 1), .document, .size,
    .perform (.work 1 (.setDebug false true)), .document,
    .perform (.work 0 (.setStroke { width := some (.whole 2) }))]

theorem document_undisturbed_interleaved :
    (empty .svg inked).Unbroken interleavedActions ∧
      ∃ document root width height,
        ((empty .svg inked).run interleavedActions).document = .ok document ∧
        ((empty .svg inked).run (interleavedActions.filter Action.changes)).document =
          .ok document ∧
        document = .svg (Svg.declaration ++ (Svg.page (some root) width height).write) ∧
        (Svg.page (some root) width height).debugGroups = 2 := by
  have hactions : (empty .svg inked).Unbroken interleavedActions :=
    ⟨by decide +kernel, by decide +kernel, by decide +kernel, by decide +kernel, trivial⟩
  obtain ⟨-, hsketch, hfiltered, -, hgroups⟩ :=
    document_undisturbed .svg inked interleavedActions hactions
  have hwritten :
      ((Sketch.empty .svg inked).run interleavedActions).document.toOption.isSome = true := by
    decide +kernel
  obtain ⟨document, hdocument⟩ : ∃ document,
      ((Sketch.empty .svg inked).run interleavedActions).document = .ok document := by
    cases h : ((Sketch.empty .svg inked).run interleavedActions).document with
    | ok document => exact ⟨document, rfl⟩
    | error e =>
        rw [h] at hwritten
        cases hwritten
  obtain ⟨groups, root, width, height, -, htext, hcount, -⟩ :=
    hgroups rfl document (hsketch.trans hdocument)
  have hshown : ((Sketch.empty .svg inked).run interleavedActions).canvas.contexts.toList.countP
      (fun context => context.debug != .off) = 2 := by decide +kernel
  exact ⟨hactions, document, root, width, height, hsketch.trans hdocument,
    hfiltered.symm.trans (hsketch.trans hdocument), htext, hcount.trans hshown⟩

/-- The cells are shown while the stroke is too wide to be written, and hidden after a document was
asked for. -/
def unfinishedActions : List Action :=
  [.setCellSize (.whole 7) (.whole 9), .showCells true,
    .perform (.work 0 (.setStroke { width := some (.whole (10 ^ 400)) })), .document,
    .showCells false]

/-- An overlay that was given up stays in all later documents. -/
theorem not_undisturbed_unfinished :
    ¬ ∀ (format : Format) (colors : Colors) (actions : List Action),
      ((empty format colors).run actions).document =
        ((empty format colors).run (actions.filter Action.changes)).document := by
  intro h
  -- there is a group for the overlay in one of the documents, though no cells are shown
  have hdiffer : ((empty .svg inked).run unfinishedActions).document ≠
      ((empty .svg inked).run (unfinishedActions.filter Action.changes)).document := by
    decide +kernel
  exact hdiffer (h .svg inked unfinishedActions)

end LiveSketch

end CellSketch
