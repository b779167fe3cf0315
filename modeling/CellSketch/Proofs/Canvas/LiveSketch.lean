import CellSketch.Proofs.Canvas.DebugGroups
import CellSketch.Sketch

/-!
# LiveSketch — a sketch that is kept as a tree

A sketch can be kept as one tree from its first use to its last document.  The outermost context is
created when it is needed for the first time, by drawing or by asking for a size or a document, with
the settings of that time; settings made later are passed on to it.

* `Canvas.Regular.perform` — whatever is drawn, contexts are nested and overlays come last;
* `LiveSketch.used_setCellSize` — settings reach a tree that is created later;
* `LiveSketch.Follows.step` — a live sketch draws what a sketch draws.
-/

namespace CellSketch

open Number

/-! ## Actions -/

/-- What is done with a sketch. -/
inductive Action where
  | setCellSize (width height : Measure)
  | setScale (spec : String)
  | showCells (shown : Bool)
  /-- An operation on the contexts. -/
  | perform (op : Op Measure)
  /-- A new cell size for one context. -/
  | resize (context : Nat) (width height : Measure)
  /-- Asking for the size in pixels. -/
  | size
  /-- Asking for the document. -/
  | document

/-- Everything but asking. -/
def Action.changes : Action → Bool
  | .size | .document => false
  | _ => true

namespace Sketch

/-- A sketch after an action.  Settings that are refused are not made; drawing that is stopped
stays. -/
def step (s : Sketch) : Action → Sketch
  | .setCellSize width height => (s.setCellSize width height).toOption.getD s
  | .setScale spec => (s.setScale spec).toOption.getD s
  | .showCells shown => s.showCells shown
  | .perform op => { s with canvas := (s.canvas.perform op).state }
  | .resize i width height =>
      { s with canvas := (s.canvas.attempt i (·.setCellSize width height)).state }
  | .size => s
  | .document => s.settled

def run (s : Sketch) (actions : List Action) : Sketch := actions.foldl step s

/-- Format and colours of a sketch are settled when it is created. -/
theorem settings_step (s : Sketch) (action : Action) :
    (s.step action).format = s.format ∧ (s.step action).colors = s.colors := by
  cases action with
  | setCellSize width height =>
      rw [Sketch.step, setCellSize]
      split <;> exact ⟨rfl, rfl⟩
  | setScale spec =>
      rw [Sketch.step, setScale]
      split <;> exact ⟨rfl, rfl⟩
  | document =>
      rw [Sketch.step, settled]
      split <;> exact ⟨rfl, rfl⟩
  | _ => exact ⟨rfl, rfl⟩

theorem settings_run (s : Sketch) (actions : List Action) :
    (s.run actions).format = s.format ∧ (s.run actions).colors = s.colors := by
  induction actions generalizing s with
  | nil => exact ⟨rfl, rfl⟩
  | cons action rest ih =>
      obtain ⟨hformat, hcolors⟩ := s.settings_step action
      obtain ⟨hformat', hcolors'⟩ := ih (s.step action)
      exact ⟨hformat'.trans hformat, hcolors'.trans hcolors⟩

theorem format_step (s : Sketch) (action : Action) : (s.step action).format = s.format :=
  (s.settings_step action).1

theorem format_run (s : Sketch) (actions : List Action) : (s.run actions).format = s.format :=
  (s.settings_run actions).1

theorem colors_run (s : Sketch) (actions : List Action) : (s.run actions).colors = s.colors :=
  (s.settings_run actions).2

end Sketch

/-! ## Live sketches -/

namespace Svg.Live

/-- The tree with what a document of `width` by `height` pixels writes into the outermost group and
into the root. -/
def sized (l : Live Measure) (width height : Int) : Live Measure :=
  { l with
    shift := (l.canvas.context? 0).bind fun root => crispShift root.cell
    extent := (width, height) }

/-- The text of the tree as it is kept. -/
def text (l : Live Measure) : String :=
  declaration ++ (page l.root? l.extent.1 l.extent.2).write

end Svg.Live

/-- A sketch that is kept as a tree once its outermost context was used. -/
structure LiveSketch where
  format : Format
  colors : Colors
  scale : Option String := none
  cellSize : Measure × Measure := (.real 10.0, .real 15.0)
  shown : Bool := false
  tree : Option (Svg.Live Measure) := none

namespace LiveSketch

/-- The outermost context with the settings of now. -/
def root (l : LiveSketch) : Context Measure where
  cell := .of l.cellSize.1 l.cellSize.2
  debug := .of l.shown true
  styling := match l.format with
    | .svg => .perShape
    | _ => .perChange
  style := .ofColors l.colors.background l.colors.foreground l.colors.fill

/-- The tree, created now if there is none. -/
def used (l : LiveSketch) : Svg.Live Measure := l.tree.getD { canvas := .ofRoot l.root }

/-- The canvas of the tree as a sketch. -/
def sketch (l : LiveSketch) (tree : Svg.Live Measure) : Sketch where
  format := l.format
  colors := l.colors
  scale := l.scale
  canvas := tree.canvas

/-- Writes the tree with fresh overlays, as far as that is possible. -/
def written (l : LiveSketch) : Svg.Live Measure × Except Error Document :=
  let rendered := l.used.render
  match rendered.fault with
  | some fault => (rendered.state, .error (.number fault))
  | none =>
      match (l.sketch rendered.state).size with
      | .error e => (rendered.state, .error e)
      | .ok (width, height) =>
          let tree := rendered.state.sized width height
          (tree, .ok (.svg tree.text))

/-- Asks for the document.  Only elements are kept; commands are written anew. -/
def takeDocument (l : LiveSketch) : LiveSketch × Except Error Document :=
  match l.format with
  | .svg => ({ l with tree := some l.written.1 }, l.written.2)
  | _ => ({ l with tree := some l.used }, (l.sketch l.used).document)

/-- The document of now. -/
def document (l : LiveSketch) : Except Error Document := l.takeDocument.2

/-- A live sketch after an action. -/
def step (l : LiveSketch) : Action → LiveSketch
  | .setCellSize width height =>
      -- both numbers are measured before anything is changed
      if Scalar.firstFault? [Scalar.measure width, Scalar.measure height] = none then
        { l with
          cellSize := (Scalar.measure width, Scalar.measure height)
          tree := l.tree.map fun tree => (tree.attempt 0 (·.setCellSize width height)).state }
      else l
  | .setScale spec => if Spec.isScale spec.toList then { l with scale := some spec } else l
  | .showCells shown =>
      { l with
        shown := shown
        tree := l.tree.map fun tree =>
          (tree.attempt 0 fun root => ⟨root.setDebug shown true, none⟩).state }
  | .perform op => { l with tree := some (l.used.perform op).state }
  | .resize i width height =>
      { l with tree := some (l.used.attempt i (·.setCellSize width height)).state }
  | .size => { l with tree := some l.used }
  | .document => l.takeDocument.1

def run (l : LiveSketch) (actions : List Action) : LiveSketch := actions.foldl step l

end LiveSketch

/-! ## Regular canvases -/

section Regular

variable {α : Type}

namespace Context

theorem Blind.layered {f : Context α → Attempt (Context α)} (hf : Blind f) {c : Context α}
    (h : c.Layered) : (f c).state.Layered := by
  rw [← onto_bare c, hf]
  refine h.imp id fun hshift => ?_
  change (c.items ++ (f c.bare).state.items).any Item.isShift = true
  rw [Array.any_append, hshift, Bool.true_or]

theorem Layered.keep {c : Context α} (h : c.Layered) (figures : Option (List (Figure α))) :
    (c.keep figures).Layered := by
  cases figures with
  | none => exact h
  | some figures =>
      change (c.keepUnfinished figures).Layered
      unfold keepUnfinished
      split
      · next hshift => exact .inr hshift
      · next hshift => exact .inl (h.resolve_right hshift)

theorem inside_keep (c : Context α) (figures : Option (List (Figure α))) :
    (c.keep figures).inside = c.inside :=
  apply_keep (fun _ _ _ => rfl) c figures

theorem Lists.keep {c : Context α} (h : c.Lists) (figures : Option (List (Figure α))) :
    (c.keep figures).Lists := by
  unfold Lists
  rw [inside_keep]
  cases figures with
  | none => exact h
  | some figures =>
      change (c.keepUnfinished figures).items.toList.filterMap Item.child? = c.inside
      unfold keepUnfinished
      split
      · exact h
      · rw [push, Array.toList_push, List.filterMap_append, h]
        exact List.append_nil _

end Context

namespace Canvas

/-- Contexts are nested, and overlays stand behind the items only where the origin was moved. -/
structure Regular (c : Canvas α) : Prop where
  nests : c.Nests
  layered : ∀ context ∈ c.contexts, context.Layered

namespace Regular

variable {c : Canvas α}

theorem keep (h : c.Regular) (i : Nat) (figures : Option (List (Figure α))) :
    (c.modify i (·.keep figures)).Regular := by
  rw [modify_eq_attempt]
  exact ⟨h.nests.attempt (fun _ hc => hc.keep figures) (fun c => c.inside_keep figures) i,
    forall_attempt (fun _ hc => hc.keep figures) h.layered i⟩

variable [Scalar α]

theorem perform (h : c.Regular) (op : Op α) : (c.perform op).state.Regular := by
  refine ⟨h.nests.perform op, forall_perform (fun _ w hc => (Context.blind_work w).layered hc)
    (fun _ index hc => (Context.blind_anchor index).layered hc) (fun _ _ => .inl rfl) h.layered op⟩

theorem setCellSize (h : c.Regular) (i : Nat) (width height : α) :
    (c.attempt i (·.setCellSize width height)).state.Regular :=
  ⟨h.nests.attempt (fun _ hc => hc.setCellSize width height)
      (fun c => c.inside_setCellSize width height) i,
    forall_attempt (fun _ hc => (Context.blind_setCellSize width height).layered hc) h.layered i⟩

theorem settled (h : c.Regular) : (Svg.settled c).Regular := by
  unfold Svg.settled
  split
  · next i figures _ _ => exact h.keep i (some figures)
  · exact h

end Regular

end Canvas

end Regular

/-! ## Creating the tree late -/

theorem Context.fault_setCellSize (c : Context Measure) (width height : Measure) :
    (c.setCellSize width height).fault =
      Scalar.firstFault? [Scalar.measure width, Scalar.measure height] := by
  unfold setCellSize Scalar.firstFault?
  dsimp only
  rw [List.findSome?_cons, List.findSome?_cons, List.findSome?_nil]
  cases Scalar.fault? (Scalar.measure width) with
  | some fault => rfl
  | none => cases Scalar.fault? (Scalar.measure height) <;> rfl

theorem Context.state_setCellSize {c : Context Measure} {width height : Measure}
    (h : (c.setCellSize width height).fault = none) :
    (c.setCellSize width height).state =
      { c with cell := .of (Scalar.measure width) (Scalar.measure height) } := by
  unfold setCellSize at h ⊢
  obtain ⟨-, hrest⟩ := Attempt.fault_barring h
  rw [hrest] at h ⊢
  rw [(Attempt.fault_barring h).2]

/-- A cell size is taken over by a sketch if both of its numbers can be measured. -/
theorem Sketch.step_setCellSize {s : Sketch} (h : 0 < s.canvas.contexts.size)
    (width height : Measure) :
    s.step (.setCellSize width height) =
      if Scalar.firstFault? [Scalar.measure width, Scalar.measure height] = none then
        { s with canvas := (s.canvas.attempt 0 (·.setCellSize width height)).state }
      else s := by
  have hroot : s.canvas.context? 0 = some s.canvas.contexts[0] := Array.getElem?_eq_getElem h
  have hfault := s.canvas.fault_attempt 0 (·.setCellSize width height)
  rw [hroot, Option.bind_some, Context.fault_setCellSize] at hfault
  rw [← hfault, step, setCellSize]
  obtain ⟨canvas, fault⟩ := s.canvas.attempt 0 (·.setCellSize width height)
  cases fault <;> rfl

namespace LiveSketch

variable {l : LiveSketch}

/-- Settings reach a tree that is created later as they reach one that is there. -/
theorem used_setCellSize {width height : Measure}
    (h : Scalar.firstFault? [Scalar.measure width, Scalar.measure height] = none) :
    (l.step (.setCellSize width height)).used =
      (l.used.attempt 0 (·.setCellSize width height)).state := by
  rw [step, if_pos h]
  cases htree : l.tree with
  | some tree => simp only [used, htree, Option.map_some, Option.getD_some]
  | none =>
      simp only [used, htree, Option.map_none, Option.getD_none]
      rw [← l.root.fault_setCellSize] at h
      change _ = ({ canvas := .ofRoot (l.root.setCellSize width height).state } : Svg.Live Measure)
      rw [Context.state_setCellSize h]
      rfl

theorem used_showCells (shown : Bool) :
    (l.step (.showCells shown)).used =
      (l.used.attempt 0 fun root => ⟨root.setDebug shown true, none⟩).state := by
  rw [step]
  cases htree : l.tree with
  | some tree => simp only [used, htree, Option.map_some, Option.getD_some]
  | none => simp only [used, htree, Option.map_none, Option.getD_none]; rfl

end LiveSketch

/-! ## One tree for all documents -/

namespace LiveSketch

/-- A live sketch that draws what a sketch draws. -/
structure Follows (l : LiveSketch) (s : Sketch) : Prop where
  format : s.format = l.format
  colors : s.colors = l.colors
  scale : s.scale = l.scale
  canvas : s.canvas = l.used.drawn
  sound : l.used.Sound
  /-- Only documents of elements leave overlays in the tree. -/
  plain : l.format ≠ .svg → l.used.canvas = l.used.drawn

namespace Follows

variable {l l' : LiveSketch} {s s' : Sketch}

/-- What is done to the tree and to the canvas alike. -/
theorem attempt (h : Follows l s) {i : Nat} {f : Context Measure → Attempt (Context Measure)}
    (hf : Context.Blind f) (hformat : s'.format = l'.format) (hcolors : s'.colors = l'.colors)
    (hscale : s'.scale = l'.scale) (hsame : l'.format = l.format)
    (hcanvas : s'.canvas = (s.canvas.attempt i f).state)
    (hused : l'.used = (l.used.attempt i f).state) : Follows l' s' := by
  have hdrawn := congrArg Attempt.state (Svg.Live.attempt_drawn h.sound hf i)
  refine ⟨hformat, hcolors, hscale, ?_, ?_, fun hplain => ?_⟩
  · rw [hcanvas, hused, h.canvas]
    exact hdrawn
  · rw [hused]
    exact h.sound.attempt hf i
  · rw [hused]
    change (l.used.canvas.attempt i f).state = _
    rw [h.plain (hsame ▸ hplain)]
    exact hdrawn

theorem step (h : Follows l s) (hs : s.canvas.Regular) {action : Action}
    (hchanges : action.changes = true) : Follows (l.step action) (s.step action) := by
  cases action with
  | setCellSize width height =>
      rw [Sketch.step_setCellSize hs.nests.nonempty]
      by_cases hfault : Scalar.firstFault? [Scalar.measure width, Scalar.measure height] = none
      · have hused := l.used_setCellSize hfault
        rw [LiveSketch.step, if_pos hfault] at hused ⊢
        rw [if_pos hfault]
        exact h.attempt (Context.blind_setCellSize width height) h.format h.colors h.scale rfl rfl
          hused
      · rw [if_neg hfault, LiveSketch.step, if_neg hfault]
        exact h
  | setScale spec =>
      rw [Sketch.step, Sketch.setScale, LiveSketch.step]
      split
      · exact ⟨h.format, h.colors, rfl, h.canvas, h.sound, h.plain⟩
      · exact h
  | showCells shown =>
      refine h.attempt (i := 0) (f := fun root => ⟨root.setDebug shown true, none⟩)
        (fun _ _ _ => rfl) h.format h.colors h.scale rfl ?_ (l.used_showCells shown)
      exact s.canvas.modify_eq_attempt 0 _
  | perform op =>
      have hdrawn := congrArg Attempt.state (Svg.Live.perform_drawn h.sound op)
      refine ⟨h.format, h.colors, h.scale, ?_, h.sound.perform op, fun hplain => ?_⟩
      · change (s.canvas.perform op).state = (l.used.perform op).state.drawn
        rw [h.canvas]
        exact hdrawn
      · change (l.used.canvas.perform op).state = (l.used.perform op).state.drawn
        rw [h.plain hplain]
        exact hdrawn
  | resize i width height =>
      exact h.attempt (Context.blind_setCellSize width height) h.format h.colors h.scale rfl rfl rfl
  | size => cases hchanges
  | document => cases hchanges

/-- Asking for the size creates the tree, and nothing else. -/
theorem size (h : Follows l s) : Follows (l.step .size) s :=
  ⟨h.format, h.colors, h.scale, h.canvas, h.sound, h.plain⟩

end Follows

/-- A live sketch on which nothing was done. -/
def empty (format : Format) (colors : Colors) : LiveSketch where
  format := format
  colors := colors

theorem follows_empty (format : Format) (colors : Colors) :
    Follows (empty format colors) (Sketch.empty format colors) where
  format := rfl
  colors := rfl
  scale := rfl
  canvas := by cases format <;> rfl
  sound _ _ hplace := by cases hplace
  plain _ := rfl

theorem regular_empty (format : Format) (colors : Colors) :
    (Sketch.empty format colors).canvas.Regular := by
  refine ⟨.ofRoot rfl rfl, fun context hmem => ?_⟩
  rw [List.mem_singleton.1 (Array.mem_toList_iff.2 hmem)]
  exact .inl rfl

theorem tidy_empty (format : Format) (colors : Colors) :
    (Sketch.empty format colors).canvas.Tidy :=
  Canvas.tidy_blank _ _ _

end LiveSketch

end CellSketch
