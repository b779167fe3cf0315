import CellSketch.Proofs.Canvas.Documents

/-!
# Programs — what is done with the contexts of a canvas

A program is a list of operations on contexts, in any order and on any of them.  It can be run on
two kinds of canvas, one that writes styles with every shape and one that writes them when they
change.

* `Canvas.run_perShape` — unless one of them meets a fault, both runs end in the same contexts;
* `Canvas.Tidy.run` — a program leaves nothing unfinished.
-/

namespace CellSketch

open Number

/-- Work on one context. -/
inductive Work (α : Type) where
  | translate (dx dy : Int)
  | draw (primitives : List (Primitive α))
  | setSize (last : Point α)
  | setStroke (change : StrokeChange α)
  | setFill (change : FillChange α)
  | setFont (change : FontChange α)
  | setDebug (shown propagated : Bool)

/-- An operation on the context with a number. -/
inductive Op (α : Type) where
  | addContext (context : Nat)
  | work (context : Nat) (work : Work α)

variable {α : Type} [Scalar α]

def Context.work (c : Context α) : Work α → Attempt (Context α)
  | .translate dx dy => c.translate dx dy
  | .draw primitives => c.drawAll primitives
  | .setSize last => c.setSize last
  | .setStroke change => c.setStroke change
  | .setFill change => c.setFill change
  | .setFont change => c.setFont change
  | .setDebug shown propagated => ⟨c.setDebug shown propagated, none⟩

namespace Canvas

/-- An empty canvas. -/
def blank (styling : Styling) (cell : CellSize α) (style : Style α) : Canvas α :=
  .ofRoot { cell := cell, styling := styling, style := style }

def perform (c : Canvas α) : Op α → Attempt (Canvas α)
  | .addContext i => ⟨c.addContext i, none⟩
  | .work i w => c.attempt i (·.work w)

/-- Performs operations, up to the first that fails. -/
def run (c : Canvas α) (program : List (Op α)) : Attempt (Canvas α) :=
  Attempt.each perform c program

end Canvas

/-! ## Runs without a fault -/

namespace Attempt

variable {σ τ γ : Type}

theorem fault_andThen {r : Attempt σ} {next : σ → Attempt σ} (h : (r.andThen next).fault = none) :
    r.fault = none ∧ (next r.state).fault = none ∧
      (r.andThen next).state = (next r.state).state := by
  obtain ⟨s, fault⟩ := r
  cases fault with
  | none => exact ⟨rfl, h, rfl⟩
  | some f => cases h

theorem fault_barring {fault : Option Fault} {s : σ} {next : Attempt σ}
    (h : (barring fault s next).fault = none) : fault = none ∧ barring fault s next = next := by
  cases fault with
  | none => exact ⟨rfl, rfl⟩
  | some f => cases h

/-- If both pieces of work end without a fault, the state of the second is that of the first seen
through `f`. -/
def Agree (f : σ → τ) (r : Attempt σ) (r' : Attempt τ) : Prop :=
  r.fault = none → r'.fault = none → r'.state = f r.state

theorem Agree.andThen {f : σ → τ} {r : Attempt σ} {r' : Attempt τ} {next : σ → Attempt σ}
    {next' : τ → Attempt τ} (h : Agree f r r') (hnext : ∀ s, Agree f (next s) (next' (f s))) :
    Agree f (r.andThen next) (r'.andThen next') := by
  intro hfault hfault'
  obtain ⟨hr, hs, heq⟩ := fault_andThen hfault
  obtain ⟨hr', hs', heq'⟩ := fault_andThen hfault'
  -- the second pieces start from states that correspond
  have hstate := h hr hr'
  rw [heq, heq']
  rw [hstate] at hs' ⊢
  exact hnext _ hs hs'

theorem Agree.each {f : σ → τ} {step : σ → γ → Attempt σ} {step' : τ → γ → Attempt τ}
    (hstep : ∀ s b, Agree f (step s b) (step' (f s) b)) (s : σ) (bs : List γ) :
    Agree f (Attempt.each step s bs) (Attempt.each step' (f s) bs) := by
  induction bs generalizing s with
  | nil => exact fun _ _ => rfl
  | cons b rest ih => exact (hstep s b).andThen ih

theorem Agree.barring {f : σ → τ} {fault fault' : Option Fault} {s : σ} {s' : τ} {r : Attempt σ}
    {r' : Attempt τ} (h : Agree f r r') :
    Agree f (Attempt.barring fault s r) (Attempt.barring fault' s' r') := by
  intro hfault hfault'
  obtain ⟨-, heq⟩ := fault_barring hfault
  obtain ⟨-, heq'⟩ := fault_barring hfault'
  rw [heq] at hfault ⊢
  rw [heq'] at hfault' ⊢
  exact h hfault hfault'

theorem Agree.ite {f : σ → τ} {p : Prop} [Decidable p] {r s : Attempt σ} {r' s' : Attempt τ}
    (h : Agree f r r') (h' : Agree f s s') :
    Agree f (if p then r else s) (if p then r' else s') := by
  split
  · exact h
  · exact h'

theorem Agree.of_eq_map {f : σ → τ} {r : Attempt σ} {r' : Attempt τ} (h : r' = r.map f) :
    Agree f r r' := by
  intro _ _
  rw [h]
  rfl

/-! ### What work preserves, with or without a fault -/

theorem andThen_preserves {P : σ → Prop} {r : Attempt σ} {next : σ → Attempt σ} (h : P r.state)
    (hnext : ∀ s, P s → P (next s).state) : P (r.andThen next).state := by
  obtain ⟨s, fault⟩ := r
  cases fault with
  | none => exact hnext s h
  | some f => exact h

theorem barring_preserves {P : σ → Prop} {fault : Option Fault} {s : σ} {next : Attempt σ}
    (h : P s) (hnext : P next.state) : P (barring fault s next).state := by
  cases fault with
  | none => exact hnext
  | some f => exact h

theorem each_preserves {P : σ → Prop} {step : σ → γ → Attempt σ}
    (hstep : ∀ s b, P s → P (step s b).state) {s : σ} (h : P s) (bs : List γ) :
    P (Attempt.each step s bs).state := by
  induction bs generalizing s with
  | nil => exact h
  | cons b rest ih => exact andThen_preserves (hstep s b h) fun t ht => ih ht

end Attempt

/-! ## Two kinds of canvas -/

namespace Context

open Attempt

/-- The context as one that writes its style with every shape. -/
def perShape (c : Context α) : Context α := { c with styling := .perShape }

theorem setSize_perShape (c : Context α) (p : Point α) :
    c.perShape.setSize p = (c.setSize p).map perShape := by
  unfold setSize
  split
  · rfl
  · split <;> rfl

theorem drawShape_perShape (c : Context α) (s : Shape α) :
    Agree perShape (c.drawShape s) (c.perShape.drawShape s) := by
  unfold drawShape
  -- the two kinds differ in the faults they notice, not in what they push
  exact Agree.barring (Agree.barring fun _ _ => rfl)

theorem draw_perShape (c : Context α) (p : Primitive α) :
    Agree perShape (c.draw p) (c.perShape.draw p) := by
  unfold draw
  refine Agree.andThen ?_ fun c => Agree.barring (Agree.each drawShape_perShape c _)
  cases p.reach with
  | none => exact fun _ _ => rfl
  | some last => exact Agree.of_eq_map (setSize_perShape c last)

theorem note_perShape (c : Context α) (change : Item α) (numbers : List α) :
    Agree perShape (c.note change numbers) (c.perShape.note change numbers) := by
  unfold note
  exact Agree.barring fun _ _ => rfl

theorem work_perShape (c : Context α) (w : Work α) :
    Agree perShape (c.work w) (c.perShape.work w) := by
  cases w with
  | translate dx dy =>
      unfold work translate
      -- both kinds notice the same faults here
      exact Agree.ite (fun _ _ => rfl) (Agree.barring fun _ _ => rfl)
  | draw primitives => exact Agree.each draw_perShape c primitives
  | setSize last => exact Agree.of_eq_map (setSize_perShape c last)
  | setStroke change => exact Agree.ite (fun _ _ => rfl) (note_perShape _ _ _)
  | setFill change => exact Agree.ite (fun _ _ => rfl) (note_perShape _ _ _)
  | setFont change => exact Agree.ite (fun _ _ => rfl) (note_perShape _ _ _)
  | setDebug shown propagated => exact fun _ _ => rfl

end Context

namespace Canvas

open Attempt

/-- The canvas as one that writes styles with every shape. -/
def perShape (c : Canvas α) : Canvas α := ⟨c.contexts.map Context.perShape⟩

omit [Scalar α] in
/-- Every context stands beside what is known of it, and nothing else is known. -/
theorem context?_of_forall₂ {γ : Type} {R : γ → Context α → Prop} {c : Canvas α} {known : List γ}
    (h : List.Forall₂ R known c.contexts.toList) (i : Nat) :
    (known[i]? = none ∧ c.context? i = none) ∨
      ∃ k context, known[i]? = some k ∧ c.context? i = some context ∧ R k context := by
  unfold context?
  rw [← Array.getElem?_toList]
  exact getElem?_of_forall₂ h i

omit [Scalar α] in
theorem context?_perShape (c : Canvas α) (i : Nat) :
    c.perShape.context? i = (c.context? i).map Context.perShape :=
  Array.getElem?_map

theorem addContext_perShape (c : Canvas α) (i : Nat) :
    c.perShape.addContext i = (c.addContext i).perShape := by
  unfold addContext
  rw [context?_perShape]
  cases c.context? i with
  | none => rfl
  | some parent =>
      simp only [Option.map_some, perShape, Array.map_push, Array.size_map,
        Array.set!_eq_setIfInBounds, Array.map_setIfInBounds]
      rfl

theorem attempt_perShape (c : Canvas α) (i : Nat) (w : Work α) :
    Agree perShape (c.attempt i (·.work w)) (c.perShape.attempt i (·.work w)) := by
  unfold attempt
  rw [context?_perShape]
  cases c.context? i with
  | none => exact fun _ _ => rfl
  | some context =>
      intro hfault hfault'
      have hstate := Context.work_perShape context w hfault hfault'
      simp only [Attempt.map, Option.map_some, hstate, perShape, Array.set!_eq_setIfInBounds,
        Array.map_setIfInBounds]

theorem perform_perShape (c : Canvas α) (op : Op α) :
    Agree perShape (c.perform op) (c.perShape.perform op) := by
  cases op with
  | addContext i => exact fun _ _ => addContext_perShape c i
  | work i w => exact attempt_perShape c i w

/-- Unless one of them meets a fault, two runs of a program end in the same contexts. -/
theorem run_perShape (c : Canvas α) (program : List (Op α)) :
    Agree perShape (c.run program) (c.perShape.run program) :=
  Agree.each perform_perShape c program

/-! ### What both kinds show -/

omit [Scalar α] in
theorem length_sizesFrom (contexts : List (Context α)) (base : Nat) :
    (sizesFrom base contexts).length = contexts.length := by
  induction contexts generalizing base with
  | nil => rfl
  | cons c rest ih => simp only [sizesFrom, List.length_cons, ih]

omit [Scalar α] in
theorem sizesFrom_perShape (base : Nat) (contexts : List (Context α)) :
    sizesFrom base (contexts.map Context.perShape) = sizesFrom base contexts := by
  induction contexts generalizing base with
  | nil => rfl
  | cons c rest ih =>
      simp only [List.map_cons, sizesFrom, ih]
      rfl

theorem spreads_perShape {β : Type} (move : β → α → α → β) (base : Nat)
    (contexts : List (Context α)) (sizes : List (Int × Int)) :
    spreads move base (contexts.map Context.perShape) sizes =
      spreads move base contexts sizes := by
  induction contexts generalizing base sizes with
  | nil => rfl
  | cons c rest ih =>
      cases sizes with
      | nil => rfl
      | cons size sizes =>
          simp only [List.map_cons, spreads, ih]
          rfl

theorem shown_perShape {β : Type} (move : β → α → α → β) (c : Canvas α) (here : β) :
    c.perShape.shown move here = c.shown move here := by
  unfold shown perShape
  simp only [Array.toList_map, sizesFrom_perShape, spreads_perShape]

end Canvas

/-! ## What work leaves as it was -/

/-- Something drawn or set, and neither a context nor an overlay. -/
def Item.isOwn {α : Type} : Item α → Bool
  | .child _ | .unfinished _ => false
  | _ => true

namespace Context

section Preserved

variable {P : Context α → Prop}
  (hsame : ∀ c c' : Context α, c'.children = c.children → c'.items = c.items →
    c'.leftovers = c.leftovers → P c → P c')
  (hpush : ∀ (c : Context α) (item : Item α), item.isOwn = true → P c → P (c.push item))

include hsame

theorem setSize_preserves {c : Context α} (h : P c) (p : Point α) : P (c.setSize p).state := by
  unfold Context.setSize
  split
  · exact h
  · split <;> exact hsame c _ rfl rfl rfl h

theorem setCellSize_preserves {c : Context α} (h : P c) (width height : α) :
    P (c.setCellSize width height).state := by
  unfold Context.setCellSize
  exact Attempt.barring_preserves h
    (Attempt.barring_preserves (hsame c _ rfl rfl rfl h) (hsame c _ rfl rfl rfl h))

include hpush

omit hsame in
theorem drawShape_preserves {c : Context α} (h : P c) (s : Shape α) : P (c.drawShape s).state := by
  unfold Context.drawShape
  refine Attempt.barring_preserves h (Attempt.barring_preserves ?_ (hpush c _ rfl h))
  split
  · exact hpush c _ rfl h
  · exact h

theorem draw_preserves {c : Context α} (h : P c) (p : Primitive α) : P (c.draw p).state := by
  unfold Context.draw
  refine Attempt.andThen_preserves ?_ fun c hc => Attempt.barring_preserves hc
    (Attempt.each_preserves (P := P) (fun _ s hc => drawShape_preserves hpush hc s) hc _)
  cases p.reach with
  | none => exact h
  | some last => exact setSize_preserves hsame h last

theorem setting_preserves {c : Context α} (h : P c) {empty : Bool} {style : Style α}
    {change : Item α} (numbers : List α) (hchange : change.isOwn = true) :
    P (if empty then (⟨c, none⟩ : Attempt (Context α))
      else { c with style := style }.note change numbers).state := by
  cases empty with
  | true => exact h
  | false =>
      have hstyled : P { c with style := style } := hsame c _ rfl rfl rfl h
      exact Attempt.barring_preserves hstyled (hpush _ change hchange hstyled)

/-- What lasts when the origin, the room and the settings change, and when something is drawn or
set, lasts through all work. -/
theorem work_preserves {c : Context α} (h : P c) (w : Work α) : P (c.work w).state := by
  cases w with
  | translate dx dy =>
      unfold Context.work Context.translate
      dsimp only
      split
      · exact hsame c _ rfl rfl rfl h
      · refine Attempt.barring_preserves (hsame c _ rfl rfl rfl h) (hpush _ _ rfl ?_)
        exact hsame c _ rfl rfl rfl h
  | draw primitives =>
      exact Attempt.each_preserves (P := P) (fun _ p hc => draw_preserves hsame hpush hc p) h
        primitives
  | setSize last => exact setSize_preserves hsame h last
  | setStroke change => exact setting_preserves hsame hpush h _ rfl
  | setFill change => exact setting_preserves hsame hpush h _ rfl
  | setFont change => exact setting_preserves hsame hpush h _ rfl
  | setDebug shown propagated => exact hsame c _ rfl rfl rfl h

end Preserved

/-- The context with another one inside it, at its present origin. -/
def anchor {α : Type} (c : Context α) (index : Nat) : Context α :=
  { c with
    children := c.children.push ⟨c.origin.x, c.origin.y, index⟩
    items := c.items.push (.child index) }

end Context

namespace Canvas

variable {P : Context α → Prop} {c : Canvas α}

omit [Scalar α] in
/-- What work on a context does not change about contexts is not changed about any of them. -/
theorem forall_attempt {f : Context α → Attempt (Context α)} (hf : ∀ c, P c → P (f c).state)
    (h : ∀ context ∈ c.contexts, P context) (i : Nat) :
    ∀ context ∈ (c.attempt i f).state.contexts, P context := by
  unfold attempt
  cases hcontext : c.context? i with
  | none => exact h
  | some found =>
      intro context hmem
      rcases Array.mem_or_eq_of_mem_setIfInBounds hmem with hmem | rfl
      · exact h context hmem
      · exact hf found (h found (Array.mem_of_getElem? hcontext))

theorem forall_addContext (hanchor : ∀ c index, P c → P (Context.anchor c index))
    (hinner : ∀ c, P c → P c.inner) (h : ∀ context ∈ c.contexts, P context) (i : Nat) :
    ∀ context ∈ (c.addContext i).contexts, P context := by
  unfold addContext
  cases hcontext : c.context? i with
  | none => exact h
  | some parent =>
      have hparent := h parent (Array.mem_of_getElem? hcontext)
      intro context hmem
      rcases Array.mem_push.1 hmem with hmem | rfl
      · rcases Array.mem_or_eq_of_mem_setIfInBounds hmem with hmem | rfl
        · exact h context hmem
        · exact hanchor parent c.contexts.size hparent
      · exact hinner parent hparent

theorem forall_perform (hwork : ∀ c w, P c → P (Context.work c w).state)
    (hanchor : ∀ c index, P c → P (Context.anchor c index)) (hinner : ∀ c, P c → P c.inner)
    (h : ∀ context ∈ c.contexts, P context) (op : Op α) :
    ∀ context ∈ (c.perform op).state.contexts, P context := by
  cases op with
  | work i w => exact forall_attempt (fun c hc => hwork c w hc) h i
  | addContext i => exact forall_addContext hanchor hinner h i

end Canvas

/-! ## Tidy canvases -/

/-- Nothing on a context is unfinished. -/
structure Context.Tidy (c : Context α) : Prop where
  items : ∀ figures, Item.unfinished figures ∉ c.items
  leftovers : c.leftovers = #[]

namespace Context

omit [Scalar α] in
theorem Tidy.push {c : Context α} (h : c.Tidy) {item : Item α}
    (hitem : ∀ figures, item ≠ .unfinished figures) : (c.push item).Tidy where
  items figures hmem := by
    rcases Array.mem_push.1 hmem with hmem | heq
    · exact h.items figures hmem
    · exact hitem figures heq.symm
  leftovers := h.leftovers

theorem Tidy.work {c : Context α} (h : c.Tidy) (w : Work α) : (c.work w).state.Tidy := by
  refine work_preserves (fun c c' _ hitems hleftovers h => ?_) (fun c item hown h => ?_) h w
  · exact ⟨hitems ▸ h.items, hleftovers.trans h.leftovers⟩
  · exact h.push fun figures heq => by rw [heq] at hown; cases hown

theorem Tidy.setCellSize {c : Context α} (h : c.Tidy) (width height : α) :
    (c.setCellSize width height).state.Tidy :=
  setCellSize_preserves (P := Tidy) (fun _ _ _ hitems hleftovers h =>
    ⟨hitems ▸ h.items, hleftovers.trans h.leftovers⟩) h width height

end Context

namespace Canvas

/-- Nothing on a canvas is unfinished. -/
def Tidy (c : Canvas α) : Prop := ∀ context ∈ c.contexts, context.Tidy

omit [Scalar α] in
theorem tidy_blank (styling : Styling) (cell : CellSize α) (style : Style α) :
    (blank styling cell style).Tidy := by
  intro context hcontext
  rw [List.mem_toArray.1 hcontext |> List.mem_singleton.1]
  exact ⟨by simp, rfl⟩

theorem Tidy.perform {c : Canvas α} (h : c.Tidy) (op : Op α) : (c.perform op).state.Tidy := by
  refine forall_perform (fun c w hc => hc.work w) (fun c index hc => ?_) (fun c _ => ?_) h op
  · have hchild : (c.push (.child index)).Tidy := hc.push fun _ => by simp
    exact ⟨hchild.items, hchild.leftovers⟩
  · exact ⟨by simp [Context.inner], rfl⟩

/-- A program leaves nothing unfinished. -/
theorem Tidy.run {c : Canvas α} (h : c.Tidy) (program : List (Op α)) :
    (c.run program).state.Tidy :=
  Attempt.each_preserves (fun _ op hc => hc.perform op) h program

end Canvas

end CellSketch
