import Mathlib.Logic.Function.Basic
import CellSketch.Proofs.Canvas.Programs

/-!
# LiveTree — one tree for all documents

The elements of a document need not be built anew.  A live tree keeps the group of every context
while drawing goes on; a document only takes the overlays of the last one out of the groups and
puts new ones in.  An overlay in a group is kept where an unfinished one is: among the items, or
behind them once the origin was moved.

* `Context.Blind.release` — drawing goes on beside an overlay as it does without one;
* `Svg.Live.perform_drawn` — so does everything that is done on a canvas.
-/

namespace CellSketch

open Number

/-! ## Work seen through a function -/

namespace Attempt

variable {σ τ β : Type}

theorem mk_eq_map {f : σ → τ} {s : σ} {t : τ} {fault : Option Fault} (h : t = f s) :
    (⟨t, fault⟩ : Attempt τ) = (⟨s, fault⟩ : Attempt σ).map f := by
  rw [h]
  rfl

theorem eq_map {f : σ → τ} {r : Attempt σ} {r' : Attempt τ} (hstate : r'.state = f r.state)
    (hfault : r'.fault = r.fault) : r' = r.map f := by
  obtain ⟨t, fault⟩ := r'
  exact congr (congrArg Attempt.mk hstate) hfault

theorem andThen_eq_map {f : σ → τ} {r : Attempt σ} {r' : Attempt τ} {next : σ → Attempt σ}
    {next' : τ → Attempt τ} (h : r' = r.map f) (hnext : ∀ s, next' (f s) = (next s).map f) :
    r'.andThen next' = (r.andThen next).map f := by
  obtain ⟨s, fault⟩ := r
  cases h
  cases fault with
  | none => exact hnext s
  | some fault => rfl

theorem barring_eq_map {f : σ → τ} {fault : Option Fault} {s : σ} {t : τ} {next : Attempt σ}
    {next' : Attempt τ} (h : t = f s) (hnext : next' = next.map f) :
    barring fault t next' = (barring fault s next).map f := by
  cases fault with
  | none => exact hnext
  | some fault => exact mk_eq_map h

theorem ite_eq_map {f : σ → τ} {p : Prop} [Decidable p] {r s : Attempt σ} {r' s' : Attempt τ}
    (h : r' = r.map f) (h' : s' = s.map f) :
    (if p then r' else s') = (if p then r else s).map f := by
  split
  · exact h
  · exact h'

theorem each_eq_map {f : σ → τ} {step : σ → β → Attempt σ} {step' : τ → β → Attempt τ}
    (h : ∀ s b, step' (f s) b = (step s b).map f) (s : σ) (bs : List β) :
    each step' (f s) bs = (each step s bs).map f := by
  induction bs generalizing s with
  | nil => rfl
  | cons b rest ih => exact andThen_eq_map (h s b) ih

end Attempt

/-! ## Items that are there already -/

namespace Context

variable {α : Type}

/-- The context with nothing on it. -/
def bare (c : Context α) : Context α := { c with items := #[], leftovers := #[] }

/-- The context with items before its own, and with other overlays behind them. -/
def onto (c : Context α) (items : Array (Item α)) (leftovers : Array (List (Figure α))) :
    Context α :=
  { c with items := items ++ c.items, leftovers := leftovers }

variable {items : Array (Item α)} {leftovers : Array (List (Figure α))}

theorem onto_bare (c : Context α) : c.bare.onto c.items c.leftovers = c := by
  simp only [onto, bare, Array.append_empty]

theorem push_onto (c : Context α) (item : Item α) :
    (c.onto items leftovers).push item = (c.push item).onto items leftovers := by
  simp only [onto, push, Array.append_push]

variable [Scalar α]

theorem setSize_onto (c : Context α) (p : Point α) :
    (c.onto items leftovers).setSize p = (c.setSize p).map (·.onto items leftovers) := by
  unfold setSize
  split
  · rfl
  · split <;> rfl

theorem drawShape_onto (c : Context α) (s : Shape α) :
    (c.onto items leftovers).drawShape s = (c.drawShape s).map (·.onto items leftovers) := by
  unfold drawShape
  refine Attempt.barring_eq_map rfl (Attempt.barring_eq_map ?_ ?_)
  · -- what is refused may take a place among the items, too
    have hstyling : (c.onto items leftovers).styling = c.styling := rfl
    rw [hstyling]
    generalize c.styling = styling
    cases styling with
    | perShape => cases s <;> first | rfl | exact push_onto c .hollow
    | perChange => rfl
  · exact Attempt.mk_eq_map (push_onto c _)

theorem draw_onto (c : Context α) (p : Primitive α) :
    (c.onto items leftovers).draw p = (c.draw p).map (·.onto items leftovers) := by
  unfold draw
  refine Attempt.andThen_eq_map ?_ fun c =>
    Attempt.barring_eq_map rfl (Attempt.each_eq_map drawShape_onto c _)
  cases p.reach with
  | none => rfl
  | some last => exact setSize_onto c last

theorem note_onto (c : Context α) (change : Item α) (numbers : List α) :
    (c.onto items leftovers).note change numbers =
      (c.note change numbers).map (·.onto items leftovers) := by
  unfold note
  exact Attempt.barring_eq_map rfl (Attempt.mk_eq_map (push_onto c change))

theorem setting_onto (c : Context α) (empty : Bool) (style : Style α) (change : Item α)
    (numbers : List α) :
    (if empty then (⟨c.onto items leftovers, none⟩ : Attempt (Context α))
      else { c.onto items leftovers with style := style }.note change numbers) =
    (if empty then (⟨c, none⟩ : Attempt (Context α))
      else { c with style := style }.note change numbers).map (·.onto items leftovers) :=
  Attempt.ite_eq_map rfl (note_onto { c with style := style } change numbers)

theorem translate_onto (c : Context α) (dx dy : Int) :
    (c.onto items leftovers).translate dx dy =
      (c.translate dx dy).map (·.onto items leftovers) := by
  let moved : Context α := { c with origin := ⟨max 0 (c.origin.x + dx), max 0 (c.origin.y + dy)⟩ }
  unfold translate
  exact Attempt.ite_eq_map rfl
    (Attempt.barring_eq_map rfl (Attempt.mk_eq_map (push_onto (moved.reserve ⟨0, 0⟩) _)))

/-- Work that does not look at what is on a context. -/
def Blind (f : Context α → Attempt (Context α)) : Prop :=
  ∀ (c : Context α) (items : Array (Item α)) (leftovers : Array (List (Figure α))),
    f (c.onto items leftovers) = (f c).map (·.onto items leftovers)

theorem blind_work (w : Work α) : Blind (·.work w) := by
  intro c items leftovers
  cases w with
  | translate dx dy => exact translate_onto c dx dy
  | draw primitives => exact Attempt.each_eq_map draw_onto c primitives
  | setSize last => exact setSize_onto c last
  | setStroke change => exact setting_onto c _ _ _ _
  | setFill change => exact setting_onto c _ _ _ _
  | setFont change => exact setting_onto c _ _ _ _
  | setDebug shown propagated => rfl

theorem blind_setCellSize (width height : α) : Blind (·.setCellSize width height) :=
  fun _ _ _ => Attempt.barring_eq_map rfl (Attempt.barring_eq_map rfl rfl)

omit [Scalar α] in
theorem blind_anchor (index : Nat) : Blind fun c : Context α => ⟨c.anchor index, none⟩ := by
  intro c items leftovers
  refine Attempt.mk_eq_map ?_
  simp only [anchor, onto, Array.append_push]

end Context

/-! ## Overlays that are kept -/

/-- Where something stands on a context. -/
inductive Place where
  /-- Among the items. -/
  | among (index : Nat)
  /-- Among the overlays behind the items. -/
  | behind (index : Nat)
  deriving DecidableEq, Repr

namespace Context

variable {α : Type}

/-- Where an overlay that is kept next will stand. -/
def place (c : Context α) : Place :=
  if c.items.any Item.isShift then .behind c.leftovers.size else .among c.items.size

/-- Something stands at a place. -/
def Has (c : Context α) : Place → Prop
  | .among index => index < c.items.size
  | .behind index => index < c.leftovers.size

/-- The context without what stands at a place, if one is given. -/
def release (c : Context α) : Option Place → Context α
  | none => c
  | some (.among index) => { c with items := (c.items.toList.eraseIdx index).toArray }
  | some (.behind index) => { c with leftovers := (c.leftovers.toList.eraseIdx index).toArray }

/-- The context with figures kept as an overlay, if there are any. -/
def keep (c : Context α) : Option (List (Figure α)) → Context α
  | none => c
  | some figures => c.keepUnfinished figures

theorem release_keepUnfinished (c : Context α) (figures : List (Figure α)) :
    (c.keepUnfinished figures).release (some c.place) = c := by
  unfold keepUnfinished place
  split
  · simp [release, List.eraseIdx_append_of_length_le]
  · simp [release, push, List.eraseIdx_append_of_length_le]

theorem has_keepUnfinished (c : Context α) (figures : List (Figure α)) :
    (c.keepUnfinished figures).Has c.place := by
  unfold keepUnfinished place
  split <;> simp [Has, push]

/-- What is drawn later does not move what stands somewhere. -/
theorem release_onto {c : Context α} {place : Option Place} (h : ∀ p, place = some p → c.Has p)
    (later : Context α) :
    (later.onto c.items c.leftovers).release place =
      later.onto (c.release place).items (c.release place).leftovers := by
  match place with
  | none => rfl
  | some (.among index) =>
      have hindex : index < c.items.toList.length := h _ rfl
      simp [release, onto, List.eraseIdx_append_of_lt_length hindex]
  | some (.behind index) => rfl

section Apart

variable {β : Type} {g : Context α → β}
  (hg : ∀ (c : Context α) (items : Array (Item α)) (leftovers : Array (List (Figure α))),
    g { c with items := items, leftovers := leftovers } = g c)

include hg

/-- What does not depend on what is on a context is the same without an overlay. -/
theorem apply_release (c : Context α) (place : Option Place) : g (c.release place) = g c := by
  match place with
  | none => rfl
  | some (.among index) => exact hg c _ c.leftovers
  | some (.behind index) => exact hg c c.items _

/-- What does not depend on what is on a context is the same with an overlay. -/
theorem apply_keep (c : Context α) (figures : Option (List (Figure α))) :
    g (c.keep figures) = g c := by
  cases figures with
  | none => rfl
  | some figures =>
      change g (c.keepUnfinished figures) = g c
      unfold keepUnfinished
      split
      · exact hg c c.items _
      · exact hg c _ c.leftovers

end Apart

theorem bare_release (c : Context α) (place : Option Place) : (c.release place).bare = c.bare :=
  apply_release (fun _ _ _ => rfl) c place

theorem inner_release [Scalar α] (c : Context α) (place : Option Place) :
    (c.release place).inner = c.inner :=
  apply_release (fun _ _ _ => rfl) c place

/-- Blind work goes on beside what stands somewhere as it does without it. -/
theorem Blind.release {f : Context α → Attempt (Context α)} (hf : Blind f) {c : Context α}
    {place : Option Place} (h : ∀ p, place = some p → c.Has p) :
    f (c.release place) = (f c).map (·.release place) := by
  calc f (c.release place)
      = (f c.bare).map (·.onto (c.release place).items (c.release place).leftovers) := by
        rw [← hf, ← bare_release c place, onto_bare]
    _ = (f c.bare).map fun later => (later.onto c.items c.leftovers).release place := by
        simp only [release_onto h]
    _ = (f c).map (·.release place) := by
        conv_rhs => rw [← onto_bare c, hf]
        rfl

theorem Blind.has {f : Context α → Attempt (Context α)} (hf : Blind f) {c : Context α}
    {place : Place} (h : c.Has place) : (f c).state.Has place := by
  rw [← onto_bare c, hf]
  cases place with
  | among index => exact Nat.lt_of_lt_of_le h (by simp [Attempt.map, onto])
  | behind index => exact h

end Context

/-! ## Looking up contexts -/

namespace Canvas

variable {α : Type} {i : Nat}

theorem ext_context? {c c' : Canvas α} (h : ∀ i, c.context? i = c'.context? i) : c = c' :=
  congrArg Canvas.mk (Array.ext_getElem? h)

theorem context?_attempt (c : Canvas α) (i : Nat) (f : Context α → Attempt (Context α)) (j : Nat) :
    (c.attempt i f).state.context? j =
      if j = i then (c.context? i).map fun context => (f context).state else c.context? j := by
  unfold attempt
  cases hi : c.context? i with
  | none =>
      by_cases hj : j = i
      · rw [if_pos hj, hj, Option.map_none]
        exact hi
      · rw [if_neg hj]
  | some context =>
      have hlt : i < c.contexts.size := (Array.getElem?_eq_some_iff.1 hi).1
      simp [Attempt.map, context?, Array.getElem?_setIfInBounds, eq_comm, hlt]

theorem fault_attempt (c : Canvas α) (i : Nat) (f : Context α → Attempt (Context α)) :
    (c.attempt i f).fault = (c.context? i).bind fun context => (f context).fault := by
  unfold attempt
  cases c.context? i <;> rfl

theorem context?_modify (c : Canvas α) (i : Nat) (f : Context α → Context α) (j : Nat) :
    (c.modify i f).context? j = if j = i then (c.context? i).map f else c.context? j := by
  unfold modify context?
  rw [Array.getElem?_modify]
  grind

theorem modify_eq_attempt (c : Canvas α) (i : Nat) (f : Context α → Context α) :
    c.modify i f = (c.attempt i fun context => ⟨f context, none⟩).state :=
  ext_context? fun j => by rw [context?_modify, context?_attempt]

/-- What work on a context leaves as it was is the same for all contexts. -/
theorem map_context?_attempt {β : Type} {g : Context α → β} {f : Context α → Attempt (Context α)}
    (h : ∀ context, g (f context).state = g context) (c : Canvas α) (i j : Nat) :
    ((c.attempt i f).state.context? j).map g = (c.context? j).map g := by
  rw [context?_attempt]
  split
  · next hj =>
      rw [hj, Option.map_map]
      exact congrArg (Option.map · (c.context? i)) (funext h)
  · rfl

/-- A new context stands behind all others, and is noted on its parent. -/
theorem context?_addContext [Scalar α] {c : Canvas α} {parent : Context α}
    (h : c.context? i = some parent) (j : Nat) :
    (c.addContext i).context? j =
      if j = i then
        some (parent.anchor c.contexts.size)
      else if j = c.contexts.size then some parent.inner else c.context? j := by
  have hlt : i < c.contexts.size := (Array.getElem?_eq_some_iff.1 h).1
  unfold addContext
  rw [h]
  change ((c.contexts.set! i (parent.anchor c.contexts.size)).push parent.inner)[j]? = _
  simp only [context?, Array.getElem?_push, Array.getElem?_setIfInBounds,
    Array.set!_eq_setIfInBounds, Array.size_setIfInBounds]
  grind

end Canvas

/-! ## Live trees -/

namespace Svg

variable {α : Type}

/-- A tree that is kept from document to document: the contexts with the overlays in their groups,
where the overlay of the last document stands in each of them, and what the last document wrote
into the outermost group and into the root. -/
structure Live (α : Type) where
  canvas : Canvas α
  held : Nat → Option Place := fun _ => none
  shift : Option (α × α) := none
  extent : Int × Int := (0, 0)

namespace Live

variable {l : Live α} {i : Nat}

/-- What is drawn on a live tree, without the overlays of the last document. -/
def drawn (l : Live α) : Canvas α :=
  ⟨l.canvas.contexts.mapIdx fun i context => context.release (l.held i)⟩

/-- Every overlay that is held stands where it is said to. -/
def Sound (l : Live α) : Prop :=
  ∀ i place, l.held i = some place → ∃ context, l.canvas.context? i = some context ∧
    context.Has place

theorem context?_drawn (l : Live α) (i : Nat) :
    l.drawn.context? i = (l.canvas.context? i).map (·.release (l.held i)) :=
  Array.getElem?_mapIdx

/-- What overlays do not change about contexts is that of what is drawn. -/
theorem map_context?_drawn {β : Type} {g : Context α → β}
    (h : ∀ (context : Context α) place, g (context.release place) = g context) (l : Live α)
    (i : Nat) : (l.drawn.context? i).map g = (l.canvas.context? i).map g := by
  rw [context?_drawn, Option.map_map]
  exact congrArg (Option.map · (l.canvas.context? i)) (funext fun context => h context _)

theorem size_drawn (l : Live α) : l.drawn.contexts.size = l.canvas.contexts.size :=
  Array.size_mapIdx

theorem Sound.has (h : l.Sound) {context : Context α}
    (hcontext : l.canvas.context? i = some context) (place : Place)
    (hplace : l.held i = some place) : context.Has place := by
  obtain ⟨found, hfound, hhas⟩ := h i place hplace
  rw [hcontext] at hfound
  cases hfound
  exact hhas

theorem Sound.held_size (h : l.Sound) (hi : i = l.canvas.contexts.size) : l.held i = none := by
  cases hplace : l.held i with
  | none => rfl
  | some place =>
      obtain ⟨context, hcontext, -⟩ := h i place hplace
      exact absurd (Array.getElem?_eq_some_iff.1 hcontext).1 (by omega)

/-- Work on one context of the tree. -/
def attempt (l : Live α) (i : Nat) (f : Context α → Attempt (Context α)) : Attempt (Live α) :=
  (l.canvas.attempt i f).map fun canvas => { l with canvas := canvas }

theorem attempt_drawn (h : l.Sound) {f : Context α → Attempt (Context α)} (hf : Context.Blind f)
    (i : Nat) : l.drawn.attempt i f = (l.attempt i f).map drawn := by
  have hreleased {context : Context α} (hcontext : l.canvas.context? i = some context) :
      f (context.release (l.held i)) = (f context).map (·.release (l.held i)) :=
    hf.release (h.has hcontext)
  refine Attempt.eq_map (Canvas.ext_context? fun j => ?_) ?_
  · -- the contexts beside the one that is worked on do not change
    change (l.drawn.attempt i f).state.context? j =
      (drawn { l with canvas := (l.canvas.attempt i f).state }).context? j
    rw [Canvas.context?_attempt, context?_drawn, context?_drawn, context?_drawn,
      Canvas.context?_attempt]
    by_cases hj : j = i
    · rw [if_pos hj, if_pos hj]
      cases hcontext : l.canvas.context? i with
      | none => rfl
      | some context =>
          rw [hj]
          exact congrArg (fun r : Attempt (Context α) => some r.state) (hreleased hcontext)
    · rw [if_neg hj, if_neg hj]
  · change (l.drawn.attempt i f).fault = (l.canvas.attempt i f).fault
    rw [Canvas.fault_attempt, Canvas.fault_attempt, context?_drawn]
    cases hcontext : l.canvas.context? i with
    | none => rfl
    | some context =>
        have hfault := congrArg Attempt.fault (hreleased hcontext)
        exact hfault

theorem Sound.attempt (h : l.Sound) {f : Context α → Attempt (Context α)} (hf : Context.Blind f)
    (i : Nat) : (l.attempt i f).state.Sound := by
  intro j place hplace
  obtain ⟨context, hcontext, hhas⟩ := h j place hplace
  change ∃ context, (l.canvas.attempt i f).state.context? j = some context ∧ _
  rw [Canvas.context?_attempt]
  by_cases hj : j = i
  · rw [if_pos hj, ← hj, hcontext]
    exact ⟨_, rfl, hf.has hhas⟩
  · rw [if_neg hj]
    exact ⟨context, hcontext, hhas⟩

variable [Scalar α]

/-- An operation on the tree. -/
def perform (l : Live α) (op : Op α) : Attempt (Live α) :=
  (l.canvas.perform op).map fun canvas => { l with canvas := canvas }

/-- An operation on a live tree does to what is drawn what it does to a canvas. -/
theorem perform_drawn (h : l.Sound) (op : Op α) :
    l.drawn.perform op = (l.perform op).map drawn := by
  cases op with
  | work i w => exact attempt_drawn h (Context.blind_work w) i
  | addContext i =>
      refine Attempt.eq_map (Canvas.ext_context? fun j => ?_) rfl
      change (l.drawn.addContext i).context? j =
        (drawn { l with canvas := l.canvas.addContext i }).context? j
      rw [context?_drawn]
      cases hparent : l.canvas.context? i with
      | none =>
          have hdrawn : l.drawn.context? i = none := by
            rw [context?_drawn, hparent]
            rfl
          simp only [Canvas.addContext, hparent, hdrawn, context?_drawn]
      | some parent =>
          have hdrawn : l.drawn.context? i = some (parent.release (l.held i)) := by
            rw [context?_drawn, hparent]
            rfl
          have hanchor := congrArg Attempt.state
            ((Context.blind_anchor l.canvas.contexts.size).release (h.has hparent))
          -- overlays are no contexts, so the new one has the same number with and without them
          rw [Canvas.context?_addContext hdrawn, Canvas.context?_addContext hparent, context?_drawn,
            size_drawn]
          split
          · next hj => exact congrArg some (hj ▸ hanchor)
          · split
            · next hj =>
                rw [h.held_size hj]
                exact congrArg some (Context.inner_release parent _)
            · rfl

theorem Sound.perform (h : l.Sound) (op : Op α) : (l.perform op).state.Sound := by
  cases op with
  | work i w => exact h.attempt (Context.blind_work w) i
  | addContext i =>
      intro j place hplace
      obtain ⟨context, hcontext, hhas⟩ := h j place hplace
      change ∃ context, (l.canvas.addContext i).context? j = some context ∧ _
      cases hparent : l.canvas.context? i with
      | none =>
          rw [Canvas.addContext, hparent]
          exact ⟨context, hcontext, hhas⟩
      | some parent =>
          rw [Canvas.context?_addContext hparent]
          split
          · next hj =>
              have hsame : context = parent := Option.some.inj (hcontext.symm.trans (hj ▸ hparent))
              exact ⟨_, rfl, (Context.blind_anchor l.canvas.contexts.size).has (hsame ▸ hhas)⟩
          · split
            · next hj =>
                exact absurd (hplace.symm.trans (h.held_size hj)) (by simp)
            · exact ⟨context, hcontext, hhas⟩

end Live
end Svg
end CellSketch
