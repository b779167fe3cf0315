import CellSketch.Proofs.Canvas.LiveTree

/-!
# Overlays — what taking a document does to a live tree

For a document the overlay of the last one is taken out of each group, and the overlay of now is
put in, one context after the other, up to the first overlay that cannot be finished.

* `Svg.Live.fault_render`, `Svg.Live.drawn_render` — nothing else happens to the drawing;
* `Svg.Live.fresh_render` — every context that is reached has the overlay of now;
* `Svg.groupsFrom_keep` — with that, the groups are those of a document that is built anew.
-/

namespace CellSketch

open Number

variable {α : Type}

/-! ## What sizes and nesting depend on -/

/-- The contexts inside and the room taken, which is all that sizes depend on. -/
def Context.frame (c : Context α) : Array Child × Int × Int := (c.children, c.width, c.height)

theorem Context.frame_release (c : Context α) (place : Option Place) :
    (c.release place).frame = c.frame :=
  apply_release (fun _ _ _ => rfl) c place

theorem Context.frame_keep (c : Context α) (figures : Option (List (Figure α))) :
    (c.keep figures).frame = c.frame :=
  apply_keep (fun _ _ _ => rfl) c figures

namespace Canvas

variable {c c' : Canvas α}

theorem modify_of_forall {i : Nat} {f : Context α → Context α}
    (h : ∀ context, f context = context) : c.modify i f = c := by
  refine ext_context? fun j => ?_
  rw [context?_modify, funext h, Option.map_id']
  split
  · next hj => rw [hj]
  · rfl

/-- Canvases whose contexts have the same frames. -/
def SameFrames (c c' : Canvas α) : Prop :=
  c.contexts.toList.map Context.frame = c'.contexts.toList.map Context.frame

theorem SameFrames.forall₂ (h : c.SameFrames c') :
    List.Forall₂ (fun context context' => context.frame = context'.frame) c.contexts.toList
      c'.contexts.toList := by
  rw [SameFrames, ← List.forall₂_eq_eq_eq, List.forall₂_map_left_iff,
    List.forall₂_map_right_iff] at h
  exact h

theorem sizesFrom_congr {contexts contexts' : List (Context α)}
    (h : List.Forall₂ (fun c c' => c.frame = c'.frame) contexts contexts') (base : Nat) :
    sizesFrom base contexts = sizesFrom base contexts' := by
  induction h generalizing base with
  | nil => rfl
  | cons hframe _ ih =>
      obtain ⟨hchildren, hroom⟩ := Prod.mk.inj hframe
      rw [sizesFrom, sizesFrom, ih, hchildren, hroom]

theorem nestedFrom_congr {contexts contexts' : List (Context α)}
    (h : List.Forall₂ (fun c c' => c.frame = c'.frame) contexts contexts') (base : Nat) :
    nestedFrom base contexts = nestedFrom base contexts' := by
  induction h generalizing base with
  | nil => rfl
  | cons hframe _ ih => rw [nestedFrom, nestedFrom, ih, (Prod.mk.inj hframe).1]

theorem sameFrames_of_context?
    (h : ∀ i, (c.context? i).map Context.frame = (c'.context? i).map Context.frame) :
    c.SameFrames c' :=
  List.ext_getElem? fun i => by
    rw [List.getElem?_map, List.getElem?_map, Array.getElem?_toList, Array.getElem?_toList]
    exact h i

theorem SameFrames.nested (h : c.SameFrames c') : c.nested = c'.nested := by
  rw [Canvas.nested, Canvas.nested, nestedFrom_congr h.forall₂]

theorem SameFrames.sizeInCells (h : c.SameFrames c') (i : Nat) :
    c.sizeInCells i = c'.sizeInCells i := by
  rw [Canvas.sizeInCells, Canvas.sizeInCells, sizesFrom_congr h.forall₂]

end Canvas

/-! ## Taking a document -/

namespace Svg

variable [Scalar α]

/-- What there is to write of the overlay of the context with a number. -/
def traceAt (c : Canvas α) (i : Nat) : Tracing α :=
  match c.context? i with
  | some context => trace context (c.sizeInCells i)
  | none => {}

/-- Where the overlay stands that a document leaves on a context, if it was finished. -/
def Tracing.place (t : Tracing α) (c : Context α) : Option Place :=
  match t with
  | ⟨some _, none⟩ => some c.place
  | _ => none

omit [Scalar α] in
/-- Only what could not be finished stays when the overlay is taken out again. -/
theorem Tracing.release_keep (t : Tracing α) (c : Context α) :
    (c.keep t.figures).release (t.place c) = if t.fault = none then c else c.keep t.figures := by
  match t with
  | ⟨none, none⟩ => rfl
  | ⟨none, some _⟩ => rfl
  | ⟨some figures, none⟩ => exact c.release_keepUnfinished figures
  | ⟨some figures, some _⟩ => rfl

omit [Scalar α] in
theorem Tracing.has_keep {t : Tracing α} {c : Context α} {place : Place}
    (h : t.place c = some place) : (c.keep t.figures).Has place := by
  match t with
  | ⟨none, _⟩ => cases h
  | ⟨some figures, none⟩ =>
      cases h
      exact c.has_keepUnfinished figures
  | ⟨some figures, some _⟩ => cases h

theorem stopped?_eq (c : Canvas α) :
    stopped? c =
      c.nested.findSome? fun i => (traceAt c i).fault.map fun _ => (i, traceAt c i) := by
  unfold stopped? traceAt
  dsimp only
  congr 1
  funext i
  cases hcontext : c.context? i with
  | none => rfl
  | some context =>
      have hlt : i < c.contexts.size := (Array.getElem?_eq_some_iff.1 hcontext).1
      have hsize : i < (Canvas.sizesFrom 0 c.contexts.toList).length := by
        rwa [Canvas.length_sizesFrom, Array.length_toList]
      simp [Canvas.sizeInCells, List.getElem?_eq_getElem hsize]

namespace Live

/-- The tree with another context in the place of one, and with its overlay at a place. -/
def put (l : Live α) (i : Nat) (context : Context α) (place : Option Place) : Live α :=
  { l with
    canvas := l.canvas.modify i fun _ => context
    held := Function.update l.held i place }

omit [Scalar α] in
theorem held_put (l : Live α) (i : Nat) (context : Context α) (place : Option Place) (j : Nat) :
    (l.put i context place).held j = if j = i then place else l.held j :=
  Function.update_apply l.held i place j

/-- Takes the overlay of the last document out of a group, and puts the one of now in. -/
def refresh (l : Live α) (i : Nat) : Attempt (Live α) :=
  match l.canvas.context? i with
  | none => ⟨l, none⟩
  | some context =>
      let bare := context.release (l.held i)
      let tracing := trace bare (l.canvas.sizeInCells i)
      ⟨l.put i (bare.keep tracing.figures) (tracing.place bare), tracing.fault⟩

/-- Refreshes the overlays of all contexts, up to the first that cannot be finished. -/
def render (l : Live α) : Attempt (Live α) := Attempt.each refresh l l.canvas.nested

variable {l : Live α} {i : Nat}

omit [Scalar α] in
theorem sameFrames_drawn (l : Live α) : l.canvas.SameFrames l.drawn :=
  Canvas.sameFrames_of_context? fun i => (map_context?_drawn Context.frame_release l i).symm

/-- What is put on a context depends on what is drawn alone. -/
theorem refresh_eq (l : Live α) {context : Context α} (h : l.drawn.context? i = some context) :
    l.refresh i =
      ⟨l.put i (context.keep (traceAt l.drawn i).figures) ((traceAt l.drawn i).place context),
        (traceAt l.drawn i).fault⟩ := by
  have hdrawn := h
  rw [context?_drawn] at hdrawn
  obtain ⟨found, hfound, rfl⟩ := Option.map_eq_some_iff.1 hdrawn
  rw [traceAt, h, ← (sameFrames_drawn l).sizeInCells]
  simp only [refresh, hfound]

theorem refresh_of_none (h : l.drawn.context? i = none) : l.refresh i = ⟨l, none⟩ := by
  rw [context?_drawn, Option.map_eq_none_iff] at h
  simp only [refresh, h]

/-- A context has the overlay of now, and nothing else but what is drawn. -/
def Fresh (l : Live α) (i : Nat) : Prop :=
  l.canvas.context? i = (l.drawn.context? i).map (·.keep (traceAt l.drawn i).figures)

theorem fault_refresh (l : Live α) (i : Nat) : (l.refresh i).fault = (traceAt l.drawn i).fault := by
  cases h : l.drawn.context? i with
  | none => rw [refresh_of_none h, traceAt, h]
  | some context => rw [refresh_eq l h]

theorem context?_refresh (l : Live α) (i j : Nat) :
    (l.refresh i).state.canvas.context? j =
      if j = i then (l.drawn.context? i).map (·.keep (traceAt l.drawn i).figures)
      else l.canvas.context? j := by
  cases h : l.drawn.context? i with
  | none =>
      rw [refresh_of_none h, Option.map_none]
      rw [context?_drawn, Option.map_eq_none_iff] at h
      split
      · next hj => rw [hj, h]
      · rfl
  | some context =>
      rw [refresh_eq l h]
      rw [context?_drawn] at h
      obtain ⟨found, hfound, -⟩ := Option.map_eq_some_iff.1 h
      change (l.canvas.modify i _).context? j = _
      rw [Canvas.context?_modify, hfound]
      rfl

theorem Sound.refresh (h : l.Sound) (i : Nat) : (l.refresh i).state.Sound := by
  cases hi : l.drawn.context? i with
  | none =>
      rw [refresh_of_none hi]
      exact h
  | some context =>
      intro j place hplace
      rw [context?_refresh, hi]
      rw [refresh_eq l hi] at hplace
      simp only [held_put] at hplace
      split
      · next hj =>
          rw [if_pos hj] at hplace
          exact ⟨_, rfl, Tracing.has_keep hplace⟩
      · next hj =>
          rw [if_neg hj] at hplace
          exact h j place hplace

/-- An overlay that is finished is no part of what is drawn; one that is not becomes one. -/
theorem drawn_refresh (l : Live α) (i : Nat) :
    (l.refresh i).state.drawn =
      if (traceAt l.drawn i).fault = none then l.drawn
      else l.drawn.modify i (·.keep (traceAt l.drawn i).figures) := by
  refine Canvas.ext_context? fun j => ?_
  rw [context?_drawn, context?_refresh]
  cases hi : l.drawn.context? i with
  | none =>
      rw [refresh_of_none hi, traceAt, hi, if_pos rfl, context?_drawn]
      split
      · next hj =>
          rw [context?_drawn, Option.map_eq_none_iff] at hi
          rw [hj, hi]
          rfl
      · rfl
  | some context =>
      rw [refresh_eq l hi]
      simp only [held_put]
      rw [apply_ite (Canvas.context? · j), Canvas.context?_modify, hi]
      by_cases hj : j = i
      · subst hj
        rw [if_pos rfl, if_pos rfl, if_pos rfl, hi, Option.map_some, Option.map_some,
          Tracing.release_keep, apply_ite some]
      · simp only [if_neg hj, ite_self, context?_drawn]

theorem drawn_refresh_of_none (hfault : (traceAt l.drawn i).fault = none) :
    (l.refresh i).state.drawn = l.drawn := by
  rw [drawn_refresh, if_pos hfault]

/-! ### All overlays -/

theorem Fresh.refresh (h : l.Fresh i) {j : Nat} (hfault : (traceAt l.drawn j).fault = none) :
    (l.refresh j).state.Fresh i := by
  unfold Fresh
  rw [context?_refresh, drawn_refresh_of_none hfault]
  split
  · next hi => rw [hi]
  · exact h

theorem fresh_refresh (hfault : (traceAt l.drawn i).fault = none) :
    (l.refresh i).state.Fresh i := by
  unfold Fresh
  rw [context?_refresh, drawn_refresh_of_none hfault, if_pos rfl]

/-- The first context, out of some, whose overlay cannot be finished. -/
def stoppedIn (c : Canvas α) (is : List Nat) : Option (Nat × Tracing α) :=
  is.findSome? fun i => (traceAt c i).fault.map fun _ => (i, traceAt c i)

theorem stoppedIn_cons (c : Canvas α) (i : Nat) (is : List Nat) :
    stoppedIn c (i :: is) =
      if (traceAt c i).fault = none then stoppedIn c is else some (i, traceAt c i) := by
  unfold stoppedIn
  rw [List.findSome?_cons]
  cases h : (traceAt c i).fault <;> simp

theorem Sound.each_refresh (h : l.Sound) (is : List Nat) :
    (Attempt.each Live.refresh l is).state.Sound :=
  Attempt.each_preserves (fun _ i hl => hl.refresh i) h is

/-- Refreshing goes on behind an overlay that is finished. -/
theorem each_refresh_cons (hfault : (traceAt l.drawn i).fault = none) (rest : List Nat) :
    Attempt.each refresh l (i :: rest) = Attempt.each refresh (l.refresh i).state rest := by
  rw [Attempt.each, Attempt.andThen, fault_refresh, hfault]

/-- Refreshing all of some overlays changes nothing that is drawn, and leaves fresh ones. -/
theorem each_refresh_of_none {is : List Nat} (h : stoppedIn l.drawn is = none) :
    (Attempt.each refresh l is).fault = none ∧
      (Attempt.each refresh l is).state.drawn = l.drawn ∧
      ∀ i, i ∈ is ∨ l.Fresh i → (Attempt.each refresh l is).state.Fresh i := by
  induction is generalizing l with
  | nil => exact ⟨rfl, rfl, fun i hi => hi.resolve_left List.not_mem_nil⟩
  | cons j rest ih =>
      rw [stoppedIn_cons] at h
      by_cases hfault : (traceAt l.drawn j).fault = none
      · rw [if_pos hfault] at h
        -- the rest starts from the same drawing, in which one overlay more is fresh
        have hdrawn := drawn_refresh_of_none hfault
        obtain ⟨hrest, hsame, hfresh⟩ := @ih (l.refresh j).state (by rwa [hdrawn])
        rw [each_refresh_cons hfault]
        refine ⟨hrest, hsame.trans hdrawn, fun i hi => hfresh i ?_⟩
        rcases hi with hi | hi
        · rcases List.mem_cons.1 hi with rfl | hi
          · exact .inr (fresh_refresh hfault)
          · exact .inl hi
        · exact .inr (hi.refresh hfault)
      · rw [if_neg hfault] at h
        cases h

/-- Refreshing stops at the first overlay that cannot be finished, and leaves what there is of it
in its group. -/
theorem each_refresh_of_some {is : List Nat} {i : Nat} {t : Tracing α}
    (h : stoppedIn l.drawn is = some (i, t)) :
    (Attempt.each refresh l is).fault = t.fault ∧
      (Attempt.each refresh l is).state.drawn = l.drawn.modify i (·.keep t.figures) := by
  induction is generalizing l with
  | nil => cases h
  | cons j rest ih =>
      rw [stoppedIn_cons] at h
      by_cases hfault : (traceAt l.drawn j).fault = none
      · rw [if_pos hfault] at h
        have hdrawn := drawn_refresh_of_none hfault
        rw [each_refresh_cons hfault, ← hdrawn]
        exact ih (by rwa [hdrawn])
      · rw [if_neg hfault] at h
        cases h
        obtain ⟨fault, hsome⟩ := Option.ne_none_iff_exists'.1 hfault
        have heach : Attempt.each refresh l (i :: rest) = l.refresh i := by
          rw [Attempt.each, Attempt.andThen, fault_refresh, hsome]
        rw [heach]
        exact ⟨fault_refresh l i, by rw [drawn_refresh, if_neg hfault]⟩

theorem stopped?_drawn (l : Live α) : stopped? l.drawn = stoppedIn l.drawn l.canvas.nested := by
  rw [stopped?_eq, (sameFrames_drawn l).nested]
  rfl

/-- What stops a document from being written stops the rendering. -/
theorem fault_render (l : Live α) : l.render.fault = fault? l.drawn := by
  rw [fault?, stopped?_drawn]
  cases h : stoppedIn l.drawn l.canvas.nested with
  | none => exact (each_refresh_of_none h).1
  | some p => exact (each_refresh_of_some h).1

/-- Rendering changes what is drawn as a try to write the document does. -/
theorem drawn_render (l : Live α) : l.render.state.drawn = settled l.drawn := by
  rw [settled, stopped?_drawn]
  cases h : stoppedIn l.drawn l.canvas.nested with
  | none => exact (each_refresh_of_none h).2.1
  | some p =>
      obtain ⟨i, figures, fault⟩ := p
      refine (each_refresh_of_some h).2.trans ?_
      cases figures with
      | none => exact Canvas.modify_of_forall fun _ => rfl
      | some figures => rfl

/-- Every context that is nested in the outermost one has a fresh overlay after a rendering. -/
theorem fresh_render (h : stopped? l.drawn = none) (hi : i ∈ l.drawn.nested) :
    l.render.state.Fresh i := by
  rw [stopped?_drawn] at h
  rw [← (sameFrames_drawn l).nested] at hi
  exact (each_refresh_of_none h).2.2 i (.inl hi)

end Live

/-! ## Groups -/

omit [Scalar α] in
/-- An overlay stands behind everything if the origin was not moved before. -/
theorem ofItems_unfinished {base : Nat} {others : List (Element α)} {items : List (Item α)}
    (h : items.any Item.isShift = false) (figures : List (Figure α)) :
    ofItems base others (items ++ [.unfinished figures]) =
      ofItems base others items ++ [.overlay figures] := by
  induction items with
  | nil => rfl
  | cons item rest ih =>
      rw [List.any_cons, Bool.or_eq_false_iff] at h
      cases item with
      | shift dx dy => cases h.1
      | _ => simp [ofItems, ih h.2]

end Svg

/-- Overlays stand behind the items only where the origin was moved. -/
def Context.Layered (c : Context α) : Prop :=
  c.leftovers = #[] ∨ c.items.any Item.isShift = true

namespace Svg

/-- The groups of contexts from number `base` on, as they are kept; the first may be moved. -/
def groupsFrom (base : Nat) (shift : Option (α × α)) : List (Context α) → List (Element α)
  | [] => []
  | c :: rest =>
      let others := groupsFrom (base + 1) none rest
      .group shift (ofItems base others c.items.toList ++ c.leftovers.toList.map .overlay) ::
        others

/-- An overlay that is kept is the last thing in the group. -/
theorem groupOf_keep {c : Context α} (h : c.Layered) (figures : Option (List (Figure α)))
    (base : Nat) (others : List (Element α)) :
    ofItems base others (c.keep figures).items.toList ++
        (c.keep figures).leftovers.toList.map .overlay =
      ofItems base others c.items.toList ++ c.leftovers.toList.map .overlay ++
        figures.toList.map .overlay := by
  cases figures with
  | none => simp [Context.keep]
  | some figures =>
      change ofItems base others (c.keepUnfinished figures).items.toList ++
        (c.keepUnfinished figures).leftovers.toList.map .overlay = _
      unfold Context.keepUnfinished
      split
      · simp
      · next hshift =>
          rw [Bool.not_eq_true] at hshift
          have hleftovers : c.leftovers = #[] := h.resolve_right (by rw [hshift]; simp)
          rw [Context.push, Array.toList_push, ofItems_unfinished (by simpa using hshift),
            hleftovers]
          simp

variable [Scalar α]

/-- Contexts that keep their overlays have the groups of a document that is built anew. -/
theorem groupsFrom_keep {contexts : List (Context α)} (h : ∀ c ∈ contexts, c.Layered)
    {sizes : List (Int × Int)} (hsizes : sizes.length = contexts.length) (base : Nat)
    (shift : Option (α × α)) :
    groupsFrom base shift
        (List.zipWith (fun c size => c.keep (trace c size).figures) contexts sizes) =
      contextsFrom base shift contexts sizes := by
  induction contexts generalizing base shift sizes with
  | nil => rfl
  | cons c rest ih =>
      cases sizes with
      | nil => cases hsizes
      | cons size sizes =>
          have hrest := ih (fun d hd => h d (List.mem_cons_of_mem c hd))
            (Nat.succ.inj hsizes) (base + 1) none
          rw [List.zipWith_cons_cons, groupsFrom, contextsFrom, hrest]
          simp only [groupOf_keep (h c List.mem_cons_self), ofContext]

namespace Live

variable {l : Live α}

/-- The outermost group as it is kept. -/
def root? (l : Live α) : Option (Element α) :=
  (groupsFrom 0 l.shift l.canvas.contexts.toList).head?

/-- After a rendering that reaches all contexts, the groups are those of a document that is built
anew. -/
theorem groups_render (hstopped : stopped? l.drawn = none)
    (hreached : ∀ i < l.drawn.contexts.size, i ∈ l.drawn.nested)
    (hlayered : ∀ context ∈ l.drawn.contexts, context.Layered) (shift : Option (α × α)) :
    groupsFrom 0 shift l.render.state.canvas.contexts.toList =
      contextsFrom 0 shift l.drawn.contexts.toList
        (Canvas.sizesFrom 0 l.drawn.contexts.toList) := by
  have hsizes : (Canvas.sizesFrom 0 l.drawn.contexts.toList).length =
      l.drawn.contexts.toList.length := Canvas.length_sizesFrom _ 0
  rw [← groupsFrom_keep (fun c hc => hlayered c (Array.mem_toList_iff.1 hc)) hsizes]
  congr 1
  have hdrawn : l.render.state.drawn = l.drawn := by rw [drawn_render, settled, hstopped]
  -- each kept context is what is drawn there with the overlay of now behind it
  refine List.ext_getElem? fun i => ?_
  rw [List.getElem?_zipWith, Array.getElem?_toList]
  change l.render.state.canvas.context? i = _
  by_cases hi : i < l.drawn.contexts.size
  · have hfresh := fresh_render hstopped (hreached i hi)
    obtain ⟨context, hcontext⟩ : ∃ context, l.drawn.context? i = some context :=
      ⟨_, Array.getElem?_eq_getElem hi⟩
    have hsize : (Canvas.sizesFrom 0 l.drawn.contexts.toList)[i]? =
        some (l.drawn.sizeInCells i) := by
      rw [Canvas.sizeInCells, List.getElem?_eq_getElem (by rwa [hsizes, Array.length_toList])]
      rfl
    have hlist : l.drawn.contexts.toList[i]? = some context := by
      rwa [Array.getElem?_toList]
    rw [Fresh, hdrawn, traceAt, hcontext] at hfresh
    rw [hfresh, hlist, hsize]
    rfl
  · have hsize : l.render.state.canvas.contexts.size = l.drawn.contexts.size := by
      rw [← size_drawn, hdrawn]
    have hnone : l.render.state.canvas.context? i = none :=
      Array.getElem?_eq_none (by omega)
    rw [hnone, List.getElem?_eq_none (by rw [Array.length_toList]; omega)]

end Live
end Svg
end CellSketch
