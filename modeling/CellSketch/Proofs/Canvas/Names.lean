import CellSketch.Proofs.Canvas.LiveSketch

/-!
# Names — the texts that settings are written with

Colours and families of fonts are written as they were given.  They come from the colours of a
sketch and from changes of settings; a shape with a fill of its own takes it from the style of its
context.

* `Context.Named.work` — work brings no names but those that are given with it;
* `Sketch.named_run` — nor does anything that is done with a sketch for commands;
* `Mvg.named_document` — and its commands are written with these names.
-/

namespace CellSketch

open Number

/-! ## Names -/

section Names

variable {α : Type}

def StrokeChange.names (c : StrokeChange α) : List String := c.color.toList

def FillChange.names (c : FillChange α) : List String := c.color.toList

def FontChange.names (c : FontChange α) : List String := c.family.toList

def Style.names (s : Style α) : List String :=
  [s.background, s.stroke.color, s.fill.color, s.font.family]

/-- The names that items are written with in commands. -/
def Item.names : Item α → List String
  | .figure f => f.shape.ownFill.toList
  | .stroke change => change.names
  | .fill change => change.names
  | .font change => change.names
  | .raw command => [command]
  | .hollow | .unfinished _ | .shift .. | .child _ => []

def Work.names : Work α → List String
  | .setStroke change => change.names
  | .setFill change => change.names
  | .setFont change => change.names
  | .translate .. | .draw _ | .setSize _ | .setDebug .. => []

def Op.names : Op α → List String
  | .addContext _ => []
  | .work _ w => w.names

def Action.names : Action → List String
  | .perform op => op.names
  | .setCellSize .. | .setScale _ | .showCells _ | .resize .. | .size | .document => []

def Colors.names (c : Colors) : List String := [c.background, c.foreground, c.fill]

def Mvg.Command.names : Mvg.Command α → List String
  | .shape s => s.ownFill.toList
  | .stroke change => change.names
  | .fill change => change.names
  | .font change => change.names
  | .raw text => [text]
  | .push | .pop | .translate .. | .frame .. => []

end Names

/-! ## Contexts -/

variable {α : Type} {P : String → Prop}

/-- All names of a context are of a kind. -/
structure Context.Named (P : String → Prop) (c : Context α) : Prop where
  style : ∀ n ∈ c.style.names, P n
  items : ∀ item ∈ c.items, ∀ n ∈ item.names, P n

namespace Context.Named

variable {c : Context α}

theorem push (h : c.Named P) {item : Item α} (hitem : ∀ n ∈ item.names, P n) :
    (c.push item).Named P where
  style := h.style
  items other hmem := by
    rcases Array.mem_push.1 hmem with hmem | rfl
    · exact h.items other hmem
    · exact hitem

theorem same (h : c.Named P) {c' : Context α} (hstyle : c'.style = c.style)
    (hitems : c'.items = c.items) : c'.Named P :=
  ⟨hstyle ▸ h.style, hitems ▸ h.items⟩

theorem anchor (h : c.Named P) (index : Nat) : (c.anchor index).Named P := by
  have hpush : (c.push (.child index)).Named P := h.push (List.forall_mem_nil _)
  exact hpush.same rfl rfl

theorem inner [Scalar α] (h : c.Named P) : c.inner.Named P := ⟨h.style, fun _ hmem => nomatch hmem⟩

end Context.Named

/-! ### Fills of shapes -/

variable [Scalar α]

namespace Primitive

theorem ownFill_pieces {size : CellSize α} {points first second : List (Point α)} {s : Shape α}
    (hs : s ∈ pieces size points first second) : s.ownFill = none := by
  induction points generalizing first second with
  | nil => cases hs
  | cons a points ih =>
      match points, first, second, hs with
      | b :: points, c :: first, d :: second, hs =>
          rcases List.mem_cons.1 hs with rfl | hs
          · rfl
          · exact ih hs

theorem ownFill_headsOf {size : CellSize α} {color : String} {arrow : Arrow} {p q : Point α}
    {angle turn : Angle α} {s : Shape α}
    (hs : s ∈ headsOf arrow (headShape size color p angle) (headShape size color q turn)) :
    s.ownFill = some color := by
  rcases List.mem_append.1 hs with hs | hs
  all_goals
    split at hs
    · rw [List.mem_singleton.1 hs]
      rfl
    · cases hs

theorem ownFill_markerShapes {size : CellSize α} {background : String} {c : Cell} {m : Marker}
    {sides : Sides} {s : Shape α} (hs : s ∈ markerShapes size background c m sides) {n : String}
    (hn : s.ownFill = some n) : n = background := by
  unfold markerShapes at hs
  rcases List.mem_append.1 hs with hs | hs
  · -- the stubs are lines
    rcases List.mem_append.1 hs with hs | hs
    all_goals
      split at hs
      · rw [List.mem_singleton.1 hs] at hn
        cases hn
      · cases hs
  · cases m with
    | cross =>
        simp only [List.mem_cons, List.not_mem_nil, or_false] at hs
        rcases hs with rfl | rfl <;> cases hn
    | circle =>
        rw [List.mem_singleton.1 hs] at hn
        cases hn
        rfl
    | plain => cases hs

/-- A shape that does not take the fill of its style takes another colour of it, or none. -/
theorem ownFill_shapes {p : Primitive α} {size : CellSize α} {style : Style α} {s : Shape α}
    (hs : s ∈ p.shapes size style) {n : String} (hn : s.ownFill = some n) :
    n = style.background ∨ n = style.stroke.color ∨ n = "transparent" := by
  have hhead {line : Shape α} {arrow : Arrow} {p q : Point α} {angle turn : Angle α}
      (hline : line.ownFill = none)
      (hs : s ∈ line :: headsOf arrow (headShape size style.stroke.color p angle)
        (headShape size style.stroke.color q turn)) : n = style.stroke.color := by
    rcases List.mem_cons.1 hs with rfl | hs
    · rw [hline] at hn
      cases hn
    · rw [ownFill_headsOf hs] at hn
      exact (Option.some.inj hn).symm
  cases p with
  | curve points first second =>
      rw [ownFill_pieces hs] at hn
      cases hn
  | line a b arrow => exact .inr (.inl (hhead rfl hs))
  | run axis lane first last arrow =>
      cases axis <;> exact .inr (.inl (hhead rfl hs))
  | crossing c =>
      simp only [shapes, List.mem_cons, List.not_mem_nil, or_false] at hs
      rcases hs with rfl | rfl
      · cases hn
      · exact .inr (.inr (Option.some.inj hn).symm)
  | marker c m sides => exact .inl (ownFill_markerShapes hs hn)
  | roundCorner c corner =>
      rw [List.mem_singleton.1 hs] at hn
      exact .inr (.inr (Option.some.inj hn).symm)
  | head p angle =>
      rw [List.mem_singleton.1 hs] at hn
      exact .inr (.inl (Option.some.inj hn).symm)
  | rectangle | path | text =>
      rw [List.mem_singleton.1 hs] at hn
      cases hn

end Primitive

/-! ### Work -/

namespace Context.Named

variable {c : Context α}

theorem setSize (h : c.Named P) (p : Point α) : (c.setSize p).state.Named P := by
  unfold Context.setSize
  split
  · exact h
  · split <;> exact h.same rfl rfl

theorem setCellSize (h : c.Named P) (width height : α) :
    (c.setCellSize width height).state.Named P := by
  unfold Context.setCellSize
  exact Attempt.barring_preserves h (Attempt.barring_preserves (h.same rfl rfl) (h.same rfl rfl))

theorem drawShape (h : c.Named P) {s : Shape α} (hs : ∀ n, s.ownFill = some n → P n) :
    (c.drawShape s).state.Named P := by
  unfold Context.drawShape
  refine Attempt.barring_preserves h (Attempt.barring_preserves ?_ (h.push fun n hn => ?_))
  · split
    · exact h.push (List.forall_mem_nil _)
    · exact h
  · exact hs n (Option.mem_toList.1 hn)

theorem draw (h : c.Named P) (hnone : P "transparent") (p : Primitive α) :
    (c.draw p).state.Named P := by
  unfold Context.draw
  refine Attempt.andThen_preserves ?_ fun c hc => Attempt.barring_preserves hc ?_
  · cases p.reach with
    | none => exact h
    | some last => exact h.setSize last
  -- drawing the first shapes changes nothing that the next ones are made of
  have hshapes : ∀ s ∈ p.shapes c.cell c.style, ∀ n, s.ownFill = some n → P n := by
    intro s hs n hn
    rcases Primitive.ownFill_shapes hs hn with rfl | rfl | rfl
    · exact hc.style _ (by simp [Style.names])
    · exact hc.style _ (by simp [Style.names])
    · exact hnone
  generalize p.shapes c.cell c.style = shapes at hshapes
  induction shapes generalizing c with
  | nil => exact hc
  | cons s rest ih =>
      obtain ⟨hfirst, hrest⟩ := List.forall_mem_cons.1 hshapes
      exact Attempt.andThen_preserves (hc.drawShape hfirst) fun c hc => ih c hc hrest

theorem translate (h : c.Named P) (dx dy : Int) : (c.translate dx dy).state.Named P := by
  unfold Context.translate
  dsimp only
  split
  · exact h.same rfl rfl
  · have hshift {c' : Context α} {right down : α} (hc' : c'.Named P) :
        (c'.push (.shift right down)).Named P := hc'.push (List.forall_mem_nil _)
    exact Attempt.barring_preserves (P := Named P) (h.same rfl rfl) (hshift (h.same rfl rfl))

/-- A change of settings whose new style has names of the kind, noted or passed over. -/
theorem setting (h : c.Named P) {empty : Bool} {style : Style α} {change : Item α}
    (numbers : List α) (hstyle : ∀ n ∈ style.names, P n) (hchange : ∀ n ∈ change.names, P n) :
    (if empty then (⟨c, none⟩ : Attempt (Context α))
      else { c with style := style }.note change numbers).state.Named P := by
  cases empty with
  | true => exact h
  | false =>
      have hstyled : { c with style := style }.Named P := ⟨hstyle, h.items⟩
      exact Attempt.barring_preserves hstyled (hstyled.push hchange)

/-- Work brings no names but those that are given with it. -/
theorem work (h : c.Named P) (hnone : P "transparent") {w : Work α} (hw : ∀ n ∈ w.names, P n) :
    (c.work w).state.Named P := by
  have hstyle := h.style
  simp only [Style.names, List.forall_mem_cons] at hstyle
  obtain ⟨hbackground, hstroke, hfill, hfamily, -⟩ := hstyle
  -- what replaces a name is a given one
  have hgiven {new : Option String} {old : String} (hnew : ∀ n ∈ new.toList, P n) (hold : P old) :
      P (new.getD old) := by
    cases new with
    | none => exact hold
    | some n => exact hnew n (by simp)
  cases w with
  | translate dx dy => exact h.translate dx dy
  | draw primitives =>
      exact Attempt.each_preserves (P := Named P) (fun _ p hc => hc.draw hnone p) h primitives
  | setSize last => exact h.setSize last
  | setStroke change =>
      refine h.setting _ ?_ hw
      simp only [Style.names, StrokeChange.apply, List.forall_mem_cons]
      exact ⟨hbackground, hgiven hw hstroke, hfill, hfamily, List.forall_mem_nil _⟩
  | setFill change =>
      refine h.setting _ ?_ hw
      simp only [Style.names, FillChange.apply, List.forall_mem_cons]
      exact ⟨hbackground, hstroke, hgiven hw hfill, hfamily, List.forall_mem_nil _⟩
  | setFont change =>
      refine h.setting _ ?_ hw
      simp only [Style.names, FontChange.apply, List.forall_mem_cons]
      exact ⟨hbackground, hstroke, hfill, hgiven hw hfamily, List.forall_mem_nil _⟩
  | setDebug shown propagated => exact h.same rfl rfl

end Context.Named

/-! ## Sketches -/

/-- All names of a canvas are of a kind. -/
def Canvas.Named (P : String → Prop) (c : Canvas α) : Prop :=
  ∀ context ∈ c.contexts, context.Named P

theorem Canvas.Named.perform {c : Canvas α} (h : c.Named P) (hnone : P "transparent") {op : Op α}
    (hop : ∀ n ∈ op.names, P n) : (c.perform op).state.Named P := by
  cases op with
  | addContext i =>
      exact forall_addContext (fun _ index hc => hc.anchor index) (fun _ hc => hc.inner) h i
  | work i w => exact forall_attempt (fun _ hc => hc.work hnone hop) h i

namespace Sketch

variable {s : Sketch}

theorem named_empty (format : Format) {colors : Colors} (hfamily : P defaultFamily)
    (hcolors : ∀ n ∈ colors.names, P n) : (empty format colors).canvas.Named P := by
  intro context hcontext
  rw [List.mem_singleton.1 (Array.mem_toList_iff.2 hcontext)]
  simp only [Colors.names, List.forall_mem_cons] at hcolors
  refine ⟨?_, fun _ hmem => nomatch hmem⟩
  simp only [Style.names, Style.ofColors, List.forall_mem_cons]
  exact ⟨hcolors.1, hcolors.2.1, hcolors.2.2.1, hfamily, List.forall_mem_nil _⟩

theorem named_step (hformat : s.format ≠ .svg) (hnone : P "transparent") (h : s.canvas.Named P)
    {action : Action} (haction : ∀ n ∈ action.names, P n) : (s.step action).canvas.Named P := by
  cases action with
  | setCellSize width height =>
      have hsized := Canvas.forall_attempt (fun _ hc => hc.setCellSize width height) h 0
      rw [step, Sketch.setCellSize]
      split
      · rename_i canvas hdone
        rw [hdone] at hsized
        exact hsized
      · exact h
  | setScale spec =>
      rw [step, Sketch.setScale]
      split <;> exact h
  | showCells shown =>
      rw [step, Sketch.showCells, Canvas.modify_eq_attempt]
      exact Canvas.forall_attempt (fun _ hc => hc.same rfl rfl) h 0
  | perform op => exact h.perform hnone haction
  | resize i width height =>
      exact Canvas.forall_attempt (fun _ hc => hc.setCellSize width height) h i
  | size => exact h
  | document =>
      rw [step, settled]
      split
      · exact absurd (by assumption) hformat
      · exact h

/-- Whatever is done with a sketch for commands, its names are those that were given. -/
theorem named_run {format : Format} {colors : Colors} (hformat : format ≠ .svg)
    (hnone : P "transparent") (hfamily : P defaultFamily) (hcolors : ∀ n ∈ colors.names, P n)
    {actions : List Action} (hactions : ∀ a ∈ actions, ∀ n ∈ a.names, P n) :
    ((empty format colors).run actions).canvas.Named P := by
  have hempty : (empty format colors).format ≠ .svg := hformat
  have hnamed := named_empty format hfamily hcolors
  generalize empty format colors = s at hempty hnamed
  induction actions generalizing s with
  | nil => exact hnamed
  | cons action rest ih =>
      obtain ⟨hfirst, hrest⟩ := List.forall_mem_cons.1 hactions
      exact ih hrest _ (by rwa [format_step]) (named_step hempty hnone hnamed hfirst)

end Sketch

/-! ## Commands -/

namespace Mvg

/-- All names of commands, if there are any, are of a kind. -/
def AllNamed (P : String → Prop) (commands : Except Fault (List (Command α))) : Prop :=
  ∀ list, commands = .ok list → ∀ command ∈ list, ∀ n ∈ command.names, P n

omit [Scalar α] in
theorem named_ofOwn {item : Item α} (h : ∀ n ∈ item.names, P n) :
    ∀ command ∈ ofOwn item, ∀ n ∈ command.names, P n := by
  cases item with
  | figure f =>
      intro command hcommand n hn
      rw [ofOwn, ofShape] at hcommand
      split at hcommand
      · simp only [List.mem_cons, List.not_mem_nil, or_false] at hcommand
        rcases hcommand with rfl | rfl | rfl
        · cases hn
        · exact h n hn
        · cases hn
      · rw [List.mem_singleton.1 hcommand] at hn
        exact h n hn
  | shift | stroke | fill | font | raw => exact List.forall_mem_singleton.2 h
  | hollow | unfinished | child => exact List.forall_mem_nil _

omit [Scalar α] in
theorem named_ofItems {base : Nat} {others : List (Except Fault (List (Command α)))}
    (hothers : ∀ e ∈ others, AllNamed P e) {items : List (Item α)}
    (hitems : ∀ item ∈ items, ∀ n ∈ item.names, P n) : AllNamed P (ofItems base others items) := by
  induction items with
  | nil =>
      intro list h
      cases h
      exact List.forall_mem_nil _
  | cons item rest ih =>
      obtain ⟨hfirst, hrest⟩ := List.forall_mem_cons.1 hitems
      intro list h
      cases item with
      | child index =>
          obtain ⟨inner, hinner, h⟩ := exists_of_bind_eq_ok h
          obtain ⟨more, hmore, h⟩ := exists_of_bind_eq_ok h
          cases h
          refine List.forall_mem_append.2 ⟨?_, ih hrest more hmore⟩
          cases hlater : Canvas.later? base index others with
          | none =>
              rw [hlater] at hinner
              cases hinner
              exact List.forall_mem_nil _
          | some e =>
              rw [hlater] at hinner
              unfold Canvas.later? at hlater
              split at hlater
              · exact hothers e (List.mem_of_getElem? hlater) inner hinner
              · cases hlater
      | _ =>
          obtain ⟨more, hmore, rfl⟩ := exists_of_map_eq_ok h
          exact List.forall_mem_append.2 ⟨named_ofOwn hfirst, ih hrest more hmore⟩

theorem named_ofOverlay (hnone : P "transparent") (c : Context α) (size : Int × Int) :
    AllNamed P (ofOverlay c size) := by
  intro list h
  obtain ⟨overlay, hoverlay, rfl⟩ := exists_of_map_eq_ok h
  -- lines and labels have no fill of their own
  have hlines : (∀ s ∈ overlay.lines, s.ownFill = none) ∧ overlay.label.ownFill = none := by
    unfold Canvas.overlay at hoverlay
    dsimp only at hoverlay
    split at hoverlay
    · cases hoverlay
    · cases hoverlay
      refine ⟨List.forall_mem_append.2 ⟨fun s hs => ?_, fun s hs => ?_⟩, rfl⟩
      all_goals
        obtain ⟨k, -, rfl⟩ := List.mem_map.1 hs
        rfl
  have hshape {s : Shape α} (hs : s.ownFill = none) :
      ∀ n ∈ (Command.shape s).names, P n := by
    simp [Command.names, hs]
  simp only [List.forall_mem_append, List.forall_mem_cons, List.forall_mem_map]
  refine ⟨⟨⟨List.forall_mem_nil _, List.forall_mem_nil _, ?_, List.forall_mem_nil _⟩,
    fun s hs => hshape (hlines.1 s hs)⟩, List.forall_mem_nil _, hshape hlines.2,
    List.forall_mem_nil _, List.forall_mem_nil _⟩
  exact List.forall_mem_singleton.2 hnone

theorem named_contextsFrom (hnone : P "transparent") (hfamily : P defaultFamily) (base : Nat)
    {contexts : List (Context α)} (h : ∀ c ∈ contexts, c.Named P) (sizes : List (Int × Int)) :
    ∀ e ∈ contextsFrom base contexts sizes, AllNamed P e := by
  induction contexts generalizing base sizes with
  | nil => exact List.forall_mem_nil _
  | cons c rest ih =>
      cases sizes with
      | nil => exact List.forall_mem_nil _
      | cons size sizes =>
          obtain ⟨hfirst, hrest⟩ := List.forall_mem_cons.1 h
          have hothers := ih (base + 1) hrest sizes
          refine List.forall_mem_cons.2 ⟨fun list hlist => ?_, hothers⟩
          obtain ⟨drawn, overlay, hdrawn, hoverlay, rfl⟩ := ofContext_eq_ok hlist
          have hitems := named_ofItems hothers
            (fun item hitem => hfirst.items item (Array.mem_toList_iff.1 hitem)) drawn hdrawn
          have hshown : ∀ command ∈ overlay, ∀ n ∈ command.names, P n := by
            rcases hoverlay with ⟨-, rfl⟩ | ⟨-, hoverlay⟩
            · exact List.forall_mem_nil _
            · exact named_ofOverlay hnone c size overlay hoverlay
          simp only [List.forall_mem_append, List.forall_mem_cons]
          exact ⟨⟨⟨⟨List.forall_mem_nil _, List.forall_mem_singleton.2 hfamily,
            List.forall_mem_nil _, List.forall_mem_nil _⟩, hitems⟩, hshown⟩, List.forall_mem_nil _,
            List.forall_mem_nil _⟩

/-- The commands of a canvas are written with its names. -/
theorem named_document (hnone : P "transparent") (hfamily : P defaultFamily) {c : Canvas α}
    (h : c.Named P) {foreground fill : String} (hforeground : P foreground) (hfill : P fill) :
    AllNamed P (document c foreground fill) := by
  intro list hlist
  obtain ⟨drawn, hdrawn, rfl⟩ := exists_of_map_eq_ok hlist
  have hall : ∀ command ∈ drawn, ∀ n ∈ command.names, P n := by
    unfold commands at hdrawn
    dsimp only at hdrawn
    generalize Canvas.sizesFrom 0 c.contexts.toList = sizes at hdrawn
    cases hfirst : (contextsFrom 0 c.contexts.toList sizes)[0]? with
    | none =>
        rw [hfirst] at hdrawn
        cases hdrawn
        exact List.forall_mem_nil _
    | some e =>
        rw [hfirst] at hdrawn
        exact named_contextsFrom hnone hfamily 0
          (fun context hcontext => h context (Array.mem_toList_iff.1 hcontext)) sizes e
          (List.mem_of_getElem? hfirst) drawn hdrawn
  cases drawn with
  | nil => exact List.forall_mem_nil _
  | cons first rest =>
      obtain ⟨hstart, hrest⟩ := List.forall_mem_cons.1 hall
      simp only [withColors, List.forall_mem_cons]
      exact ⟨hstart, List.forall_mem_singleton.2 hforeground, List.forall_mem_singleton.2 hfill,
        hrest⟩

end Mvg

end CellSketch
