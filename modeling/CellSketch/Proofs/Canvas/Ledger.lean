import Mathlib.Tactic.Ring
import CellSketch.Proofs.Canvas.Exact

/-!
# Ledger — where a program places its shapes

The ledger of a program is kept in cells alone: for each context the origin of the moment, the
style, and what was put on it at which origin.  Reading it gives every shape the sum of the anchors
of the contexts around it and of the origin it was drawn at.  In exact arithmetic a canvas always
gets through a program, and it follows the ledger.

* `Tracks.work` — a context that follows its page of the ledger goes on to do so;
* `Canvas.Follows.run` — a program runs without a fault, and its canvas follows the ledger;
* `Canvas.Follows.shown` — what the canvas shows stands where the ledger places it.
-/

namespace CellSketch

open Number

/-! ## The ledger -/

/-- What is known of a context in cells. -/
structure Page (α : Type) where
  origin : Cell := ⟨0, 0⟩
  style : Style α
  spots : List (Spot α Cell) := []

variable {α : Type} [Scalar α]

namespace Page

/-- Work on the context: its origin stops at the edges, and shapes are noted with the origin of the
moment. -/
def work (cell : CellSize α) (page : Page α) : Work α → Page α
  | .translate dx dy =>
      { page with origin := ⟨max 0 (page.origin.x + dx), max 0 (page.origin.y + dy)⟩ }
  | .draw primitives =>
      { page with spots := page.spots ++
          (primitives.flatMap (Primitive.shapes cell page.style)).map (.shape · page.origin) }
  | .setStroke change =>
      { page with style := { page.style with stroke := change.apply page.style.stroke } }
  | .setFill change =>
      { page with style := { page.style with fill := change.apply page.style.fill } }
  | .setFont change =>
      { page with style := { page.style with font := change.apply page.style.font } }
  | .setSize _ | .setDebug .. => page

end Page

namespace Ledger

def perform (cell : CellSize α) (pages : List (Page α)) : Op α → List (Page α)
  | .addContext i =>
      match pages[i]? with
      | none => pages
      | some page =>
          pages.set i { page with spots := page.spots ++ [.child pages.length page.origin] } ++
            [{ style := page.style }]
  | .work i w => pages.modify i (·.work cell w)

/-- The pages of a program that starts with one context. -/
def ofProgram (cell : CellSize α) (style : Style α) (program : List (Op α)) : List (Page α) :=
  program.foldl (perform cell) [{ style := style }]

end Ledger

/-- A cell seen from another origin. -/
def Cell.from (c anchors : Cell) : Cell := ⟨anchors.x + c.x, anchors.y + c.y⟩

/-- The same at another position. -/
def Spot.place {β γ : Type} (f : β → γ) : Spot α β → Spot α γ
  | .shape s position => .shape s (f position)
  | .child index position => .child index (f position)

namespace Ledger

/-- The shapes of each of the pages from number `base` on with their cells, by the sum of the
anchors of its context, where `overlays` are shown in addition at those anchors. -/
def placesFrom (base : Nat) :
    List (Page α) → List (List (Shape α)) → List (Cell → List (Shape α × Cell))
  | page :: pages, overlay :: overlays =>
      let others := placesFrom (base + 1) pages overlays
      (fun anchors =>
        (page.spots.map (Spot.place (·.from anchors))).flatMap (Spot.spread base others) ++
          overlay.map fun s => (s, anchors)) :: others
  | _, _ => []

/-- The shapes of a ledger with their cells. -/
def places (pages : List (Page α)) (overlays : List (List (Shape α))) : List (Shape α × Cell) :=
  match (placesFrom 0 pages overlays).head? with
  | some place => place ⟨0, 0⟩
  | none => []

end Ledger

/-! ## Exact positions -/

/-- A translation of a point in exact arithmetic. -/
def moveBy (p : Point Rat) (dx dy : Rat) : Point Rat := ⟨p.x + dx, p.y + dy⟩

/-- The upper left corner of a cell in pixels, seen from a point. -/
def CellSize.corner (size : CellSize Rat) (origin : Point Rat) (c : Cell) : Point Rat :=
  ⟨origin.x + c.x * size.width, origin.y + c.y * size.height⟩

theorem CellSize.corner_corner (size : CellSize Rat) (origin : Point Rat) (anchors c : Cell) :
    size.corner (size.corner origin anchors) c = size.corner origin (c.from anchors) := by
  simp only [corner, Cell.from, Point.mk.injEq]
  push_cast
  constructor <;> ring

theorem CellSize.corner_zero (size : CellSize Rat) (origin : Point Rat) :
    size.corner origin ⟨0, 0⟩ = origin := by
  simp [corner]

theorem CellSize.moveBy_corner (size : CellSize Rat) (origin : Point Rat) (c d : Cell) :
    moveBy (size.corner origin c) (Scalar.whole (d.x - c.x) * size.width)
      (Scalar.whole (d.y - c.y) * size.height) = size.corner origin d := by
  simp only [moveBy, corner, Point.mk.injEq, Scalar.whole]
  push_cast
  constructor <;> ring

/-! ## Contexts that follow the ledger -/

/-- A context that follows its page. -/
structure Tracks (size : CellSize Rat) (page : Page Rat) (c : Context Rat) : Prop where
  cell : c.cell = size
  style : c.style = page.style
  origin : c.origin = page.origin
  spots : ∀ here, CellSketch.spots moveBy here c.items.toList =
    page.spots.map (Spot.place (size.corner here))
  position : ∀ here, positionAfter moveBy here c.items.toList = size.corner here page.origin

namespace Tracks

variable {size : CellSize Rat} {page : Page Rat} {c : Context Rat}

theorem same (T : Tracks size page c) {page' : Page Rat} {c' : Context Rat}
    (hpage : page'.origin = page.origin ∧ page'.spots = page.spots) (hcell : c'.cell = c.cell)
    (hstyle : c'.style = page'.style) (horigin : c'.origin = c.origin) {more : List (Item Rat)}
    (hitems : c'.items.toList = c.items.toList ++ more)
    (hmore : ∀ here, CellSketch.spots moveBy here more = [])
    (hstays : ∀ here, positionAfter moveBy here more = here) : Tracks size page' c' where
  cell := hcell.trans T.cell
  style := hstyle
  origin := by rw [horigin, T.origin, hpage.1]
  spots here := by rw [hitems, spots_append, hmore, List.append_nil, T.spots, hpage.2]
  position here := by rw [hitems, positionAfter_append, hstays, T.position, hpage.1]

theorem translate (T : Tracks size page c) (dx dy : Int) :
    ∃ c', c.translate dx dy = ⟨c', none⟩ ∧ Tracks size (page.work size (.translate dx dy)) c' := by
  have horigin : page.origin = c.origin := T.origin.symm
  unfold Context.translate
  dsimp only
  split
  · -- the origin stays where it is
    rename_i hstays
    have hx : max 0 (c.origin.x + dx) = c.origin.x := by omega
    have hy : max 0 (c.origin.y + dy) = c.origin.y := by omega
    refine ⟨_, rfl, T.cell, T.style, ?_, T.spots, fun here => ?_⟩
    · simp only [Context.reserve, Context.widen, Context.heighten, Page.work, horigin]
    · simp only [Page.work, horigin, hx, hy]
      exact (T.position here).trans (by rw [horigin])
  · -- the shift leads from the corner of the old origin to that of the new one
    rw [firstFault?_exact]
    refine ⟨_, rfl, T.cell, T.style, ?_, fun here => ?_, fun here => ?_⟩
    · simp only [Context.push, Context.reserve, Context.widen, Context.heighten, Page.work, horigin]
    · simp only [Context.push, Context.reserve, Context.widen, Context.heighten,
        Array.toList_push, spots_append, CellSketch.spots, List.append_nil, T.spots, Page.work]
    · simp only [Context.push, Context.reserve, Context.widen, Context.heighten,
        Array.toList_push, positionAfter_append, positionAfter, T.position, Page.work, T.cell]
      rw [horigin]
      exact size.moveBy_corner here _ ⟨max 0 (c.origin.x + dx), max 0 (c.origin.y + dy)⟩

theorem draw (T : Tracks size page c) (primitives : List (Primitive Rat)) :
    ∃ c', c.drawAll primitives = ⟨c', none⟩ ∧
      Tracks size (page.work size (.draw primitives)) c' := by
  -- all shapes stand at the position of the moment, which they leave as it is
  have hspots (look : Look Rat) (here : Point Rat) (shapes : List (Shape Rat)) :
      CellSketch.spots moveBy here (shapes.map fun s => Item.figure ⟨s, look⟩) =
        shapes.map (Spot.shape · here) := by
    induction shapes with
    | nil => rfl
    | cons s rest ih => simp only [List.map_cons, CellSketch.spots, ih]
  have hposition (look : Look Rat) (here : Point Rat) (shapes : List (Shape Rat)) :
      positionAfter moveBy here (shapes.map fun s => Item.figure ⟨s, look⟩) = here := by
    induction shapes with
    | nil => rfl
    | cons s rest ih => simp only [List.map_cons, positionAfter, ih]
  obtain ⟨width, height, h⟩ := c.drawAll_exact primitives
  refine ⟨_, h, T.cell, T.style, T.origin, fun here => ?_, fun here => ?_⟩
  · simp only [Context.inked, Array.toList_append, spots_append, hspots, T.spots, T.position,
      Page.work, List.map_append, List.map_map, T.cell, T.style]
    rfl
  · simp only [Context.inked, Array.toList_append, positionAfter_append, hposition, T.position,
      Page.work]

/-- A change of settings is not seen, whether it is noted or, being empty, passed over. -/
theorem setting (T : Tracks size page c) {empty : Bool} {style : Style Rat} {change : Item Rat}
    (hempty : empty = true → style = c.style)
    (hspots : ∀ here, CellSketch.spots moveBy here [change] = [])
    (hstays : ∀ here, positionAfter moveBy here [change] = here) (numbers : List Rat) :
    ∃ c', (if empty then (⟨c, none⟩ : Attempt (Context Rat))
        else { c with style := style }.note change numbers) = ⟨c', none⟩ ∧
      Tracks size { page with style := style } c' := by
  cases empty with
  | true => exact ⟨c, rfl, T.cell, (hempty rfl).symm, T.origin, T.spots, T.position⟩
  | false =>
      refine ⟨_, Context.note_exact _ _ _, ?_⟩
      refine T.same ⟨rfl, rfl⟩ rfl rfl rfl ?_ hspots hstays
      simp only [Context.push, Array.toList_push]

theorem setStroke (T : Tracks size page c) (change : StrokeChange Rat) :
    ∃ c', c.setStroke change = ⟨c', none⟩ ∧
      Tracks size (page.work size (.setStroke change)) c' := by
  unfold Context.setStroke Page.work
  rw [← T.style]
  refine T.setting (fun hempty => ?_) (fun _ => rfl) (fun _ => rfl) _
  rw [StrokeChange.apply_of_isEmpty hempty]

theorem setFill (T : Tracks size page c) (change : FillChange Rat) :
    ∃ c', c.setFill change = ⟨c', none⟩ ∧ Tracks size (page.work size (.setFill change)) c' := by
  unfold Context.setFill Page.work
  rw [← T.style]
  refine T.setting (fun hempty => ?_) (fun _ => rfl) (fun _ => rfl) _
  rw [FillChange.apply_of_isEmpty hempty]

theorem setFont (T : Tracks size page c) (change : FontChange Rat) :
    ∃ c', c.setFont change = ⟨c', none⟩ ∧ Tracks size (page.work size (.setFont change)) c' := by
  unfold Context.setFont Page.work
  rw [← T.style]
  refine T.setting (fun hempty => ?_) (fun _ => rfl) (fun _ => rfl) _
  rw [FontChange.apply_of_isEmpty hempty]

theorem work (T : Tracks size page c) (w : Work Rat) :
    ∃ c', c.work w = ⟨c', none⟩ ∧ Tracks size (page.work size w) c' := by
  cases w with
  | translate dx dy => exact T.translate dx dy
  | draw primitives => exact T.draw primitives
  | setSize last =>
      obtain ⟨width, height, h⟩ := c.setSize_exact last
      exact ⟨_, h, T.cell, T.style, T.origin, T.spots, T.position⟩
  | setStroke change => exact T.setStroke change
  | setFill change => exact T.setFill change
  | setFont change => exact T.setFont change
  | setDebug shown propagated => exact ⟨_, rfl, T.cell, T.style, T.origin, T.spots, T.position⟩

/-- A context that follows its page leads back to where it starts. -/
theorem returns (T : Tracks size page c) : Context.Returns moveBy c := by
  intro here
  -- going back by the origin is moving on to the first cell
  have h := size.moveBy_corner here page.origin ⟨0, 0⟩
  rw [size.corner_zero, Int.zero_sub, Int.zero_sub] at h
  rw [T.position, T.cell, T.origin, h]

/-- A context created inside starts a page of its own. -/
theorem inner {width height : Rat} (T : Tracks (.of width height) page c) :
    Tracks (.of width height) { style := page.style } c.inner where
  cell := by rw [Context.inner, T.cell]; rfl
  style := T.style
  origin := rfl
  spots _ := rfl
  position here := (CellSize.corner_zero _ here).symm

/-- Where a context is created, its number is put down. -/
theorem anchor (T : Tracks size page c) (children : Array Child) (index : Nat) :
    Tracks size { page with spots := page.spots ++ [.child index page.origin] }
      { c with children := children, items := c.items.push (.child index) } where
  cell := T.cell
  style := T.style
  origin := T.origin
  spots here := by
    rw [Array.toList_push, spots_append, T.spots, T.position, List.map_append]
    rfl
  position here := by
    rw [Array.toList_push, positionAfter_append, T.position]
    rfl

end Tracks

/-! ## Canvases that follow the ledger -/

theorem forall₂_set {γ δ : Type} {R : γ → δ → Prop} {xs : List γ} {ys : List δ} {x : γ} {y : δ}
    (h : List.Forall₂ R xs ys) (hxy : R x y) (i : Nat) :
    List.Forall₂ R (xs.set i x) (ys.set i y) := by
  induction h generalizing i with
  | nil => exact .nil
  | cons hfirst hrest ih =>
      cases i with
      | zero => exact .cons hxy hrest
      | succ i => exact .cons hfirst (ih i)

/-- A canvas of which every context follows its page. -/
def Canvas.Follows (size : CellSize Rat) (pages : List (Page Rat)) (c : Canvas Rat) : Prop :=
  List.Forall₂ (Tracks size) pages c.contexts.toList

namespace Canvas.Follows

variable {width height : Rat} {pages : List (Page Rat)} {c : Canvas Rat}

theorem blank (styling : Styling) (style : Style Rat) :
    Canvas.Follows (.of width height) [{ style := style }]
      (Canvas.blank styling (.of width height) style) :=
  .cons ⟨rfl, rfl, rfl, fun _ => rfl, fun here => (CellSize.corner_zero _ here).symm⟩ .nil

theorem addContext (h : Canvas.Follows (.of width height) pages c) (i : Nat) :
    Canvas.Follows (.of width height) (Ledger.perform (.of width height) pages (.addContext i))
      (c.addContext i) := by
  unfold Canvas.addContext Ledger.perform
  dsimp only
  have hlength : pages.length = c.contexts.size := List.Forall₂.length_eq h
  rcases Canvas.context?_of_forall₂ h i with
    ⟨hpage, hcontext⟩ | ⟨page, context, hpage, hcontext, T⟩
  · rw [hpage, hcontext]
    exact h
  · rw [hpage, hcontext]
    dsimp only
    rw [hlength]
    -- pages and contexts are numbered alike, so the child gets the same number on both sides
    unfold Canvas.Follows
    rw [Array.toList_push, Array.set!_eq_setIfInBounds, Array.toList_setIfInBounds]
    exact List.rel_append (forall₂_set h (T.anchor _ _) i) (.cons T.inner .nil)

theorem perform (h : Canvas.Follows (.of width height) pages c) (op : Op Rat) :
    ∃ c', c.perform op = ⟨c', none⟩ ∧
      Canvas.Follows (.of width height) (Ledger.perform (.of width height) pages op) c' := by
  cases op with
  | addContext i => exact ⟨_, rfl, h.addContext i⟩
  | work i w =>
      unfold Canvas.perform Canvas.attempt Ledger.perform
      dsimp only
      rcases Canvas.context?_of_forall₂ h i with
        ⟨hpage, hcontext⟩ | ⟨page, context, hpage, hcontext, T⟩
      · rw [hcontext, List.modify_eq_self (by rw [← List.getElem?_eq_none_iff, hpage])]
        exact ⟨c, rfl, h⟩
      · obtain ⟨context', hwork, T'⟩ := T.work w
        rw [hcontext]
        dsimp only
        rw [hwork]
        refine ⟨_, rfl, ?_⟩
        unfold Canvas.Follows
        dsimp only
        rw [Array.set!_eq_setIfInBounds, Array.toList_setIfInBounds,
          List.modify_eq_set_getElem?, hpage]
        exact forall₂_set h T' i

/-- A whole program can be run, and the canvas follows the ledger all the way. -/
theorem run (h : Canvas.Follows (.of width height) pages c) (program : List (Op Rat)) :
    ∃ c', c.run program = ⟨c', none⟩ ∧
      Canvas.Follows (.of width height)
        (program.foldl (Ledger.perform (.of width height)) pages) c' := by
  unfold Canvas.run
  induction program generalizing pages c with
  | nil => exact ⟨c, rfl, h⟩
  | cons op rest ih =>
      obtain ⟨next, hop, hnext⟩ := h.perform op
      obtain ⟨last, hrest, hlast⟩ := ih hnext
      refine ⟨last, ?_, hlast⟩
      rw [Attempt.each, hop]
      exact hrest

theorem exists_page {size : CellSize Rat} (h : Canvas.Follows size pages c)
    {context : Context Rat} (hcontext : context ∈ c.contexts) :
    ∃ page, Tracks size page context := by
  obtain ⟨i, hi, rfl⟩ := Array.mem_iff_getElem.1 hcontext
  rcases getElem?_of_forall₂ h i with ⟨-, hnone⟩ | ⟨page, found, -, hfound, T⟩
  · rw [Array.getElem?_toList, Array.getElem?_eq_getElem hi] at hnone
    cases hnone
  · rw [Array.getElem?_toList, Array.getElem?_eq_getElem hi] at hfound
    cases hfound
    exact ⟨page, T⟩

end Canvas.Follows

/-! ## What is shown -/

/-- The overlays of the contexts of a canvas, where there are any. -/
def Canvas.overlays (c : Canvas α) : List (List (Shape α)) :=
  List.zipWith Context.overlayShapes c.contexts.toList (Canvas.sizesFrom 0 c.contexts.toList)

/-- A shape with a cell, at the corner of that cell. -/
def CellSize.put (size : CellSize Rat) (origin : Point Rat) (p : Shape Rat × Cell) :
    Shape Rat × Point Rat :=
  (p.1, size.corner origin p.2)

/-- What a context spreads stands where its page places it. -/
def Stands (size : CellSize Rat) (spread : Point Rat → List (Shape Rat × Point Rat))
    (place : Cell → List (Shape Rat × Cell)) : Prop :=
  ∀ origin anchors, spread (size.corner origin anchors) = (place anchors).map (size.put origin)

theorem stands_spot {size : CellSize Rat} {base : Nat}
    {inner : List (Point Rat → List (Shape Rat × Point Rat))}
    {others : List (Cell → List (Shape Rat × Cell))} (h : List.Forall₂ (Stands size) inner others)
    (origin : Point Rat) (anchors : Cell) (spot : Spot Rat Cell) :
    (spot.place (size.corner (size.corner origin anchors))).spread base inner =
      ((spot.place (·.from anchors)).spread base others).map (size.put origin) := by
  cases spot with
  | shape s c =>
      simp only [Spot.place, Spot.spread, List.map_cons, List.map_nil, CellSize.put,
        CellSize.corner_corner]
  | child index c =>
      -- the origin of the child, seen from where this context starts, is its new anchor
      simp only [Spot.place, Spot.spread, CellSize.corner_corner]
      rcases later?_of_forall₂ h base index with
        ⟨hinner, hplace⟩ | ⟨spread, place, hinner, hplace, hstands⟩
      · rw [hinner, hplace, List.map_nil]
      · rw [hinner, hplace]
        exact hstands origin (c.from anchors)

theorem stands_spreads {size : CellSize Rat} {pages : List (Page Rat)}
    {contexts : List (Context Rat)} (h : List.Forall₂ (Tracks size) pages contexts) (base : Nat)
    (sizes : List (Int × Int)) :
    List.Forall₂ (Stands size) (spreads moveBy base contexts sizes)
      (Ledger.placesFrom base pages (List.zipWith Context.overlayShapes contexts sizes)) := by
  induction h generalizing base sizes with
  | nil => exact .nil
  | cons T _ ih =>
      cases sizes with
      | nil => exact .nil
      | cons room sizes =>
          have hothers := ih (base + 1) sizes
          refine .cons (fun origin anchors => ?_) hothers
          rw [T.spots, List.map_append, List.flatMap_map, List.flatMap_map, List.map_flatMap,
            List.map_map]
          simp only [stands_spot hothers]
          rfl

/-- What the canvas shows stands where the ledger places it. -/
theorem Canvas.Follows.shown {size : CellSize Rat} {pages : List (Page Rat)} {c : Canvas Rat}
    (h : Canvas.Follows size pages c) (origin : Point Rat) :
    c.shown moveBy origin = (Ledger.places pages c.overlays).map (size.put origin) := by
  unfold Canvas.shown Ledger.places
  have hstands := stands_spreads h 0 (Canvas.sizesFrom 0 c.contexts.toList)
  change List.Forall₂ _ _ (Ledger.placesFrom 0 pages c.overlays) at hstands
  generalize spreads moveBy 0 _ _ = shown at hstands ⊢
  generalize Ledger.placesFrom 0 pages c.overlays = placed at hstands ⊢
  cases hstands with
  | nil => rfl
  | cons hfirst _ =>
      have hshown := hfirst origin ⟨0, 0⟩
      rw [CellSize.corner_zero] at hshown
      exact hshown

end CellSketch
