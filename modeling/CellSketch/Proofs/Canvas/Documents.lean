import Mathlib.Data.List.Forall2
import Mathlib.Data.List.TakeWhile
import CellSketch.Mvg
import CellSketch.Svg

/-!
# Documents — the shapes of a document and their positions

Commands are read with a stack of saved positions, elements by walking through the groups.  What a
position is, and how a translation moves it, is left open: it can be a point in pixels, or nothing
where only the shapes matter.

* `Mvg.read`, `Svg.Element.walk` — the shapes of a document in order, with their positions;
* `spreads` — what a context shows from a position on, for each of the contexts of a canvas;
* `Mvg.read_document`, `Svg.walk_root` — both documents show what the outermost context spreads.
-/

namespace CellSketch

open Number

/-! ## Reading documents -/

section Reading

variable {α β : Type} [Scalar α] (move : β → α → α → β)

/-- Reads commands from a position, with the positions that were saved before.  There is no reading
if a pop finds nothing saved, or if something saved is left. -/
def Mvg.read : List (Mvg.Command α) → β → List β → Option (List (Shape α × β))
  | [], _, [] => some []
  | [], _, _ :: _ => none
  | .push :: rest, here, saved => Mvg.read rest here (here :: saved)
  | .pop :: rest, _, before :: saved => Mvg.read rest before saved
  | .pop :: _, _, [] => none
  | .translate dx dy :: rest, here, saved => Mvg.read rest (move here dx dy) saved
  | .shape s :: rest, here, saved => (Mvg.read rest here saved).map ((s, here) :: ·)
  | .frame width height :: rest, here, saved =>
      (Mvg.read rest here saved).map
        ((.rectangle ⟨Scalar.whole 0, Scalar.whole 0⟩ width height none, here) :: ·)
  | .stroke _ :: rest, here, saved => Mvg.read rest here saved
  | .fill _ :: rest, here, saved => Mvg.read rest here saved
  | .font _ :: rest, here, saved => Mvg.read rest here saved
  | .raw _ :: rest, here, saved => Mvg.read rest here saved

/-- A position moved by the shift of a group, if it has one. -/
def Svg.shifted (here : β) : Option (α × α) → β
  | some (dx, dy) => move here dx dy
  | none => here

mutual
/-- The shapes of an element in document order. -/
def Svg.Element.walk : Svg.Element α → β → List (Shape α × β)
  | .group shift children, here => Svg.walkAll children (Svg.shifted move here shift)
  | .overlay figures, here => figures.map fun f => (f.shape, here)
  | .figure f, here => [(f.shape, here)]

def Svg.walkAll : List (Svg.Element α) → β → List (Shape α × β)
  | [], _ => []
  | e :: rest, here => e.walk here ++ Svg.walkAll rest here
end

end Reading

/-! ## What contexts spread -/

/-- What stands on a context, with its position. -/
inductive Spot (α β : Type) where
  | shape (shape : Shape α) (position : β)
  | child (index : Nat) (position : β)
  deriving DecidableEq, Repr

section Spreading

variable {α β : Type} [Scalar α] (move : β → α → α → β)

/-- The spots of items, the first of which stands at a position. -/
def spots (here : β) : List (Item α) → List (Spot α β)
  | [] => []
  | .figure f :: rest => .shape f.shape here :: spots here rest
  | .shift dx dy :: rest => spots (move here dx dy) rest
  | .child index :: rest => .child index here :: spots here rest
  | _ :: rest => spots here rest

/-- The position after items. -/
def positionAfter (here : β) : List (Item α) → β
  | [] => here
  | .shift dx dy :: rest => positionAfter (move here dx dy) rest
  | _ :: rest => positionAfter here rest

omit [Scalar α] in
theorem spots_append (here : β) (first second : List (Item α)) :
    spots move here (first ++ second) =
      spots move here first ++ spots move (positionAfter move here first) second := by
  induction first generalizing here with
  | nil => rfl
  | cons item rest ih => cases item <;> simp [spots, positionAfter, ih]

omit [Scalar α] in
theorem positionAfter_append (here : β) (first second : List (Item α)) :
    positionAfter move here (first ++ second) =
      positionAfter move (positionAfter move here first) second := by
  induction first generalizing here with
  | nil => rfl
  | cons item rest ih => cases item <;> simp [positionAfter, ih]

/-- The shapes that show the cells of a context of a size. -/
def Context.overlayShapes (c : Context α) (size : Int × Int) : List (Shape α) :=
  if c.debug = .off then []
  else
    match Canvas.overlay c size with
    | .ok overlay =>
        overlay.lines ++
          [.rectangle ⟨Scalar.whole 0, Scalar.whole 0⟩ overlay.width overlay.height none,
            overlay.label]
    | .error _ => []

/-- The shapes of an entry, given what the contexts after this one spread. -/
def Spot.spread (base : Nat) (others : List (β → List (Shape α × β))) :
    Spot α β → List (Shape α × β)
  | .shape s here => [(s, here)]
  | .child index here =>
      match Canvas.later? base index others with
      | some inner => inner here
      | none => []

/-- What each of the contexts from number `base` on shows, by the position where it starts. -/
def spreads (base : Nat) : List (Context α) → List (Int × Int) → List (β → List (Shape α × β))
  | c :: rest, size :: sizes =>
      let others := spreads (base + 1) rest sizes
      (fun here => (spots move here c.items.toList).flatMap (Spot.spread base others) ++
        (c.overlayShapes size).map fun s => (s, here)) :: others
  | _, _ => []

/-- Going back by its origin leads to where a context starts. -/
def Context.Returns (c : Context α) : Prop :=
  ∀ here, move (positionAfter move here c.items.toList)
    (Scalar.whole (-c.origin.x) * c.cell.width) (Scalar.whole (-c.origin.y) * c.cell.height) = here

/-- What a canvas shows from a position on. -/
def Canvas.shown (c : Canvas α) (here : β) : List (Shape α × β) :=
  match (spreads move 0 c.contexts.toList (Canvas.sizesFrom 0 c.contexts.toList)).head? with
  | some spread => spread here
  | none => []

end Spreading

/-! ## Commands -/

theorem getElem?_of_forall₂ {γ δ : Type} {R : γ → δ → Prop} {xs : List γ} {ys : List δ}
    (h : List.Forall₂ R xs ys) (i : Nat) :
    (xs[i]? = none ∧ ys[i]? = none) ∨ ∃ x y, xs[i]? = some x ∧ ys[i]? = some y ∧ R x y := by
  induction h generalizing i with
  | nil => exact Or.inl ⟨rfl, rfl⟩
  | @cons x y xs ys hxy _ ih =>
      cases i with
      | zero => exact Or.inr ⟨x, y, rfl, rfl, hxy⟩
      | succ i => exact ih i

theorem later?_of_forall₂ {γ δ : Type} {R : γ → δ → Prop} {xs : List γ} {ys : List δ}
    (h : List.Forall₂ R xs ys) (base index : Nat) :
    (Canvas.later? base index xs = none ∧ Canvas.later? base index ys = none) ∨
      ∃ x y, Canvas.later? base index xs = some x ∧ Canvas.later? base index ys = some y ∧
        R x y := by
  unfold Canvas.later?
  split
  · exact getElem?_of_forall₂ h _
  · exact Or.inl ⟨rfl, rfl⟩

theorem exists_of_bind_eq_ok {ε γ δ : Type} {first : Except ε γ} {next : γ → Except ε δ} {r : δ}
    (h : first >>= next = .ok r) : ∃ a, first = .ok a ∧ next a = .ok r := by
  cases first with
  | error e => cases h
  | ok a => exact ⟨a, rfl, h⟩

theorem exists_of_map_eq_ok {ε γ δ : Type} {first : Except ε γ} {f : γ → δ} {r : δ}
    (h : first.map f = .ok r) : ∃ a, first = .ok a ∧ f a = r := by
  cases first with
  | error e => cases h
  | ok a =>
      cases h
      exact ⟨a, rfl, rfl⟩

namespace Mvg

section

variable {α β : Type} [Scalar α] {move : β → α → α → β}

/-- Commands, if there are any, that show what a context spreads and leave everything else as it
was. -/
def Shows (move : β → α → α → β) (commands : Except Fault (List (Command α)))
    (spread : β → List (Shape α × β)) : Prop :=
  ∀ list, commands = .ok list → ∀ here saved tail,
    read move (list ++ tail) here saved = (read move tail here saved).map (spread here ++ ·)

theorem read_shapes (shapes : List (Shape α)) (here : β) (saved : List β)
    (tail : List (Command α)) :
    read move (shapes.map .shape ++ tail) here saved =
      (read move tail here saved).map (shapes.map (fun s => (s, here)) ++ ·) := by
  induction shapes with
  | nil => simp
  | cons s rest ih =>
      rw [List.map_cons, List.cons_append, read, ih, Option.map_map]
      rfl

theorem read_ofShape (s : Shape α) (here : β) (saved : List β) (tail : List (Command α)) :
    read move (ofShape s ++ tail) here saved =
      (read move tail here saved).map ((s, here) :: ·) := by
  unfold ofShape
  split <;> rfl

theorem read_ofItems {base : Nat} {others : List (Except Fault (List (Command α)))}
    {inner : List (β → List (Shape α × β))} (hothers : List.Forall₂ (Shows move) others inner)
    {items : List (Item α)} {list : List (Command α)}
    (h : ofItems base others items = .ok list) (here : β) (saved : List β)
    (tail : List (Command α)) :
    read move (list ++ tail) here saved =
      (read move tail (positionAfter move here items) saved).map
        ((spots move here items).flatMap (Spot.spread base inner) ++ ·) := by
  -- only translations change where the rest is read, and nothing here changes what is saved
  induction items generalizing list here with
  | nil =>
      cases h
      simp [spots, positionAfter]
  | cons item rest ih =>
      cases item with
      | child index =>
          obtain ⟨commands, hcommands, h⟩ := exists_of_bind_eq_ok h
          obtain ⟨more, hmore, h⟩ := exists_of_bind_eq_ok h
          cases h
          simp only [List.append_assoc, spots, List.flatMap_cons, positionAfter]
          rcases later?_of_forall₂ hothers base index with
            ⟨hnone, hinner⟩ | ⟨found, spread, hfound, hinner, hshows⟩
          · -- a number that no later context has stands for nothing
            rw [hnone] at hcommands
            cases hcommands
            rw [List.nil_append, ih hmore]
            simp only [Spot.spread, hinner, List.nil_append]
          · rw [hfound] at hcommands
            rw [hshows commands hcommands, ih hmore, Option.map_map]
            simp only [Spot.spread, hinner]
            rfl
      | figure f =>
          obtain ⟨more, hmore, rfl⟩ := exists_of_map_eq_ok h
          rw [ofOwn, List.append_assoc, read_ofShape, ih hmore, Option.map_map]
          rfl
      | _ =>
          obtain ⟨more, hmore, rfl⟩ := exists_of_map_eq_ok h
          exact ih hmore _

/-- The overlay is read from the first origin, whatever is saved. -/
theorem read_ofOverlay {c : Context α} {size : Int × Int} {list : List (Command α)}
    (hdebug : c.debug ≠ .off) (h : ofOverlay c size = .ok list) (hreturns : Context.Returns move c)
    (here : β) (saved : List β) (tail : List (Command α)) :
    read move (list ++ tail) (positionAfter move here c.items.toList) saved =
      (read move tail here saved).map ((c.overlayShapes size).map (fun s => (s, here)) ++ ·) := by
  obtain ⟨overlay, hoverlay, rfl⟩ := exists_of_map_eq_ok h
  have hshapes : c.overlayShapes size = overlay.lines ++
      [.rectangle ⟨Scalar.whole 0, Scalar.whole 0⟩ overlay.width overlay.height none,
        overlay.label] := by
    rw [Context.overlayShapes, if_neg hdebug, hoverlay]
  rw [hshapes]
  simp only [List.cons_append, List.nil_append, List.append_assoc, read]
  -- the first command of the overlay goes back to where the context starts
  rw [hreturns here, read_shapes]
  simp only [read, Option.map_map, List.map_append, List.map_cons, List.map_nil,
    List.append_assoc]
  rfl

/-- The commands of a context are those of its items, and of its overlay if that is shown. -/
theorem ofContext_eq_ok {base : Nat} {c : Context α} {size : Int × Int}
    {others : List (Except Fault (List (Command α)))} {list : List (Command α)}
    (h : ofContext base c size others = .ok list) :
    ∃ drawn overlay, ofItems base others c.items.toList = .ok drawn ∧
      ((c.debug = .off ∧ overlay = []) ∨ (c.debug ≠ .off ∧ ofOverlay c size = .ok overlay)) ∧
      list =
        [.push, .font { family := some defaultFamily }, .font { size := some c.cell.height }] ++
          drawn ++ overlay ++ [.pop] := by
  obtain ⟨drawn, hdrawn, h⟩ := exists_of_bind_eq_ok h
  dsimp only at h
  split at h
  · cases h
    exact ⟨drawn, [], hdrawn, Or.inl ⟨‹_›, rfl⟩, rfl⟩
  · obtain ⟨overlay, hoverlay, h⟩ := exists_of_bind_eq_ok h
    cases h
    exact ⟨drawn, overlay, hdrawn, Or.inr ⟨‹_›, hoverlay⟩, rfl⟩

theorem shows_ofContext {base : Nat} {others : List (Except Fault (List (Command α)))}
    {inner : List (β → List (Shape α × β))} (hothers : List.Forall₂ (Shows move) others inner)
    (c : Context α) (size : Int × Int) (hreturns : c.debug ≠ .off → Context.Returns move c) :
    Shows move (ofContext base c size others) fun here =>
      (spots move here c.items.toList).flatMap (Spot.spread base inner) ++
        (c.overlayShapes size).map fun s => (s, here) := by
  intro list h here saved tail
  obtain ⟨drawn, overlay, hdrawn, hoverlay, rfl⟩ := ofContext_eq_ok h
  simp only [List.cons_append, List.nil_append, List.append_assoc, read]
  -- the push saved `here`, which the pop brings back whatever the items did
  rw [read_ofItems hothers hdrawn]
  rcases hoverlay with ⟨hdebug, rfl⟩ | ⟨hdebug, hoverlay⟩
  · simp [Context.overlayShapes, hdebug, read]
  · rw [read_ofOverlay hdebug hoverlay (hreturns hdebug), read, Option.map_map]
    rfl

theorem shows_contextsFrom (move : β → α → α → β) (base : Nat) (contexts : List (Context α))
    (sizes : List (Int × Int))
    (hreturns : ∀ c ∈ contexts, c.debug ≠ .off → Context.Returns move c) :
    List.Forall₂ (Shows move) (contextsFrom base contexts sizes)
      (spreads move base contexts sizes) := by
  induction contexts generalizing base sizes with
  | nil => exact .nil
  | cons c rest ih =>
      cases sizes with
      | nil => exact .nil
      | cons size sizes =>
          have hothers := ih (base + 1) sizes fun d hd => hreturns d (List.mem_cons_of_mem c hd)
          exact .cons (shows_ofContext hothers c size (hreturns c List.mem_cons_self)) hothers

/-- The colours of a document do not change what is read. -/
theorem read_withColors (foreground fill : String) {list : List (Command α)} (here : β)
    (h : list.head? = some .push) :
    read move (withColors foreground fill list) here [] = read move list here [] := by
  cases list with
  | nil => cases h
  | cons first rest =>
      cases h
      rfl

theorem head?_of_ofContext {base : Nat} {c : Context α} {size : Int × Int}
    {others : List (Except Fault (List (Command α)))} {list : List (Command α)}
    (h : ofContext base c size others = .ok list) : list.head? = some .push := by
  obtain ⟨drawn, overlay, -, -, rfl⟩ := ofContext_eq_ok h
  rfl

/-- A document shows what its canvas shows, and its pushes and pops are balanced. -/
theorem read_document {c : Canvas α} {foreground fill : String} {list : List (Command α)}
    (h : document c foreground fill = .ok list)
    (hreturns : ∀ context ∈ c.contexts, context.debug ≠ .off → Context.Returns move context)
    (here : β) : read move list here [] = some (c.shown move here) := by
  obtain ⟨commands, hcommands, rfl⟩ := exists_of_map_eq_ok h
  simp only [← Array.mem_toList_iff] at hreturns
  unfold Mvg.commands at hcommands
  unfold Canvas.shown
  dsimp only at hcommands
  generalize Canvas.sizesFrom 0 c.contexts.toList = sizes at hcommands ⊢
  generalize c.contexts.toList = contexts at hcommands hreturns ⊢
  rcases contexts with _ | ⟨context, rest⟩
  · cases hcommands
    rfl
  · rcases sizes with _ | ⟨size, sizes⟩
    · cases hcommands
      rfl
    · have hshows := shows_contextsFrom move 0 (context :: rest) (size :: sizes) hreturns
      rw [contextsFrom, spreads] at hshows
      obtain ⟨hfirst, -⟩ := List.forall₂_cons.1 hshows
      have hread := hfirst commands hcommands here [] []
      rw [List.append_nil] at hread
      rw [read_withColors foreground fill here (head?_of_ofContext hcommands), hread]
      simp [read, spreads]

end

end Mvg

/-! ## Elements -/

namespace Svg

section

variable {α β : Type} {move : β → α → α → β}

theorem walkAll_append (first second : List (Element α)) (here : β) :
    walkAll move (first ++ second) here = walkAll move first here ++ walkAll move second here := by
  induction first with
  | nil => rfl
  | cons e rest ih => rw [List.cons_append, walkAll, walkAll, ih, List.append_assoc]

/-- Items without unfinished overlays show their spots. -/
theorem walkAll_ofItems {base : Nat} {others : List (Element α)}
    {inner : List (β → List (Shape α × β))}
    (hothers : List.Forall₂ (fun e spread => ∀ here, e.walk move here = spread here) others inner)
    {items : List (Item α)} (hfinished : ∀ figures, Item.unfinished figures ∉ items) (here : β) :
    walkAll move (ofItems base others items) here =
      (spots move here items).flatMap (Spot.spread base inner) := by
  induction items generalizing here with
  | nil => rfl
  | cons item rest ih =>
      have hrest := ih fun figures h => hfinished figures (List.mem_cons_of_mem item h)
      cases item with
      | figure f =>
          rw [ofItems, walkAll, Element.walk, hrest, spots, List.flatMap_cons]
          rfl
      | hollow =>
          rw [ofItems, walkAll, Element.walk, walkAll, List.nil_append, hrest]
          rfl
      | unfinished figures => exact absurd List.mem_cons_self (hfinished figures)
      | shift dx dy =>
          -- everything that follows stands in the new group
          rw [ofItems, walkAll, walkAll, List.append_nil, Element.walk, hrest]
          rfl
      | child index =>
          rw [ofItems, walkAll_append, hrest, spots, List.flatMap_cons]
          congr 1
          rcases later?_of_forall₂ hothers base index with
            ⟨hnone, hinner⟩ | ⟨e, spread, hfound, hinner, hwalk⟩
          · simp [hnone, Spot.spread, hinner, walkAll]
          · simp [hfound, Spot.spread, hinner, walkAll, hwalk]
      | _ => exact hrest here

variable [Scalar α]

/-- An overlay that meets no fault is shown as a whole. -/
theorem walkAll_trace {c : Context α} {size : Int × Int} (h : (trace c size).fault = none)
    (here : β) :
    walkAll move ((trace c size).figures.toList.map .overlay) here =
      (c.overlayShapes size).map fun s => (s, here) := by
  unfold trace at h ⊢
  by_cases hdebug : c.debug = .off
  · simp [hdebug, Context.overlayShapes, walkAll]
  · rw [if_neg hdebug] at h ⊢
    cases hfigures : overlayFigures c size with
    | error fault => simp [hfigures] at h
    | ok figures =>
        rw [hfigures] at h
        dsimp only at h ⊢
        obtain ⟨overlay, hoverlay, rfl⟩ := exists_of_map_eq_ok hfigures
        rw [List.takeWhile_eq_self_iff.2 fun f hf => by
          rw [List.findSome?_eq_none_iff.1 h f hf]
          rfl]
        simp [Context.overlayShapes, hdebug, hoverlay, walkAll, Element.walk]

/-- A context of which nothing is unfinished and whose overlay meets no fault. -/
structure Finished (c : Context α) (size : Int × Int) : Prop where
  items : ∀ figures, Item.unfinished figures ∉ c.items.toList
  leftovers : c.leftovers = #[]
  overlay : (trace c size).fault = none

theorem walk_ofContext {base : Nat} {others : List (Element α)}
    {inner : List (β → List (Shape α × β))}
    (hothers : List.Forall₂ (fun e spread => ∀ here, e.walk move here = spread here) others inner)
    {c : Context α} {size : Int × Int} (h : Finished c size) (shift : Option (α × α)) (here : β) :
    (ofContext base c size shift others).walk move here =
      (spots move (shifted move here shift) c.items.toList).flatMap (Spot.spread base inner) ++
        (c.overlayShapes size).map fun s => (s, shifted move here shift) := by
  rw [ofContext, Element.walk, walkAll_append, walkAll_append, walkAll_ofItems hothers h.items,
    walkAll_trace h.overlay, h.leftovers]
  simp [walkAll]

theorem walk_contextsFrom (move : β → α → α → β) (base : Nat) (contexts : List (Context α))
    (sizes : List (Int × Int)) (h : ∀ p ∈ contexts.zip sizes, Finished p.1 p.2) :
    List.Forall₂ (fun e spread => ∀ here, e.walk move here = spread here)
      (contextsFrom base none contexts sizes) (spreads move base contexts sizes) := by
  induction contexts generalizing base sizes with
  | nil => exact .nil
  | cons c rest ih =>
      cases sizes with
      | nil => exact .nil
      | cons size sizes =>
          rw [List.zip_cons_cons] at h
          have hothers := ih (base + 1) sizes fun p hp => h p (List.mem_cons_of_mem _ hp)
          exact .cons (walk_ofContext hothers (h _ List.mem_cons_self) none) hothers

/-- The outermost group shows what its canvas shows, from where its own shift leads. -/
theorem walk_root {c : Canvas α} {shift : Option (α × α)} {root : Element α}
    (h : root? c shift = some root)
    (hfinished : ∀ p ∈ c.contexts.toList.zip (Canvas.sizesFrom 0 c.contexts.toList),
      Finished p.1 p.2) (here : β) :
    root.walk move here = c.shown move (shifted move here shift) := by
  unfold root? at h
  unfold Canvas.shown
  dsimp only at h
  generalize Canvas.sizesFrom 0 c.contexts.toList = sizes at h hfinished ⊢
  generalize c.contexts.toList = contexts at h hfinished ⊢
  rcases contexts with _ | ⟨context, rest⟩
  · cases h
  · rcases sizes with _ | ⟨size, sizes⟩
    · cases h
    · rw [List.zip_cons_cons] at hfinished
      have hothers := walk_contextsFrom move (0 + 1) rest sizes fun p hp =>
        hfinished p (List.mem_cons_of_mem _ hp)
      cases h
      rw [walk_ofContext hothers (hfinished _ List.mem_cons_self)]
      rfl

end

end Svg

end CellSketch
