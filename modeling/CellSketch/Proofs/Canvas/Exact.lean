import CellSketch.Proofs.Canvas.Programs

/-!
# Exact — drawing in exact arithmetic

Rationals never stand for a fault, so that in exact arithmetic all work on a context is done and
every canvas can be written.

* `Context.drawAll_exact` — what drawing leaves on a context;
* `Mvg.document_exact`, `Svg.trace_exact` — documents and overlays are complete.
-/

namespace CellSketch

open Number

/-! ## Changes of nothing -/

section Settings

variable {β : Type}

theorem StrokeChange.apply_of_isEmpty {change : StrokeChange β} (h : change.isEmpty = true)
    (s : Stroke β) : change.apply s = s := by
  simp only [isEmpty, Bool.and_eq_true, Option.isNone_iff_eq_none] at h
  obtain ⟨⟨⟨-, hwidth⟩, hcolor⟩, hopacity⟩ := h
  simp [apply, hwidth, hcolor, hopacity]

theorem FillChange.apply_of_isEmpty {change : FillChange β} (h : change.isEmpty = true)
    (f : Fill β) : change.apply f = f := by
  simp only [isEmpty, Bool.and_eq_true, Option.isNone_iff_eq_none] at h
  simp [apply, h.1, h.2]

theorem FontChange.apply_of_isEmpty {change : FontChange β} (h : change.isEmpty = true)
    (f : Font β) : change.apply f = f := by
  simp only [isEmpty, Bool.and_eq_true, Option.isNone_iff_eq_none] at h
  simp [apply, h.1, h.2]

end Settings

/-! ## Work on contexts -/

theorem firstFault?_exact (numbers : List Rat) : Scalar.firstFault? numbers = none :=
  List.findSome?_eq_none_iff.2 fun _ _ => rfl

theorem Shape.fault?_exact (s : Shape Rat) : s.fault? = none := by
  cases s with
  | head centre rx ry angle fill =>
      cases angle <;>
        simp [Shape.fault?, Angle.fault?, firstFault?_exact, Scalar.trunc, Scalar.fault?]
  | _ => simp [Shape.fault?, firstFault?_exact]

/-- The context with shapes drawn on it. -/
def Context.inked (c : Context Rat) (shapes : List (Shape Rat)) : Context Rat :=
  { c with items := c.items ++
      (shapes.map fun s => Item.figure ⟨s, c.style.look c.cell.height⟩).toArray }

theorem Context.inked_append (c : Context Rat) (first second : List (Shape Rat)) :
    (c.inked first).inked second = c.inked (first ++ second) := by
  simp [inked, Array.append_assoc]

theorem Context.drawShape_exact (c : Context Rat) (s : Shape Rat) :
    c.drawShape s = ⟨c.inked [s], none⟩ := by
  have hlook (f : Figure Rat) : f.fault? = none := firstFault?_exact _
  unfold drawShape
  simp only [s.fault?_exact, hlook, Attempt.barring]
  cases c.styling <;> simp [inked, push]

theorem Context.each_drawShape_exact (c : Context Rat) (shapes : List (Shape Rat)) :
    Attempt.each drawShape c shapes = ⟨c.inked shapes, none⟩ := by
  induction shapes generalizing c with
  | nil => simp [Attempt.each, inked]
  | cons s rest ih =>
      rw [Attempt.each, drawShape_exact]
      simp only [Attempt.andThen]
      rw [ih, inked_append, List.singleton_append]

theorem Context.setSize_exact (c : Context Rat) (p : Point Rat) :
    ∃ width height, c.setSize p = ⟨{ c with width := width, height := height }, none⟩ :=
  ⟨_, _, rfl⟩

theorem Context.draw_exact (c : Context Rat) (p : Primitive Rat) :
    ∃ width height, c.draw p =
      ⟨{ c with width := width, height := height }.inked (p.shapes c.cell c.style), none⟩ := by
  unfold draw
  cases p.reach with
  | none =>
      refine ⟨c.width, c.height, ?_⟩
      simp only [Attempt.andThen, firstFault?_exact, Attempt.barring, each_drawShape_exact]
  | some last =>
      obtain ⟨width, height, h⟩ := c.setSize_exact last
      refine ⟨width, height, ?_⟩
      simp only [h, Attempt.andThen, firstFault?_exact, Attempt.barring, each_drawShape_exact]

theorem Context.drawAll_exact (c : Context Rat) (ps : List (Primitive Rat)) :
    ∃ width height, c.drawAll ps =
      ⟨{ c with width := width, height := height }.inked
        (ps.flatMap (Primitive.shapes c.cell c.style)), none⟩ := by
  unfold drawAll
  induction ps generalizing c with
  | nil => exact ⟨c.width, c.height, by simp [Attempt.each, inked]⟩
  | cons p rest ih =>
      obtain ⟨width, height, h⟩ := c.draw_exact p
      obtain ⟨width', height', h'⟩ := ih ({ c with width := width, height := height }.inked
        (p.shapes c.cell c.style))
      refine ⟨width', height', ?_⟩
      rw [Attempt.each, h]
      simp only [Attempt.andThen]
      rw [h']
      simp [inked, Array.append_assoc]

theorem Canvas.drawAll_exact {c : Canvas Rat} {i : Nat} {context : Context Rat}
    (hcontext : c.context? i = some context) (ps : List (Primitive Rat)) :
    ∃ drawn width height, c.drawAll i ps = ⟨drawn, none⟩ ∧
      drawn.context? i = some ({ context with width := width, height := height }.inked
        (ps.flatMap (Primitive.shapes context.cell context.style))) := by
  have hi := (Array.getElem?_eq_some_iff.1 hcontext).1
  obtain ⟨width, height, h⟩ := context.drawAll_exact ps
  unfold drawAll attempt
  rw [hcontext]
  dsimp only
  rw [h]
  exact ⟨_, width, height, rfl, by simp [context?, hi]⟩

theorem Context.note_exact (c : Context Rat) (change : Item Rat) (numbers : List Rat) :
    c.note change numbers = ⟨c.push change, none⟩ := by
  unfold note
  cases c.styling <;> simp [firstFault?_exact, Attempt.barring]

/-! ## Documents -/

theorem Canvas.overlay_exact (c : Context Rat) (size : Int × Int) :
    ∃ overlay, Canvas.overlay c size = .ok overlay := by
  unfold overlay
  dsimp only
  rw [firstFault?_exact]
  exact ⟨_, rfl⟩

theorem Svg.trace_exact (c : Context Rat) (size : Int × Int) : (Svg.trace c size).fault = none := by
  have hfigure (f : Figure Rat) : f.fault? = none := firstFault?_exact _
  obtain ⟨overlay, hoverlay⟩ := Canvas.overlay_exact c size
  unfold trace overlayFigures
  split
  · rfl
  · rw [hoverlay]
    exact List.findSome?_eq_none_iff.2 fun f _ => hfigure f

namespace Mvg

section Contexts

variable {α : Type} {base : Nat} {others : List (Except Fault (List (Command α)))}

/-- If there are commands for the contexts inside, there are commands for the items. -/
theorem exists_ofItems (hothers : ∀ e ∈ others, ∃ list, e = .ok list) (items : List (Item α)) :
    ∃ list, ofItems base others items = .ok list := by
  induction items with
  | nil => exact ⟨[], rfl⟩
  | cons item rest ih =>
      obtain ⟨more, hmore⟩ := ih
      cases item with
      | child index =>
          have hinner : ∃ list, (Canvas.later? base index others).getD (.ok []) = .ok list := by
            cases hlater : Canvas.later? base index others with
            | none => exact ⟨[], rfl⟩
            | some e =>
                unfold Canvas.later? at hlater
                split at hlater
                · exact hothers e (List.mem_of_getElem? hlater)
                · cases hlater
          obtain ⟨inner, hinner⟩ := hinner
          refine ⟨inner ++ more, ?_⟩
          rw [ofItems, hinner, hmore]
          rfl
      | _ =>
          simp only [ofItems, hmore]
          exact ⟨_, rfl⟩

/-- If there is an overlay too, there are commands for the context. -/
theorem exists_ofContext [Scalar α] {c : Context α} {size : Int × Int}
    (hoverlay : ∃ overlay, Canvas.overlay c size = .ok overlay)
    (hothers : ∀ e ∈ others, ∃ list, e = .ok list) :
    ∃ list, ofContext base c size others = .ok list := by
  obtain ⟨drawn, hdrawn⟩ := exists_ofItems hothers c.items.toList
  obtain ⟨overlay, hoverlay⟩ := hoverlay
  unfold ofContext ofOverlay
  rw [hdrawn, hoverlay]
  split <;> exact ⟨_, rfl⟩

end Contexts

theorem contextsFrom_exact (base : Nat) (contexts : List (Context Rat))
    (sizes : List (Int × Int)) :
    ∀ e ∈ contextsFrom base contexts sizes, ∃ list, e = .ok list := by
  induction contexts generalizing base sizes with
  | nil => simp [contextsFrom]
  | cons c rest ih =>
      cases sizes with
      | nil => simp [contextsFrom]
      | cons size sizes =>
          have hothers := ih (base + 1) sizes
          intro e he
          rw [contextsFrom] at he
          rcases List.mem_cons.1 he with rfl | he
          · exact exists_ofContext (Canvas.overlay_exact c size) hothers
          · exact hothers e he

/-- There is a document of any canvas. -/
theorem document_exact (c : Canvas Rat) (foreground fill : String) :
    ∃ list, document c foreground fill = .ok list := by
  have hcommands : ∃ list, commands c 0 = .ok list := by
    unfold commands
    dsimp only
    generalize Canvas.sizesFrom 0 c.contexts.toList = sizes
    cases hfirst : (contextsFrom 0 c.contexts.toList sizes)[0]? with
    | none => exact ⟨[], rfl⟩
    | some e => exact contextsFrom_exact _ _ _ e (List.mem_of_getElem? hfirst)
  obtain ⟨list, hlist⟩ := hcommands
  refine ⟨withColors foreground fill list, ?_⟩
  rw [document, hlist]
  rfl

end Mvg

end CellSketch
