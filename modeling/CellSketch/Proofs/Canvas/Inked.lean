import CellSketch.Proofs.Canvas.Programs

/-!
# Inked — what drawing leaves on a context

Drawing that meets no fault appends the shapes of its primitives, in order and in the style of the
context, and takes room; everything else stays.  The strings that are drawn, as text or as outlines,
are therefore found among the items as they were given.

* `Context.state_drawAll` — what is on a context after drawing;
* `Context.strings_drawAll` — in particular the strings.
-/

namespace CellSketch

open Number

/-! ## Strings -/

section Strings

variable {α : Type}

/-- The string of a shape that is drawn from one. -/
def Shape.string? : Shape α → Option String
  | .text _ drawn => some drawn
  | .path outline => some outline
  | _ => none

/-- The string of a primitive that is drawn from one. -/
def Primitive.string? : Primitive α → Option String
  | .text _ drawn => some drawn
  | .path outline => some outline
  | _ => none

def Item.string? : Item α → Option String
  | .figure f => f.shape.string?
  | _ => none

/-- The strings that were drawn on a context, in order. -/
def Context.strings (c : Context α) : List String := c.items.toList.filterMap Item.string?

end Strings

variable {α : Type} [Scalar α]

theorem Primitive.string?_pieces (size : CellSize α) (points first second : List (Point α)) :
    (pieces size points first second).filterMap Shape.string? = [] := by
  fun_induction pieces size points first second with
  | case1 a b points c first d second ih => exact ih
  | case2 => rfl

theorem Primitive.string?_headsOf {size : CellSize α} {color : String} (arrow : Arrow)
    (p q : Point α) (angle turn : Angle α) :
    (headsOf arrow (headShape size color p angle) (headShape size color q turn)).filterMap
      Shape.string? = [] := by
  rw [headsOf, List.filterMap_append]
  split <;> split <;> rfl

theorem Primitive.string?_markerShapes (size : CellSize α) (background : String) (c : Cell)
    (m : Marker) (sides : Sides) :
    (markerShapes size background c m sides).filterMap Shape.string? = [] := by
  have hstub (wanted : Bool) (a b : Point α) :
      (if wanted then [Shape.line a b] else []).filterMap Shape.string? = [] := by
    split <;> rfl
  unfold markerShapes
  dsimp only
  rw [List.filterMap_append, List.filterMap_append, hstub, hstub]
  cases m <;> rfl

/-- Only text and outlines are drawn from strings, and from theirs. -/
theorem Primitive.string?_shapes (p : Primitive α) (size : CellSize α) (style : Style α) :
    (p.shapes size style).filterMap Shape.string? = p.string?.toList := by
  cases p with
  | curve points first second => exact string?_pieces size points first second
  | line a b arrow => exact string?_headsOf arrow a b _ _
  | run axis lane first last arrow =>
      cases axis
      · exact string?_headsOf arrow _ _ _ _
      · exact string?_headsOf arrow _ _ _ _
  | marker c m sides => exact string?_markerShapes size style.background c m sides
  | rectangle | path | crossing | text | roundCorner | head => rfl

/-- Outlines are drawn as outlines only. -/
theorem Primitive.ne_path_of_mem_shapes {p : Primitive α} (hp : ∀ outline, p ≠ .path outline)
    {size : CellSize α} {style : Style α} {s : Shape α} (hs : s ∈ p.shapes size style)
    (outline : String) : s ≠ .path outline := by
  rintro rfl
  have hstring : outline ∈ p.string?.toList := by
    rw [← p.string?_shapes size style]
    exact List.mem_filterMap.2 ⟨_, hs, rfl⟩
  cases p with
  | path other => exact hp other rfl
  | text cell drawn => cases List.mem_singleton.1 hs
  | _ => cases hstring

/-! ## Drawing -/

namespace Context

variable (c : Context α)

/-- The items of shapes that are drawn on a context. -/
def figures (shapes : List (Shape α)) : List (Item α) :=
  shapes.map fun s => .figure ⟨s, c.style.look c.cell.height⟩

variable {c}

theorem state_drawShape {s : Shape α} (h : (c.drawShape s).fault = none) :
    (c.drawShape s).state = c.push (.figure ⟨s, c.style.look c.cell.height⟩) := by
  unfold drawShape at h ⊢
  dsimp only at h ⊢
  obtain ⟨-, hdone⟩ := Attempt.fault_barring h
  rw [hdone] at h ⊢
  rw [(Attempt.fault_barring h).2]

theorem state_each_drawShape {shapes : List (Shape α)}
    (h : (Attempt.each drawShape c shapes).fault = none) :
    (Attempt.each drawShape c shapes).state =
      { c with items := c.items ++ (c.figures shapes).toArray } := by
  induction shapes generalizing c with
  | nil => simp [Attempt.each, figures]
  | cons s rest ih =>
      obtain ⟨hfirst, hrest, hstate⟩ := Attempt.fault_andThen h
      rw [Attempt.each, hstate, ih hrest, state_drawShape hfirst]
      -- neither style nor cells change with what is drawn
      simp [push, figures]

theorem exists_setSize (p : Point α) :
    ∃ width height, (c.setSize p).state = { c with width := width, height := height } := by
  unfold setSize
  split
  · exact ⟨c.width, c.height, rfl⟩
  · split <;> exact ⟨_, _, rfl⟩

variable (c) in
/-- A context with the room reserved that a primitive takes. -/
def reserved (p : Primitive α) : Attempt (Context α) :=
  match p.reach with
  | some last => c.setSize last
  | none => ⟨c, none⟩

theorem exists_reserved (p : Primitive α) :
    ∃ width height, (c.reserved p).state = { c with width := width, height := height } := by
  unfold reserved
  cases p.reach with
  | none => exact ⟨c.width, c.height, rfl⟩
  | some last => exact exists_setSize last

theorem state_draw {p : Primitive α} (h : (c.draw p).fault = none) :
    ∃ width height, (c.draw p).state =
      { c with
        width := width
        height := height
        items := c.items ++ (c.figures (p.shapes c.cell c.style)).toArray } := by
  have hdraw : c.draw p = (c.reserved p).andThen fun c =>
      .barring (Scalar.firstFault? (p.premises c.cell)) c
        (Attempt.each drawShape c (p.shapes c.cell c.style)) := rfl
  obtain ⟨width, height, hreserved⟩ := c.exists_reserved p
  rw [hdraw] at h ⊢
  obtain ⟨-, hshapes, hstate⟩ := Attempt.fault_andThen h
  rw [hreserved] at hshapes hstate
  obtain ⟨-, hdone⟩ := Attempt.fault_barring hshapes
  rw [hdone] at hshapes hstate
  exact ⟨width, height, hstate.trans (state_each_drawShape hshapes)⟩

/-- Drawing without a fault appends the shapes of all primitives. -/
theorem state_drawAll {ps : List (Primitive α)} (h : (c.drawAll ps).fault = none) :
    ∃ width height, (c.drawAll ps).state =
      { c with
        width := width
        height := height
        items := c.items ++ (c.figures (ps.flatMap (·.shapes c.cell c.style))).toArray } := by
  unfold drawAll at h ⊢
  induction ps generalizing c with
  | nil => exact ⟨c.width, c.height, by simp [Attempt.each, figures]⟩
  | cons p rest ih =>
      obtain ⟨hfirst, hrest, hstate⟩ := Attempt.fault_andThen h
      obtain ⟨width, height, hdrawn⟩ := state_draw hfirst
      obtain ⟨width', height', hall⟩ := ih hrest
      refine ⟨width', height', ?_⟩
      rw [Attempt.each, hstate, hall, hdrawn]
      simp [figures]

/-- Drawing without a fault appends the strings of all primitives. -/
theorem strings_drawAll {ps : List (Primitive α)} (h : (c.drawAll ps).fault = none) :
    (c.drawAll ps).state.strings = c.strings ++ ps.filterMap Primitive.string? := by
  obtain ⟨width, height, hall⟩ := state_drawAll h
  have hfigures (shapes : List (Shape α)) :
      (c.figures shapes).filterMap Item.string? = shapes.filterMap Shape.string? :=
    List.filterMap_map
  rw [strings, hall, Array.toList_append, List.filterMap_append, hfigures, List.filterMap_flatMap]
  refine congrArg (c.strings ++ ·) ?_
  rw [List.flatMap_congr fun p _ => p.string?_shapes c.cell c.style, List.flatMap_def,
    List.filterMap_eq_flatMap_toList, List.flatMap_def]

end Context

end CellSketch
