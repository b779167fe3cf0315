import CellSketch.Proofs.Canvas.Backends
import CellSketch.Proofs.Canvas.Extent
import CellSketch.Proofs.Canvas.Reach

/-!
# Contained — nothing drawn is cut off

Programs without heads, text or curves, on cells that are not negative, draw everything inside the
room that they reserve.  Contexts are anchored at origins that are not negative, so that what is
drawn inside one of them stays within its size, moved by the anchor, which the context around it
covers.  In exact arithmetic all shapes lie between the first corner of the outermost context and
its last one, for any size that it has from then on.

* `Covers.work` — a context that covers what its page of the ledger holds goes on to do so;
* `fits_placesFrom` — everything on a context and inside it is placed within its size;
* `shown_contained` — which holds for what every program shows, and for its documents.
-/

namespace CellSketch

open Number

variable {width height : Rat}

/-! ## Programs -/

/-- What is drawn on cells that are not negative, without heads. -/
inductive Drawn : List (Primitive Rat) → Prop where
  | single {p : Primitive Rat} (h : p.Grounded) : Drawn [p]
  | marker {c : Cell} (h : 0 ≤ c.x ∧ 0 ≤ c.y) (name : String) (connectors : Sides) :
      Drawn (Primitive.markerNamed c name connectors)
  | corner {c : Cell} (h : 0 ≤ c.x ∧ 0 ≤ c.y) (name : String) (round : Bool) :
      Drawn (Primitive.cornerNamed c name round)
  | connection {points : List (Connection.RawPoint Rat)} (h : Connection.NotNegative points)
      {round : Bool} {ps : List (Primitive Rat)}
      (hps : Primitive.connection points .headless round = .ok ps) : Drawn ps

theorem Drawn.grounded {ps : List (Primitive Rat)} (h : Drawn ps) : ∀ p ∈ ps, p.Grounded := by
  cases h with
  | single h => simpa using h
  | marker h name connectors =>
      intro p hp
      obtain ⟨m, -, rfl⟩ := List.mem_map.1 hp
      exact h
  | corner h name round =>
      intro p hp
      obtain ⟨corner, -, rfl⟩ := List.mem_map.1 hp
      cases round <;> exact h
  | connection h hps => exact Connection.grounded_connection h hps

/-- An operation that draws nothing else. -/
def Op.Grounded : Op Rat → Prop
  | .work _ (.draw ps) => Drawn ps
  | _ => True

/-! ## Boxes of cells -/

/-- A shape at a cell, in the box of cells from one corner up to another one. -/
def Shape.Inside (size : CellSize Rat) (s : Shape Rat) (c low high : Cell) : Prop :=
  s.Between ⟨((low.x - c.x : Int) : Rat) * size.width, ((low.y - c.y : Int) : Rat) * size.height⟩
    ⟨((high.x - c.x : Int) : Rat) * size.width, ((high.y - c.y : Int) : Rat) * size.height⟩

namespace Shape.Inside

variable {s : Shape Rat} {c low high : Cell}

theorem mono (hwidth : 0 ≤ width) (hheight : 0 ≤ height)
    (h : s.Inside (.of width height) c low high) {low' high' : Cell}
    (hlow : low'.x ≤ low.x ∧ low'.y ≤ low.y) (hhigh : high.x ≤ high'.x ∧ high.y ≤ high'.y) :
    s.Inside (.of width height) c low' high' := by
  have hscale {n m : Int} {side : Rat} (hside : 0 ≤ side) (hnm : n ≤ m) :
      (n : Rat) * side ≤ (m : Rat) * side :=
    mul_le_mul_of_nonneg_right (by exact_mod_cast hnm) hside
  exact Between.mono h ⟨hscale hwidth (by omega), hscale hheight (by omega)⟩
    ⟨hscale hwidth (by omega), hscale hheight (by omega)⟩

/-- Seen from elsewhere, everything is moved alike. -/
theorem from_anchors {size : CellSize Rat} (h : s.Inside size c low high) (anchors : Cell) :
    s.Inside size (c.from anchors) (low.from anchors) (high.from anchors) := by
  unfold Inside Cell.from at *
  simpa only [add_sub_add_left_eq_sub] using h

end Shape.Inside

/-- What is drawn at an origin stays in the room that is reserved from there. -/
theorem Shape.InRoom.inside (hwidth : 0 ≤ width) (hheight : 0 ≤ height) {s : Shape Rat}
    {last : Point Rat} (h : s.InRoom (.of width height) last) {origin : Cell}
    (horigin : 0 ≤ origin.x ∧ 0 ≤ origin.y) :
    s.Inside (.of width height) origin ⟨0, 0⟩
      ⟨origin.x + last.x.ceil + 1, origin.y + last.y.ceil + 1⟩ := by
  have hlow {n : Int} {side : Rat} (hside : 0 ≤ side) (hn : 0 ≤ n) :
      ((0 - n : Int) : Rat) * side ≤ 0 :=
    mul_nonpos_of_nonpos_of_nonneg (by exact_mod_cast (show 0 - n ≤ 0 by omega)) hside
  have hhigh (n m : Int) (side : Rat) : m * side + side ≤ ((n + m + 1 - n : Int) : Rat) * side :=
    le_of_eq (by push_cast; ring)
  exact h.mono ⟨hlow hwidth horigin.1, hlow hheight horigin.2⟩
    ⟨hhigh origin.x _ width, hhigh origin.y _ height⟩

/-! ## Contexts -/

theorem Context.draw_of_reach (c : Context Rat) {p : Primitive Rat} {last : Point Rat}
    (h : p.reach = some last) :
    c.draw p = ⟨(c.extend (lasts last)).inked (p.shapes c.cell c.style), none⟩ := by
  have hreserved : c.setSize last = ⟨c.extend (lasts last), none⟩ := rfl
  have hsame : (c.extend (lasts last)).cell = c.cell ∧ (c.extend (lasts last)).style = c.style :=
    ⟨rfl, rfl⟩
  rw [draw, h]
  dsimp only
  rw [hreserved, Attempt.andThen]
  simp only [firstFault?_exact, Attempt.barring, each_drawShape_exact, hsame.1, hsame.2]

/-- A context whose room covers the shapes of its page, and which has the contexts of the page
inside it, anchored where the page has them. -/
structure Covers (size : CellSize Rat) (page : Page Rat) (c : Context Rat) : Prop where
  origin : 0 ≤ page.origin.x ∧ 0 ≤ page.origin.y
  room : 0 ≤ c.width ∧ 0 ≤ c.height
  shape : ∀ s here, Spot.shape s here ∈ page.spots → s.Inside size here ⟨0, 0⟩ ⟨c.width, c.height⟩
  child : ∀ index here, Spot.child index here ∈ page.spots →
    (0 ≤ here.x ∧ 0 ≤ here.y) ∧ (⟨here.x, here.y, index⟩ : Child) ∈ c.children

namespace Covers

section Steps

variable {page : Page Rat} {c : Context Rat} (hwidth : 0 ≤ width) (hheight : 0 ≤ height)
include hwidth hheight

/-- More room does no harm. -/
theorem grow (V : Covers (.of width height) page c) {page' : Page Rat} {c' : Context Rat}
    (horigin : 0 ≤ page'.origin.x ∧ 0 ≤ page'.origin.y) (hspots : page'.spots = page.spots)
    (hroom : c.width ≤ c'.width ∧ c.height ≤ c'.height) (hchildren : c'.children = c.children) :
    Covers (.of width height) page' c' where
  origin := horigin
  room := ⟨V.room.1.trans hroom.1, V.room.2.trans hroom.2⟩
  shape s here hmem :=
    (V.shape s here (hspots ▸ hmem)).mono hwidth hheight ⟨le_rfl, le_rfl⟩ hroom
  child index here hmem := hchildren ▸ V.child index here (hspots ▸ hmem)

/-- The room that is reserved for a primitive covers its shapes. -/
theorem draw (V : Covers (.of width height) page c) (T : Tracks (.of width height) page c)
    {p : Primitive Rat} (hp : p.Grounded) :
    ∃ c', c.draw p = ⟨c', none⟩ ∧
      Tracks (.of width height) (page.work (.of width height) (.draw [p])) c' ∧
      Covers (.of width height) (page.work (.of width height) (.draw [p])) c' := by
  obtain ⟨last, hreach, hshapes⟩ := hp.inRoom hwidth hheight page.style
  have hdraw := c.draw_of_reach hreach
  refine ⟨_, hdraw, ?_, ?_⟩
  · obtain ⟨c', hall, T'⟩ := T.draw [p]
    rw [Context.drawAll, Attempt.each, hdraw] at hall
    cases hall
    exact T'
  · have hgrown : Covers (.of width height) page ((c.extend (lasts last)).inked
        (p.shapes c.cell c.style)) :=
      V.grow hwidth hheight V.origin rfl
        ⟨c.room_le_extend (lasts last) .horizontal, c.room_le_extend (lasts last) .vertical⟩
        (c.children_extend (lasts last))
    refine { hgrown with
      shape := fun s here hmem => ?_
      child := fun index here hmem => ?_ }
    · rcases List.mem_append.1 hmem with hmem | hmem
      · exact hgrown.shape s here hmem
      · obtain ⟨t, ht, heq⟩ := List.mem_map.1 hmem
        cases heq
        rw [List.flatMap_singleton] at ht
        refine ((hshapes s ht).inside hwidth hheight V.origin).mono hwidth hheight
          ⟨le_rfl, le_rfl⟩ ⟨?_, ?_⟩ <;>
          rw [← T.origin] <;>
          exact le_max_right _ _
    · rcases List.mem_append.1 hmem with hmem | hmem
      · exact hgrown.child index here hmem
      · obtain ⟨t, -, heq⟩ := List.mem_map.1 hmem
        cases heq

theorem drawAll (V : Covers (.of width height) page c) (T : Tracks (.of width height) page c)
    {ps : List (Primitive Rat)} (hps : ∀ p ∈ ps, p.Grounded) :
    Covers (.of width height) (page.work (.of width height) (.draw ps)) (c.drawAll ps).state := by
  induction ps generalizing page c with
  | nil => exact V.grow hwidth hheight V.origin (List.append_nil _) ⟨le_rfl, le_rfl⟩ rfl
  | cons p rest ih =>
      obtain ⟨c', hdraw, T', V'⟩ := V.draw hwidth hheight T (hps p List.mem_cons_self)
      have hrest := ih V' T' fun q hq => hps q (List.mem_cons_of_mem p hq)
      have hpage : (page.work (.of width height) (.draw [p])).work (.of width height) (.draw rest) =
          page.work (.of width height) (.draw (p :: rest)) := by
        simp [Page.work]
      rw [Context.drawAll, Attempt.each, hdraw, ← hpage]
      exact hrest

theorem translate (V : Covers (.of width height) page c) (dx dy : Int) :
    Covers (.of width height) (page.work (.of width height) (.translate dx dy))
      (c.translate dx dy).state := by
  have horigin : 0 ≤ max 0 (page.origin.x + dx) ∧ 0 ≤ max 0 (page.origin.y + dy) :=
    ⟨le_max_left _ _, le_max_left _ _⟩
  unfold Context.translate
  dsimp only
  split
  · exact V.grow hwidth hheight horigin rfl ⟨le_max_left _ _, le_max_left _ _⟩ rfl
  · rw [firstFault?_exact]
    exact V.grow hwidth hheight horigin rfl ⟨le_max_left _ _, le_max_left _ _⟩ rfl

theorem setting (V : Covers (.of width height) page c) {empty : Bool} (style : Style Rat)
    (change : Item Rat) (numbers : List Rat) :
    Covers (.of width height) { page with style := style }
      (if empty then (⟨c, none⟩ : Attempt (Context Rat))
        else { c with style := style }.note change numbers).state := by
  cases empty with
  | true => exact V.grow hwidth hheight V.origin rfl ⟨le_rfl, le_rfl⟩ rfl
  | false =>
      rw [if_neg Bool.false_ne_true, Context.note_exact]
      exact V.grow hwidth hheight V.origin rfl ⟨le_rfl, le_rfl⟩ rfl

theorem work (V : Covers (.of width height) page c) (T : Tracks (.of width height) page c)
    {w : Work Rat} (hw : ∀ ps, w = .draw ps → ∀ p ∈ ps, p.Grounded) :
    Covers (.of width height) (page.work (.of width height) w) (c.work w).state := by
  cases w with
  | translate dx dy => exact V.translate hwidth hheight dx dy
  | draw ps => exact V.drawAll hwidth hheight T (hw ps rfl)
  | setSize last =>
      rw [Context.work, c.state_setSize]
      exact V.grow hwidth hheight V.origin rfl
        ⟨c.room_le_extend (lasts last) .horizontal, c.room_le_extend (lasts last) .vertical⟩
        (c.children_extend (lasts last))
  | setStroke change =>
      unfold Page.work
      rw [← T.style]
      exact V.setting hwidth hheight _ _ _
  | setFill change =>
      unfold Page.work
      rw [← T.style]
      exact V.setting hwidth hheight _ _ _
  | setFont change =>
      unfold Page.work
      rw [← T.style]
      exact V.setting hwidth hheight _ _ _
  | setDebug shown propagated => exact V.grow hwidth hheight V.origin rfl ⟨le_rfl, le_rfl⟩ rfl

omit hwidth hheight in
/-- Where a context is created, it is anchored at an origin that is not negative. -/
theorem anchor {size : CellSize Rat} (V : Covers size page c) (T : Tracks size page c) (index : Nat)
    (items : Array (Item Rat)) :
    Covers size { page with spots := page.spots ++ [.child index page.origin] }
      { c with
        children := c.children.push ⟨c.origin.x, c.origin.y, index⟩
        items := items } where
  origin := V.origin
  room := V.room
  shape s here hmem := by
    rcases List.mem_append.1 hmem with hmem | hmem
    · exact V.shape s here hmem
    · cases List.mem_singleton.1 hmem
  child number here hmem := by
    rcases List.mem_append.1 hmem with hmem | hmem
    · obtain ⟨hhere, hchild⟩ := V.child number here hmem
      exact ⟨hhere, Array.mem_push_of_mem _ hchild⟩
    · cases List.mem_singleton.1 hmem
      rw [T.origin]
      exact ⟨V.origin, Array.mem_push_self⟩

omit hwidth hheight in
/-- A context without anything on it. -/
theorem empty {size : CellSize Rat} (style : Style Rat) {c : Context Rat}
    (hroom : c.width = 0 ∧ c.height = 0) : Covers size { style := style } c where
  origin := ⟨le_rfl, le_rfl⟩
  room := ⟨hroom.1.ge, hroom.2.ge⟩
  shape s here hmem := by cases hmem
  child index here hmem := by cases hmem

end Steps

end Covers

/-! ## Canvases -/

/-- A canvas of which every context follows its page and covers what the page holds. -/
def Canvas.Holds (size : CellSize Rat) (pages : List (Page Rat)) (c : Canvas Rat) : Prop :=
  List.Forall₂ (fun page context => Tracks size page context ∧ Covers size page context) pages
    c.contexts.toList

namespace Canvas.Holds

variable {pages : List (Page Rat)} {c : Canvas Rat}

theorem follows {size : CellSize Rat} (h : Canvas.Holds size pages c) :
    Canvas.Follows size pages c :=
  List.Forall₂.imp (fun _ _ h => h.1) h

theorem blank (styling : Styling) (style : Style Rat) :
    Canvas.Holds (.of width height) [{ style := style }]
      (Canvas.blank styling (.of width height) style) := by
  obtain ⟨T, -⟩ := List.forall₂_cons.1 (@Canvas.Follows.blank width height styling style)
  exact .cons ⟨T, .empty style ⟨rfl, rfl⟩⟩ .nil

theorem addContext (h : Canvas.Holds (.of width height) pages c) (i : Nat) :
    Canvas.Holds (.of width height) (Ledger.perform (.of width height) pages (.addContext i))
      (c.addContext i) := by
  unfold Canvas.addContext Ledger.perform
  dsimp only
  have hlength : pages.length = c.contexts.size := List.Forall₂.length_eq h
  rcases Canvas.context?_of_forall₂ h i with
    ⟨hpage, hcontext⟩ | ⟨page, context, hpage, hcontext, T, V⟩
  · rw [hpage, hcontext]
    exact h
  · rw [hpage, hcontext]
    dsimp only
    rw [hlength]
    unfold Canvas.Holds
    rw [Array.toList_push, Array.set!_eq_setIfInBounds, Array.toList_setIfInBounds]
    exact List.rel_append (forall₂_set h ⟨T.anchor _ _, V.anchor T _ _⟩ i)
      (.cons ⟨T.inner, .empty _ ⟨rfl, rfl⟩⟩ .nil)

theorem perform (hwidth : 0 ≤ width) (hheight : 0 ≤ height)
    (h : Canvas.Holds (.of width height) pages c) {op : Op Rat} (hop : op.Grounded) :
    Canvas.Holds (.of width height) (Ledger.perform (.of width height) pages op)
      (c.perform op).state := by
  cases op with
  | addContext i => exact h.addContext i
  | work i w =>
      unfold Canvas.perform Canvas.attempt Ledger.perform
      dsimp only
      rcases Canvas.context?_of_forall₂ h i with
        ⟨hpage, hcontext⟩ | ⟨page, context, hpage, hcontext, T, V⟩
      · rw [hcontext, List.modify_eq_self (by rw [← List.getElem?_eq_none_iff, hpage])]
        exact h
      · obtain ⟨context', hwork, T'⟩ := T.work w
        have V' := V.work hwidth hheight T (w := w) fun ps hps => by
          subst hps
          exact Drawn.grounded hop
        rw [hwork] at V'
        rw [hcontext]
        dsimp only
        rw [hwork]
        unfold Canvas.Holds
        dsimp only [Attempt.map]
        rw [Array.set!_eq_setIfInBounds, Array.toList_setIfInBounds,
          List.modify_eq_set_getElem?, hpage]
        exact forall₂_set h ⟨T', V'⟩ i

/-- A whole program. -/
theorem carryOn (hwidth : 0 ≤ width) (hheight : 0 ≤ height)
    (h : Canvas.Holds (.of width height) pages c) {program : List (Op Rat)}
    (hprogram : ∀ op ∈ program, op.Grounded) :
    Canvas.Holds (.of width height) (program.foldl (Ledger.perform (.of width height)) pages)
      (c.carryOn program) := by
  induction program generalizing pages c with
  | nil => exact h
  | cons op rest ih =>
      exact ih (h.perform hwidth hheight (hprogram op List.mem_cons_self)) fun other hother =>
        hprogram other (List.mem_cons_of_mem op hother)

end Canvas.Holds

/-! ## Sizes -/

theorem le_foldl_sizes (base : Nat) (others : List (Int × Int)) (children : List Child)
    (room : Int × Int) :
    let size := children.foldl
      (fun (size : Int × Int) (child : Child) =>
        match Canvas.later? base child.index others with
        | some inner => (max size.1 (child.x + inner.1), max size.2 (child.y + inner.2))
        | none => size) room
    (room.1 ≤ size.1 ∧ room.2 ≤ size.2) ∧
      ∀ child ∈ children, ∀ inner, Canvas.later? base child.index others = some inner →
        child.x + inner.1 ≤ size.1 ∧ child.y + inner.2 ≤ size.2 := by
  induction children generalizing room with
  | nil => exact ⟨⟨le_rfl, le_rfl⟩, fun child hchild => by cases hchild⟩
  | cons child rest ih =>
      dsimp only
      rw [List.foldl_cons]
      cases hlater : Canvas.later? base child.index others with
      | none =>
          obtain ⟨hroom, hrest⟩ := ih room
          refine ⟨hroom, fun other hother inner hinner => ?_⟩
          rcases List.mem_cons.1 hother with rfl | hother
          · rw [hlater] at hinner
            cases hinner
          · exact hrest other hother inner hinner
      | some found =>
          obtain ⟨hroom, hrest⟩ :=
            ih (max room.1 (child.x + found.1), max room.2 (child.y + found.2))
          refine ⟨⟨(le_max_left _ _).trans hroom.1, (le_max_left _ _).trans hroom.2⟩,
            fun other hother inner hinner => ?_⟩
          rcases List.mem_cons.1 hother with rfl | hother
          · rw [hlater] at hinner
            cases hinner
            exact ⟨(le_max_right _ _).trans hroom.1, (le_max_right _ _).trans hroom.2⟩
          · exact hrest other hother inner hinner

/-- The size of a context is no less than its own room, and than the sizes of the contexts inside
it, each moved by its anchor. -/
theorem exists_sizesFrom_cons {α : Type} (base : Nat) (c : Context α) (rest : List (Context α)) :
    ∃ size, Canvas.sizesFrom base (c :: rest) = size :: Canvas.sizesFrom (base + 1) rest ∧
      (c.width ≤ size.1 ∧ c.height ≤ size.2) ∧
      ∀ child ∈ c.children, ∀ inner,
        Canvas.later? base child.index (Canvas.sizesFrom (base + 1) rest) = some inner →
          child.x + inner.1 ≤ size.1 ∧ child.y + inner.2 ≤ size.2 := by
  obtain ⟨hroom, hinner⟩ := le_foldl_sizes base (Canvas.sizesFrom (base + 1) rest)
    c.children.toList (c.width, c.height)
  exact ⟨_, rfl, hroom, fun child hchild => hinner child (Array.mem_toList_iff.2 hchild)⟩

/-- Everything is placed within a size from the anchors on. -/
def Fits (size : CellSize Rat) (place : Cell → List (Shape Rat × Cell)) (room : Int × Int) : Prop :=
  ∀ anchors, ∀ p ∈ place anchors,
    p.1.Inside size p.2 anchors ⟨anchors.x + room.1, anchors.y + room.2⟩

section Fitting

variable (hwidth : 0 ≤ width) (hheight : 0 ≤ height)
include hwidth hheight

/-- The overlay of a context is as large as the context. -/
theorem inside_overlayShapes {c : Context Rat} (hcell : c.cell = .of width height)
    {room : Int × Int} (hroom : 0 ≤ room.1 ∧ 0 ≤ room.2) :
    ∀ s ∈ c.overlayShapes room, s.Inside (.of width height) ⟨0, 0⟩ ⟨0, 0⟩ ⟨room.1, room.2⟩ := by
  have hfar {n : Int} {side : Rat} (hside : 0 ≤ side) (hn : 0 ≤ n) : 0 ≤ n * side :=
    mul_nonneg (by exact_mod_cast hn) hside
  have hedge {x : Nat} {n : Int} {side : Rat} (hside : 0 ≤ side) (hx : x ∈ List.range n.toNat) :
      0 ≤ ((x : Int) : Rat) * side ∧ ((x : Int) : Rat) * side ≤ n * side := by
    have hlt : (x : Int) ≤ n := by
      have := List.mem_range.1 hx
      omega
    exact ⟨mul_nonneg (by exact_mod_cast Int.natCast_nonneg x) hside,
      mul_le_mul_of_nonneg_right (by exact_mod_cast hlt) hside⟩
  have hright := hfar hwidth hroom.1
  have hdown := hfar hheight hroom.2
  intro s hs
  have hbox (h : s.Between ⟨0, 0⟩ ⟨room.1 * width, room.2 * height⟩) :
      s.Inside (.of width height) ⟨0, 0⟩ ⟨0, 0⟩ ⟨room.1, room.2⟩ := by
    simpa only [Shape.Inside, CellSize.of, Int.sub_zero, Int.cast_zero, zero_mul] using h
  unfold Context.overlayShapes at hs
  split at hs
  · cases hs
  · rw [Canvas.overlay, firstFault?_exact, hcell] at hs
    simp only [List.mem_append, List.mem_map, List.mem_cons, List.not_mem_nil, or_false] at hs
    refine hbox ?_
    rcases hs with (⟨x, hx, rfl⟩ | ⟨y, hy, rfl⟩) | rfl | rfl
    · have hx := hedge hwidth hx
      exact Shape.between_line hx ⟨le_rfl, hdown⟩ hx ⟨hdown, le_rfl⟩
    · have hy := hedge hheight hy
      exact Shape.between_line ⟨le_rfl, hright⟩ hy ⟨hright, le_rfl⟩ hy
    · refine (Shape.between_rectangle none).mono ⟨le_rfl, le_rfl⟩ ⟨?_, ?_⟩ <;>
        exact (zero_add _).le
    · exact fun q hq => by cases hq

theorem fits_placesFrom {pages : List (Page Rat)} {contexts : List (Context Rat)}
    (h : List.Forall₂ (fun page context => Tracks (.of width height) page context ∧
      Covers (.of width height) page context) pages contexts) (base : Nat) :
    List.Forall₂ (Fits (.of width height))
      (Ledger.placesFrom base pages
        (List.zipWith Context.overlayShapes contexts (Canvas.sizesFrom base contexts)))
      (Canvas.sizesFrom base contexts) := by
  induction h generalizing base with
  | nil => exact .nil
  | @cons page context pages contexts hfirst _ ih =>
      obtain ⟨T, V⟩ := hfirst
      have hothers := ih (base + 1)
      obtain ⟨size, hsizes, hroom, hinner⟩ := exists_sizesFrom_cons base context contexts
      rw [hsizes]
      refine .cons (fun anchors p hp => ?_) hothers
      rcases List.mem_append.1 hp with hp | hp
      · rw [List.flatMap_map] at hp
        obtain ⟨spot, hspot, hp⟩ := List.mem_flatMap.1 hp
        cases spot with
        | shape s here =>
            rw [List.mem_singleton.1 hp]
            have hinside := (V.shape s here hspot).from_anchors anchors
            exact hinside.mono hwidth hheight ⟨(Int.add_zero _).ge, (Int.add_zero _).ge⟩
              ⟨Int.add_le_add_left hroom.1 _, Int.add_le_add_left hroom.2 _⟩
        | child index here =>
            obtain ⟨hhere, hchild⟩ := V.child index here hspot
            rcases later?_of_forall₂ hothers base index with
              ⟨hnone, -⟩ | ⟨place, inner, hplace, hsize, hfits⟩
            · simp [Spot.place, Spot.spread, hnone] at hp
            · obtain ⟨hx, hy⟩ := hinner _ hchild inner hsize
              dsimp only at hx hy
              simp only [Spot.place, Spot.spread, hplace] at hp
              refine (hfits _ p hp).mono hwidth hheight ?_ ?_ <;>
                simp only [Cell.from] <;> constructor <;> omega
      · obtain ⟨s, hs, rfl⟩ := List.mem_map.1 hp
        have hpos := inside_overlayShapes hwidth hheight T.cell
          ⟨V.room.1.trans hroom.1, V.room.2.trans hroom.2⟩ s hs
        have hzero : (⟨0, 0⟩ : Cell).from anchors = anchors := by
          rw [Cell.from, Int.add_zero, Int.add_zero]
        have hinside := hpos.from_anchors anchors
        rwa [hzero] at hinside

/-- What a canvas shows lies within the size of its outermost context. -/
theorem Canvas.Holds.shown {pages : List (Page Rat)} {c : Canvas Rat}
    (h : Canvas.Holds (.of width height) pages c) {s : Shape Rat} {p : Point Rat}
    (hs : (s, p) ∈ c.shown moveBy ⟨0, 0⟩) {q : Point ℝ} (hq : q ∈ s.points) :
    (0 ≤ p.x + q.x ∧ p.x + q.x ≤ (c.sizeInCells 0).1 * width) ∧
      0 ≤ p.y + q.y ∧ p.y + q.y ≤ (c.sizeInCells 0).2 * height := by
  have hfits := fits_placesFrom hwidth hheight h 0
  rw [h.follows.shown] at hs
  obtain ⟨⟨t, cell⟩, hplaced, heq⟩ := List.mem_map.1 hs
  cases heq
  unfold Ledger.places Canvas.overlays at hplaced
  unfold Canvas.sizeInCells
  generalize Ledger.placesFrom 0 pages _ = places at hfits hplaced
  generalize Canvas.sizesFrom 0 c.contexts.toList = sizes at hfits ⊢
  cases hfits with
  | nil => cases hplaced
  | cons hfirst _ =>
      obtain ⟨⟨hleft, hright⟩, htop, hbottom⟩ := hfirst ⟨0, 0⟩ (t, cell) hplaced q hq
      simp only [CellSize.of] at hleft hright htop hbottom
      push_cast at hleft hright htop hbottom
      simp only [CellSize.corner, CellSize.of, List.getElem?_cons_zero, Option.getD_some]
      push_cast
      refine ⟨⟨?_, ?_⟩, ?_, ?_⟩ <;> linarith

end Fitting

/-! ## Whole programs -/

theorem sizeAlong_le_after {α : Type} [Scalar α] (styling : Styling) (cell : CellSize α)
    (style : Style α) (program later : List (Op α)) (i : Nat) (axis : Axis) :
    (Canvas.after styling cell style program).sizeAlong i axis ≤
      (Canvas.after styling cell style (program ++ later)).sizeAlong i axis := by
  induction later generalizing program with
  | nil => rw [List.append_nil]
  | cons op rest ih =>
      have hstep := sizeAlong_le_append styling cell style program op i axis
      have hrest := ih (program ++ [op])
      rw [List.append_assoc, List.singleton_append] at hrest
      exact hstep.trans hrest

/-- In exact arithmetic no program meets a fault. -/
theorem run_exact (styling : Styling) (style : Style Rat) (program : List (Op Rat)) :
    (Canvas.blank styling (.of width height) style).run program =
      ⟨Canvas.after styling (.of width height) style program, none⟩ := by
  obtain ⟨c, hrun, -⟩ := (@Canvas.Follows.blank width height styling style).run program
  obtain ⟨done, rest, rfl, hstate, hrest⟩ :=
    (Canvas.blank styling (.of width height) style).run_eq_carryOn program
  rw [hrun] at hstate hrest ⊢
  obtain rfl := hrest rfl
  rw [List.append_nil, Canvas.after, ← hstate]

section Documents

variable (styling : Styling) (style : Style Rat) (program : List (Op Rat))

/-- Both documents of a program hold what its canvas shows. -/
theorem read_after (foreground fill : String) :
    ∃ commands, Mvg.document (Canvas.after styling (.of width height) style program) foreground
        fill = .ok commands ∧
      ∀ here, Mvg.read moveBy commands here [] =
        some ((Canvas.after styling (.of width height) style program).shown moveBy here) := by
  obtain ⟨commands, hcommands⟩ := Mvg.document_exact
    (Canvas.after styling (.of width height) style program) foreground fill
  refine ⟨commands, hcommands, fun here => Mvg.read_document hcommands ?_ here⟩
  intro context hcontext _
  obtain ⟨c, hrun, hfollows⟩ := (@Canvas.Follows.blank width height styling style).run program
  rw [run_exact] at hrun
  cases hrun
  obtain ⟨page, T⟩ := hfollows.exists_page hcontext
  exact T.returns

theorem walk_after (shift : Option (Rat × Rat)) :
    ∃ root, Svg.root? (Canvas.after styling (.of width height) style program) shift = some root ∧
      ∀ here, root.walk moveBy here =
        (Canvas.after styling (.of width height) style program).shown moveBy
          (Svg.shifted moveBy here shift) := by
  have htidy := (Canvas.tidy_blank styling (.of width height) style).run program
  have hnonempty := @Canvas.run_nonempty _ _ (Canvas.blank styling (.of width height) style)
    Nat.one_pos program
  rw [run_exact] at htidy hnonempty
  obtain ⟨root, hroot⟩ := Svg.exists_root hnonempty shift
  exact ⟨root, hroot, Svg.walk_root hroot ((Svg.traced_exact _).finished htidy)⟩

end Documents

/-- Nothing drawn is cut off: a program meets no fault, its documents hold what its canvas shows,
and all shapes of that lie between the first corner and the last one that the size of the outermost
context leads to, then and after anything else that is done. -/
theorem shown_contained (hwidth : 0 < width) (hheight : 0 < height) (styling : Styling)
    (style : Style Rat) {program : List (Op Rat)} (hprogram : ∀ op ∈ program, op.Grounded)
    (later : List (Op Rat)) :
    let cell : CellSize Rat := .of width height
    let canvas := Canvas.after styling cell style program
    let size := (Canvas.after styling cell style (program ++ later)).sizeInCells 0
    (Canvas.blank styling cell style).run program = ⟨canvas, none⟩ ∧
    (∀ foreground fill, ∃ commands, Mvg.document canvas foreground fill = .ok commands ∧
      Mvg.read moveBy commands ⟨0, 0⟩ [] = some (canvas.shown moveBy ⟨0, 0⟩)) ∧
    (∃ root, Svg.root? canvas none = some root ∧
      root.walk moveBy ⟨0, 0⟩ = canvas.shown moveBy ⟨0, 0⟩) ∧
    ∀ s p, (s, p) ∈ canvas.shown moveBy ⟨0, 0⟩ → ∀ q ∈ s.points,
      (0 ≤ p.x + q.x ∧ p.x + q.x ≤ size.1 * width) ∧
        0 ≤ p.y + q.y ∧ p.y + q.y ≤ size.2 * height := by
  intro cell canvas size
  refine ⟨run_exact styling style program, fun foreground fill => ?_, ?_, fun s p hs q hq => ?_⟩
  · obtain ⟨commands, hcommands, hread⟩ := read_after styling style program foreground fill
    exact ⟨commands, hcommands, hread _⟩
  · obtain ⟨root, hroot, hwalk⟩ := walk_after styling style program none
    exact ⟨root, hroot, hwalk _⟩
  · have hholds : Canvas.Holds (.of width height) _ canvas :=
      (Canvas.Holds.blank styling style).carryOn hwidth.le hheight.le hprogram
    obtain ⟨⟨hleft, hright⟩, htop, hbottom⟩ := hholds.shown hwidth.le hheight.le hs hq
    -- the outermost context is no smaller later on
    have hgrown (axis : Axis) : (canvas.sizeAlong 0 axis : ℝ) ≤
        (Canvas.after styling cell style (program ++ later)).sizeAlong 0 axis := by
      exact_mod_cast sizeAlong_le_after styling cell style program later 0 axis
    refine ⟨⟨hleft, hright.trans ?_⟩, htop, hbottom.trans ?_⟩
    · exact mul_le_mul_of_nonneg_right (hgrown .horizontal) (by exact_mod_cast hwidth.le)
    · exact mul_le_mul_of_nonneg_right (hgrown .vertical) (by exact_mod_cast hheight.le)

/-- Two points that a connection has to go around a corner for. -/
def elbowPoints : List (Connection.RawPoint Rat) := [some [some 0, some 1], some [some 2, some 0]]

def elbow : Connection.Plan Rat where
  pieces := [.segment ⟨0, 1⟩ ⟨0, 1 / 2⟩, .corner ⟨0, 0⟩ .topLeft, .segment ⟨1 / 2, 0⟩ ⟨2, 0⟩]

theorem connection_elbow :
    Primitive.connection elbowPoints .headless true = .ok (Primitive.ofPlan elbow true) := by
  have hplan : Connection.plan elbowPoints .headless true = .ok elbow := by
    decide +kernel
  rw [Primitive.connection, hplan]
  rfl

/-- A frame, a hop inside another context, and an elbow from an origin that stopped at the edge. -/
def framedHop : List (Op Rat) :=
  [.work 0 (.draw [.rectangle ⟨3, 0⟩ ⟨0, 2⟩ true]), .work 0 (.translate 5 1), .addContext 0,
    .work 1 (.draw [.crossing ⟨1, 1⟩]), .work 0 (.translate (-7) 2),
    .work 0 (.draw (Primitive.ofPlan elbow true))]

theorem grounded_framedHop : ∀ op ∈ framedHop, op.Grounded := by
  have hpoints : Connection.NotNegative elbowPoints := by
    simp [Connection.NotNegative, elbowPoints]
  simp only [framedHop, List.mem_cons, List.not_mem_nil, or_false]
  rintro op (rfl | rfl | rfl | rfl | rfl | rfl)
  · exact .single (by simp [Primitive.Grounded])
  · trivial
  · trivial
  · exact .single (by simp [Primitive.Grounded])
  · trivial
  · exact .connection hpoints connection_elbow

theorem framedHop_contained :
    ((0 : Rat) < 10 ∧ (0 : Rat) < 20) ∧ (∀ op ∈ framedHop, op.Grounded) ∧
    (Canvas.after .perShape (.of (10 : Rat) 20) (.ofColors "white" "black" "white")
      framedHop).sizeInCells 0 = (7, 5) ∧
    ∀ s p, (s, p) ∈ (Canvas.after .perShape (.of (10 : Rat) 20) (.ofColors "white" "black" "white")
        framedHop).shown moveBy ⟨0, 0⟩ → ∀ q ∈ s.points,
      (0 ≤ p.x + q.x ∧ p.x + q.x ≤ 70) ∧ 0 ≤ p.y + q.y ∧ p.y + q.y ≤ 100 := by
  have hsize : (Canvas.after .perShape (.of (10 : Rat) 20) (.ofColors "white" "black" "white")
      (framedHop ++ [])).sizeInCells 0 = (7, 5) := by
    decide +kernel
  have hwidth : (0 : Rat) < 10 := by norm_num
  have hheight : (0 : Rat) < 20 := by norm_num
  obtain ⟨-, -, -, hshown⟩ := shown_contained hwidth hheight .perShape
    (.ofColors "white" "black" "white") grounded_framedHop []
  refine ⟨⟨hwidth, hheight⟩, grounded_framedHop, hsize, fun s p hs q hq => ?_⟩
  obtain ⟨⟨hleft, hright⟩, htop, hbottom⟩ := hshown s p hs q hq
  rw [hsize] at hright hbottom
  norm_num at hright hbottom
  exact ⟨⟨hleft, hright⟩, htop, hbottom⟩

end CellSketch
