import CellSketch.Proofs.Canvas.Extent
import CellSketch.Proofs.Connection.Planned
import CellSketch.Sketch

/-!
# Faultless — plain primitives on a fresh context

Plain primitives become shapes with numbers that can be used, so that on a context whose cells and
settings can be used they are all drawn, and each takes room up to its last cell.

* `Plain.faultless` — no shape of a plain primitive stands for a fault;
* `exists_drawAll` — plain primitives are drawn on any context that is ready for them;
* `sizeAlong_drawAll` — how large a context is on which nothing else was drawn;
* `Sketch.blank_ofOptions` — new sketches have a fresh context that is ready.
-/

namespace CellSketch

open Number

variable {α : Type} [Scalar α] {limit : Int} {H : Halves α limit}

/-! ## Cells in pixels -/

/-- A cell size that positions can be worked out from. -/
structure CellSize.Usable (H : Halves α limit) (size : CellSize α) : Prop where
  width : H.Usable size.width
  height : H.Usable size.height
  halfWidth : H.Usable size.halfWidth
  halfHeight : H.Usable size.halfHeight

namespace CellSize.Usable

variable {size : CellSize α} (U : size.Usable H) {n : Int}
include U

theorem left (hn : 0 ≤ n) (hlimit : n ≤ limit) : H.Usable (size.left n) :=
  H.times hn hlimit U.width

theorem right (hn : 0 ≤ n) (hlimit : n ≤ limit) : H.Usable (size.right n) :=
  H.add (U.left hn hlimit) U.width

theorem top (hn : 0 ≤ n) (hlimit : n ≤ limit) : H.Usable (size.top n) :=
  H.times hn hlimit U.height

theorem bottom (hn : 0 ≤ n) (hlimit : n ≤ limit) : H.Usable (size.bottom n) :=
  H.add (U.top hn hlimit) U.height

theorem middleX (hn : 0 ≤ n) (hlimit : n ≤ limit) : H.Usable (size.middleX n) :=
  H.add (U.left hn hlimit) U.halfWidth

theorem middleY (hn : 0 ≤ n) (hlimit : n ≤ limit) : H.Usable (size.middleY n) :=
  H.add (U.top hn hlimit) U.halfHeight

/-- The centre of a position that halves lead to. -/
theorem centre {p : Point α} {c : Cell} (hp : H.At p c) :
    H.Usable (size.centre p).x ∧ H.Usable (size.centre p).y :=
  ⟨H.add (H.times_usable (H.usable hp.1) U.width) U.halfWidth,
    H.add (H.times_usable (H.usable hp.2) U.height) U.halfHeight⟩

end CellSize.Usable

/-! ## Shapes -/

theorem firstFault?_usable {numbers : List α} (h : ∀ x ∈ numbers, H.Usable x) :
    Scalar.firstFault? numbers = none :=
  List.findSome?_eq_none_iff.2 fun x hx => H.fault_none (h x hx)

/-- A shape meets no fault if its numbers can be used and its angle, if it has one, has a
direction. -/
theorem Shape.fault?_usable {s : Shape α} (hnumbers : ∀ x ∈ s.numbers, H.Usable x)
    (hangle : (match s with
      | .head _ _ _ angle _ => angle.fault?
      | _ => none) = none) : s.fault? = none := by
  have hnone := firstFault?_usable hnumbers
  unfold Shape.fault?
  exact (congrArg (fun turn => turn <|> Scalar.firstFault? s.numbers) hangle).trans hnone

theorem Shape.fault?_line {a b : Point α} (ha : H.Usable a.x ∧ H.Usable a.y)
    (hb : H.Usable b.x ∧ H.Usable b.y) : (Shape.line a b).fault? = none := by
  refine Shape.fault?_usable (H := H) ?_ rfl
  simp only [Shape.numbers, List.forall_mem_cons]
  exact ⟨ha.1, ha.2, hb.1, hb.2, List.forall_mem_nil _⟩

theorem Angle.fault?_degrees (H : Halves α limit) {d : Int} (hd : -360 ≤ d ∧ d ≤ 360) :
    (Angle.degrees (Scalar.measured d : α)).fault? = none := by
  obtain ⟨husable, n, htrunc⟩ := H.angle hd.1 hd.2
  rw [Angle.fault?, htrunc]
  exact H.fault_none husable

theorem Angle.fault?_whole (H : Halves α limit) {d : Int} (hd : -360 ≤ d ∧ d ≤ 360) :
    (Angle.degrees (Scalar.whole d : α)).fault? = none := by
  rw [Angle.fault?, H.trunc_whole]
  exact H.fault_angle hd.1 hd.2

theorem forall_mem_headsOf {β : Type} {P : Shape β → Prop} {arrow : Arrow} {start stop : Shape β}
    (hstart : P start) (hstop : P stop) : ∀ s ∈ Primitive.headsOf arrow start stop, P s := by
  intro s hs
  rcases List.mem_append.1 hs with hs | hs
  · split at hs
    · exact List.mem_singleton.1 hs ▸ hstart
    · cases hs
  · split at hs
    · exact List.mem_singleton.1 hs ▸ hstop
    · cases hs

namespace Plain

variable {size : CellSize α} (U : size.Usable H)
include U

theorem fault?_markerShapes {c : Cell} (hc : c.Within limit) (background : String) (m : Marker)
    (sides : Sides) : ∀ s ∈ Primitive.markerShapes size background c m sides, s.fault? = none := by
  obtain ⟨⟨hx, hx'⟩, hy, hy'⟩ := hc
  have hmiddleX := U.middleX hx hx'.le
  have hmiddleY := U.middleY hy hy'.le
  have hquarterX := H.halve U.halfWidth
  have hquarterY := H.halve U.halfHeight
  have hx1 := H.add (U.left hx hx'.le) hquarterX
  have hy1 := H.add (U.top hy hy'.le) hquarterY
  have hx2 := H.sub (U.right hx hx'.le) hquarterX
  have hy2 := H.sub (U.bottom hy hy'.le) hquarterY
  have hadd {x half : α} (b : Bool) (hx : H.Usable x) (hhalf : H.Usable half) :
      H.Usable (x + if b then Scalar.whole 0 else half) ∧
        H.Usable (x + if b then half else Scalar.whole 0) := by
    cases b
    · exact ⟨H.add hx hhalf, H.add_zero hx⟩
    · exact ⟨H.add_zero hx, H.add hx hhalf⟩
  intro s hs
  unfold Primitive.markerShapes at hs
  rcases List.mem_append.1 hs with hs | hs
  · rcases List.mem_append.1 hs with hs | hs
    · split at hs
      · rw [List.mem_singleton.1 hs]
        exact Shape.fault?_line ⟨(hadd _ (U.left hx hx'.le) U.halfWidth).1, hmiddleY⟩
          ⟨(hadd _ hmiddleX U.halfWidth).2, hmiddleY⟩
      · cases hs
    · split at hs
      · rw [List.mem_singleton.1 hs]
        exact Shape.fault?_line ⟨hmiddleX, (hadd _ (U.top hy hy'.le) U.halfHeight).1⟩
          ⟨hmiddleX, (hadd _ hmiddleY U.halfHeight).2⟩
      · cases hs
  · cases m with
    | cross =>
        simp only [List.mem_cons, List.not_mem_nil, or_false] at hs
        rcases hs with rfl | rfl
        · exact Shape.fault?_line ⟨hx1, hy1⟩ ⟨hx2, hy2⟩
        · exact Shape.fault?_line ⟨hx2, hy1⟩ ⟨hx1, hy2⟩
    | circle =>
        rw [List.mem_singleton.1 hs]
        refine Shape.fault?_usable (H := H) ?_ rfl
        simp only [Shape.numbers, CellSize.middle, List.forall_mem_cons]
        exact ⟨hmiddleX, hmiddleY, hquarterX, hquarterY, List.forall_mem_nil _⟩
    | plain => cases hs

theorem fault?_bend {c : Cell} (hc : c.Within limit) (corner : Corner) :
    H.Usable (Primitive.bend size c corner).1.x ∧ H.Usable (Primitive.bend size c corner).1.y := by
  obtain ⟨⟨hx, hx'⟩, hy, hy'⟩ := hc
  have hzero := (H.angle (d := 0) (by decide) (by decide)).1
  cases corner
  · exact ⟨U.right hx hx'.le, U.bottom hy hy'.le⟩
  · exact ⟨H.add (U.left hx hx'.le) hzero, U.bottom hy hy'.le⟩
  · exact ⟨U.right hx hx'.le, H.add (U.top hy hy'.le) hzero⟩
  · exact ⟨H.add (U.left hx hx'.le) hzero, H.add (U.top hy hy'.le) hzero⟩

/-- A head whose position can be scaled to pixels. -/
theorem fault?_headShape {p : Point α} (hx : H.Usable (p.x * size.width))
    (hy : H.Usable (p.y * size.height)) {d : Int} (hd : -360 ≤ d ∧ d ≤ 360) (color : String) :
    (Primitive.headShape size color p (.degrees (Scalar.whole d))).fault? = none := by
  refine Shape.fault?_usable (H := H) ?_ (Angle.fault?_whole H hd)
  simp only [Primitive.headShape, CellSize.centre, Shape.numbers, List.forall_mem_cons]
  exact ⟨H.add hx U.halfWidth, H.add hy U.halfHeight, U.halfWidth, U.halfHeight,
    List.forall_mem_nil _⟩

/-- A run along a row or a column: its line and its heads, which stand half a cell inside a row. -/
theorem fault?_run {axis : Axis} {lane first last : Int}
    (hfirst : (axis.cellAt lane first).Within limit) (hlast : (axis.cellAt lane last).Within limit)
    (arrow : Arrow) (style : Style α) :
    ∀ s ∈ (Primitive.run axis lane first last arrow).shapes size style, s.fault? = none := by
  cases axis with
  | horizontal =>
      obtain ⟨⟨hx, hx'⟩, hy, hy'⟩ := hfirst
      obtain ⟨⟨hlx, hlx'⟩, -⟩ := hlast
      dsimp only [Axis.cellAt] at hx hx' hy hy' hlx hlx'
      have hlo : 0 ≤ min first last ∧ min first last ≤ limit := by omega
      have hhi : 0 ≤ max first last ∧ max first last ≤ limit := by omega
      have hlane := H.times hy hy'.le U.height
      simp only [Primitive.shapes, List.forall_mem_cons]
      refine ⟨Shape.fault?_line ⟨U.left hlo.1 hlo.2, U.middleY hy hy'.le⟩
        ⟨U.right hhi.1 hhi.2, U.middleY hy hy'.le⟩, forall_mem_headsOf ?_ ?_⟩
      · exact fault?_headShape U (H.times_usable (H.between hlo.1 hlo.2).1 U.width) hlane
          (by decide) _
      · exact fault?_headShape U (H.times_usable (H.between hhi.1 hhi.2).2 U.width) hlane
          (by decide) _
  | vertical =>
      obtain ⟨⟨hx, hx'⟩, hy, hy'⟩ := hfirst
      obtain ⟨-, hly, hly'⟩ := hlast
      dsimp only [Axis.cellAt] at hx hx' hy hy' hly hly'
      have hlo : 0 ≤ min first last ∧ min first last ≤ limit := by omega
      have hhi : 0 ≤ max first last ∧ max first last ≤ limit := by omega
      have hlane := H.times hx hx'.le U.width
      simp only [Primitive.shapes, List.forall_mem_cons]
      refine ⟨Shape.fault?_line ⟨U.middleX hx hx'.le, U.top hlo.1 hlo.2⟩
        ⟨U.middleX hx hx'.le, U.bottom hhi.1 hhi.2⟩, forall_mem_headsOf ?_ ?_⟩
      · exact fault?_headShape U hlane (H.times hlo.1 hlo.2 U.height) (by decide) _
      · exact fault?_headShape U hlane (H.times hhi.1 hhi.2 U.height) (by decide) _

/-- No shape of a plain primitive stands for a fault. -/
theorem faultless {p : Primitive α} {c : Cell} (h : Plain H p c) (style : Style α) :
    ∀ s ∈ p.shapes size style, s.fault? = none := by
  cases h with
  | line ha hb =>
      intro s hs
      rw [List.mem_singleton.1 hs]
      exact Shape.fault?_line (U.centre ha) (U.centre hb)
  | roundCorner hc corner =>
      obtain ⟨hx, hy⟩ := fault?_bend U hc corner
      intro s hs
      rw [List.mem_singleton.1 hs]
      refine Shape.fault?_usable (H := H) ?_ rfl
      simp only [Shape.numbers, List.forall_mem_cons]
      exact ⟨hx, hy, U.halfWidth, U.halfHeight, List.forall_mem_nil _⟩
  | marker hc marker sides => exact fault?_markerShapes U hc _ marker sides
  | @head c d hc hd =>
      obtain ⟨⟨hx, hx'⟩, hy, hy'⟩ := hc
      intro s hs
      rw [List.mem_singleton.1 hs]
      refine Shape.fault?_usable (H := H) ?_ (Angle.fault?_degrees H hd)
      simp only [Primitive.headShape, Shape.numbers, List.forall_mem_cons]
      exact ⟨U.middleX hx hx'.le, U.middleY hy hy'.le, U.halfWidth, U.halfHeight,
        List.forall_mem_nil _⟩
  | @rectangle a b ha hb round =>
      obtain ⟨⟨hx, hx'⟩, hy, hy'⟩ := ha
      obtain ⟨⟨hbx, hbx'⟩, hby, hby'⟩ := hb
      have hcornerX := U.middleX (n := min a.x b.x) (by omega) (by omega)
      have hcornerY := U.middleY (n := min a.y b.y) (by omega) (by omega)
      have hwidth := H.times (n := (b.x - a.x).natAbs) (by omega) (by omega) U.width
      have hheight := H.times (n := (b.y - a.y).natAbs) (by omega) (by omega) U.height
      intro s hs
      rw [List.mem_singleton.1 hs]
      refine Shape.fault?_usable (H := H) ?_ rfl
      cases round
      · simp only [Bool.false_eq_true, if_false, Shape.numbers, List.forall_mem_cons]
        exact ⟨hcornerX, hcornerY, hwidth, hheight, List.forall_mem_nil _⟩
      · simp only [if_true, Shape.numbers, List.forall_mem_cons]
        exact ⟨hcornerX, hcornerY, hwidth, hheight, U.halfWidth, U.halfHeight,
          List.forall_mem_nil _⟩
  | text hc text =>
      obtain ⟨⟨hx, hx'⟩, hy, hy'⟩ := hc
      have hbase := H.sub (U.top (by omega) hy') (H.halve U.halfHeight)
      intro s hs
      rw [List.mem_singleton.1 hs]
      refine Shape.fault?_usable (H := H) ?_ rfl
      simp only [Shape.numbers, List.forall_mem_cons]
      exact ⟨U.left hx hx'.le, hbase, List.forall_mem_nil _⟩
  | run hfirst hlast arrow => exact fault?_run U hfirst hlast arrow style
  | crossing hc =>
      obtain ⟨⟨hx, hx'⟩, hy, hy'⟩ := hc
      have hmiddleY := U.middleY hy hy'.le
      simp only [Primitive.shapes, List.forall_mem_cons]
      refine ⟨Shape.fault?_line ⟨U.left hx hx'.le, hmiddleY⟩ ⟨U.right hx hx'.le, hmiddleY⟩,
        Shape.fault?_usable (H := H) ?_ rfl, List.forall_mem_nil _⟩
      simp only [Shape.numbers, CellSize.middle, List.forall_mem_cons]
      exact ⟨U.middleX hx hx'.le, hmiddleY, U.halfWidth, U.halfHeight, List.forall_mem_nil _⟩

/-- Nor does what has to be known before they are drawn. -/
theorem firstFault?_premises {p : Primitive α} {c : Cell} (h : Plain H p c) :
    Scalar.firstFault? (p.premises size) = none := by
  cases h with
  | marker hc marker sides =>
      obtain ⟨⟨hx, hx'⟩, hy, hy'⟩ := hc
      refine firstFault?_usable (H := H) ?_
      simp only [Primitive.premises, CellSize.middle, Point.numbers, List.forall_mem_cons]
      exact ⟨U.middleX hx hx'.le, U.middleY hy hy'.le, List.forall_mem_nil _⟩
  | _ => rfl

end Plain

/-! ## Reach -/

/-- Room up to a cell. -/
def lastsOf (e : Cell) : List (Axis × Int) := [(.horizontal, e.x), (.vertical, e.y)]

/-- A primitive that asks for room up to a cell. -/
def Primitive.Reaches (p : Primitive α) (e : Cell) : Prop :=
  ∃ last, p.reach = some last ∧ Scalar.ceil last.x = .ok e.x ∧ Scalar.ceil last.y = .ok e.y

/-- Primitives that together ask for room exactly as far as cells reach. -/
def Reserves (ps : List (Primitive α)) (cells : List Cell) : Prop :=
  ∃ ends, List.Forall₂ Primitive.Reaches ps ends ∧ Connection.SameReach ends cells

/-- A plain primitive asks for room up to its last cell. -/
theorem Plain.reaches {p : Primitive α} {e : Cell} (h : Plain H p e) : p.Reaches e := by
  cases h with
  | line ha hb =>
      exact ⟨_, rfl, H.ceil (H.larger ha.1 hb.1), H.ceil (H.larger ha.2 hb.2)⟩
  | @run axis =>
      cases axis <;> exact ⟨_, rfl, H.ceil_whole _, H.ceil_whole _⟩
  | roundCorner | marker | head | rectangle | text | crossing =>
      exact ⟨_, rfl, H.ceil_whole _, H.ceil_whole _⟩

theorem Spans.reserves {ps : List (Primitive α)} {cells : List Cell} (h : Spans H ps cells) :
    Reserves ps cells := by
  obtain ⟨ends, hplain, hreach⟩ := h
  exact ⟨ends, hplain.imp fun _ _ => Plain.reaches, hreach⟩

theorem Context.setSize_eq (c : Context α) {last : Point α} {e : Cell}
    (hx : Scalar.ceil last.x = .ok e.x) (hy : Scalar.ceil last.y = .ok e.y) :
    c.setSize last = ⟨c.extend (lastsOf e), none⟩ := by
  rw [setSize, hx]
  dsimp only
  rw [hy]
  rfl

/-! ## Drawing -/

namespace Context

/-- A context after primitives that reach these last cells were drawn on another one. -/
structure Takes (ends : List Cell) (c c' : Context α) : Prop where
  origin : c'.origin = c.origin
  children : c'.children = c.children
  room : ∀ axis m, c'.room axis ≤ m ↔
    c.room axis ≤ m ∧ ∀ e ∈ ends, axis.position c.origin + axis.position e + 1 ≤ m

variable {c : Context α} {p : Primitive α} {e : Cell}

/-- A primitive takes room up to its last cell, even if a shape of it cannot be drawn. -/
theorem takes_draw (c : Context α) (h : p.Reaches e) : Takes [e] c (c.draw p).state := by
  obtain ⟨last, hreach, hx, hy⟩ := h
  have hreserved : Takes [e] c (c.extend (lastsOf e)) := by
    refine ⟨rfl, rfl, fun axis m => ?_⟩
    rw [List.forall_mem_singleton, ← max_le_iff]
    cases axis <;> exact Iff.rfl
  unfold draw
  rw [hreach]
  dsimp only
  rw [c.setSize_eq hx hy]
  refine Attempt.barring_preserves (P := Takes [e] c) hreserved ?_
  refine Attempt.each_preserves (P := Takes [e] c) (fun d s hd => ?_) hreserved _
  exact drawShape_preserves (P := Takes [e] c)
    (fun _ _ _ hd => ⟨hd.origin, hd.children, hd.room⟩) hd s

/-- Primitives that are drawn without a fault take the room up to their last cells. -/
theorem takes_drawAll {ps : List (Primitive α)} {ends : List Cell}
    (h : List.Forall₂ Primitive.Reaches ps ends) (hfault : (c.drawAll ps).fault = none) :
    Takes ends c (c.drawAll ps).state := by
  unfold drawAll at *
  induction h generalizing c with
  | nil => exact ⟨rfl, rfl, fun axis m => by simp [Attempt.each]⟩
  | @cons p e ps ends hfirst _ ih =>
      obtain ⟨-, hrest, hstate⟩ := Attempt.fault_andThen hfault
      have T := takes_draw c hfirst
      have T' := ih hrest
      rw [Attempt.each, hstate]
      refine ⟨T'.origin.trans T.origin, T'.children.trans T.children, fun axis m => ?_⟩
      rw [T'.room, T.room, T.origin, List.forall_mem_singleton, List.forall_mem_cons, and_assoc]

/-- A context whose cells and settings can be used. -/
structure Ready (H : Halves α limit) (c : Context α) : Prop where
  cell : c.cell.Usable H
  look : ∀ s, (⟨s, c.style.look c.cell.height⟩ : Figure α).fault? = none

/-- Cells of a usable size and settings at their default are ready. -/
theorem ready_of (hlimit : 1 ≤ limit) {width height : α} (hwidth : H.Usable width)
    (hheight : H.Usable height) (hcell : c.cell = .of width height)
    {background foreground fill : String}
    (hstyle : c.style = .ofColors background foreground fill) : c.Ready H := by
  have hone := H.fault_none (H.angle (d := 1) (by decide) (by decide)).1
  have hwhole := H.fault_whole (n := 1) (by omega) hlimit
  refine ⟨?_, fun s => ?_⟩
  · rw [hcell]
    exact ⟨hwidth, hheight, H.halve hwidth, H.halve hheight⟩
  · rw [hcell, hstyle]
    refine List.findSome?_eq_none_iff.2 fun x hx => ?_
    unfold Figure.settings at hx
    split at hx
    · rw [List.mem_singleton.1 hx]
      exact H.fault_none hheight
    · simp only [Style.look, Style.ofColors, List.mem_cons, List.not_mem_nil, or_false] at hx
      rcases hx with rfl | rfl | rfl
      · exact hone
      · exact hone
      · exact hwhole

theorem Ready.each_drawShape (R : c.Ready H) {shapes : List (Shape α)}
    (h : ∀ s ∈ shapes, s.fault? = none) :
    ∃ c', Attempt.each drawShape c shapes = ⟨c', none⟩ ∧ c'.Ready H := by
  induction shapes generalizing c with
  | nil => exact ⟨c, rfl, R⟩
  | cons s rest ih =>
      obtain ⟨hs, hrest⟩ := List.forall_mem_cons.1 h
      have hdraw : c.drawShape s = ⟨c.push (.figure ⟨s, c.style.look c.cell.height⟩), none⟩ := by
        unfold drawShape
        simp only [hs, R.look s, Attempt.barring]
        cases c.styling <;> rfl
      obtain ⟨c', hc', R'⟩ := ih (c := c.push _) ⟨R.cell, R.look⟩ hrest
      refine ⟨c', ?_, R'⟩
      rw [Attempt.each, hdraw]
      exact hc'

theorem Ready.draw (R : c.Ready H) (h : Plain H p e) :
    ∃ c', c.draw p = ⟨c', none⟩ ∧ c'.Ready H := by
  obtain ⟨last, hreach, hx, hy⟩ := h.reaches
  have hready : (c.extend (lastsOf e)).Ready H := ⟨R.cell, R.look⟩
  obtain ⟨c', hc', R'⟩ := hready.each_drawShape (h.faultless R.cell c.style)
  refine ⟨c', ?_, R'⟩
  rw [Context.draw, hreach]
  dsimp only
  rw [c.setSize_eq hx hy, Attempt.andThen]
  dsimp only
  rw [h.firstFault?_premises hready.cell, Attempt.barring]
  exact hc'

/-- Drawing plain primitives meets no fault where cells and settings can be used. -/
theorem Ready.drawAll (R : c.Ready H) {ps : List (Primitive α)} {ends : List Cell}
    (h : List.Forall₂ (Plain H) ps ends) : (c.drawAll ps).fault = none := by
  unfold Context.drawAll
  -- a context stays ready, since neither its cells nor its settings change
  induction h generalizing c with
  | nil => rfl
  | cons hfirst _ ih =>
      obtain ⟨c', hc', R'⟩ := R.draw hfirst
      rw [Attempt.each, hc']
      exact ih R'

/-- A context on which nothing was drawn and in which nothing was created. -/
structure Fresh (c : Context α) : Prop where
  origin : c.origin = ⟨0, 0⟩
  width : c.width = 0
  height : c.height = 0
  children : c.children = #[]

end Context

/-! ## Canvases -/

namespace Canvas

variable {c : Canvas α} {i : Nat} {context : Context α}

omit [Scalar α] in
theorem sizeAlong_of_childless (hcontext : c.context? i = some context)
    (h : context.children = #[]) (axis : Axis) : c.sizeAlong i axis = context.room axis := by
  have hlater : ∀ child ∈ context.children.toList, i < child.index ∧
      child.index < c.contexts.size := by
    simp [h]
  rw [sizeAlong_eq hcontext hlater, h]
  rfl

/-- A fresh context is as large as the room that was asked for by what was drawn on it. -/
theorem sizeAlong_drawAll (hcontext : c.context? i = some context) (hfresh : context.Fresh)
    {ps : List (Primitive α)} {cells : List Cell} (h : Reserves ps cells)
    {drawn : Canvas α} (hdrawn : c.drawAll i ps = ⟨drawn, none⟩) (axis : Axis) (m : Int) :
    drawn.sizeAlong i axis ≤ m ↔ 0 ≤ m ∧ ∀ e ∈ cells, axis.position e + 1 ≤ m := by
  obtain ⟨ends, hreaches, hreach⟩ := h
  have hi := (Array.getElem?_eq_some_iff.1 hcontext).1
  rw [drawAll, attempt, hcontext] at hdrawn
  obtain ⟨hstate, hfault⟩ := (Attempt.mk.injEq _ _ _ _).mp hdrawn
  have T := Context.takes_drawAll hreaches hfault
  have hafter : drawn.context? i = some (context.drawAll ps).state := by
    rw [← hstate]
    simp [context?, hi]
  have hzero : context.room axis = 0 := by
    rw [Context.room, hfresh.width, hfresh.height]
    cases axis <;> rfl
  have horigin : axis.position (⟨0, 0⟩ : Cell) = 0 := by
    cases axis <;> rfl
  have hlast := hreach axis (m - 1)
  simp only [Int.le_sub_one_iff, ← Int.add_one_le_iff] at hlast
  rw [sizeAlong_of_childless hafter (T.children.trans hfresh.children), T.room, hfresh.origin,
    hzero, horigin, ← hlast]
  simp only [Int.zero_add]

/-- Where cells and settings can be used, all of them are drawn. -/
theorem exists_drawAll (c : Canvas α) (i : Nat)
    (hready : ∀ context, c.context? i = some context → context.Ready H)
    {ps : List (Primitive α)} {cells : List Cell} (h : Spans H ps cells) :
    ∃ drawn, c.drawAll i ps = ⟨drawn, none⟩ := by
  obtain ⟨ends, hplain, -⟩ := h
  rw [drawAll, attempt]
  cases hcontext : c.context? i with
  | none => exact ⟨c, rfl⟩
  | some context =>
      refine ⟨_, congrArg (Attempt.mk _) ?_⟩
      exact (hready context hcontext).drawAll hplain

end Canvas

/-! ## Sketches -/

namespace Sketch

/-- A sketch on whose outermost context everything can be drawn and nothing was. -/
def Blank (s : Sketch) : Prop :=
  ∃ root, s.canvas.context? 0 = some root ∧ root.Fresh ∧ root.Ready Halves.doubles

variable {s s' : Sketch}

theorem exists_real_of_fault? {m : Measure} (h : Scalar.fault? (Scalar.measure m) = none) :
    ∃ x, Scalar.measure m = Measure.real x := by
  change Scalar.fault? (Measure.measure m) = none at h
  change ∃ x, Measure.measure m = _
  unfold Measure.measure at *
  cases hdouble : m.toFloat? with
  | some x => exact ⟨x, rfl⟩
  | none =>
      rw [hdouble] at h
      cases h

/-- A cell size is taken over only if it has doubles. -/
theorem exists_setCellSize {c : Context Measure} {width height : Measure}
    (h : (c.setCellSize width height).fault = none) : ∃ wide high,
      (c.setCellSize width height).state = { c with cell := .of (.real wide) (.real high) } := by
  unfold Context.setCellSize at *
  dsimp only at *
  cases hwidth : Scalar.fault? (Scalar.measure width) with
  | some fault =>
      rw [hwidth] at h
      cases h
  | none =>
      cases hheight : Scalar.fault? (Scalar.measure height) with
      | some fault =>
          rw [hwidth, hheight] at h
          cases h
      | none =>
          obtain ⟨wide, hwide⟩ := exists_real_of_fault? hwidth
          obtain ⟨high, hhigh⟩ := exists_real_of_fault? hheight
          rw [hwide, hhigh]
          exact ⟨wide, high, rfl⟩

/-- A new sketch in cells of a size. -/
def fresh (format : Format) (colors : Colors) (scale : Option String) (wide high : Float)
    (shown : Bool) : Sketch where
  format := format
  colors := colors
  scale := scale
  canvas := .ofRoot
    { cell := .of (.real wide) (.real high)
      debug := .of shown true
      styling := match format with
        | .svg => .perShape
        | _ => .perChange
      style := .ofColors colors.background colors.foreground colors.fill }

theorem eq_setCellSize {format : Format} {colors : Colors} {width height : Measure}
    (h : (empty format colors).setCellSize width height = .ok s) :
    ∃ wide high, s = fresh format colors none wide high false := by
  rw [setCellSize] at h
  split at h
  · rename_i canvas hdone
    obtain ⟨hcanvas, hfault⟩ := (Attempt.mk.injEq _ _ _ _).mp hdone
    obtain ⟨wide, high, hstate⟩ := exists_setCellSize hfault
    cases h
    refine ⟨wide, high, ?_⟩
    rw [← hcanvas]
    exact congrArg (fun root => (⟨format, colors, none, .ofRoot root⟩ : Sketch)) hstate
  · cases h

theorem eq_setScale? {spec : Option String} (h : s.setScale? spec = .ok s') :
    ∃ scale, s' = { s with scale := scale } := by
  unfold setScale? setScale at h
  split at h
  · split at h
    · cases h
      exact ⟨s.scale, rfl⟩
    · split at h
      · cases h
        exact ⟨_, rfl⟩
      · cases h
  · cases h
    exact ⟨s.scale, rfl⟩

/-- The sketch that options describe. -/
theorem eq_ofOptions {o : Options} (h : (ofOptions o).result = .ok s) :
    ∃ colors scale wide high,
      Colors.resolve o.theme o.background o.foreground = .ok colors ∧
      s = fresh (.ofName o.format) colors scale wide high o.debug := by
  obtain ⟨colors, hcolors, h⟩ := Report.exists_of_result_bind h
  obtain ⟨-, -, h⟩ := Report.exists_of_result_bind h
  obtain ⟨sized, hsized, h⟩ := Report.exists_of_result_bind h
  obtain ⟨scaled, hscaled, h⟩ := Report.exists_of_result_bind h
  obtain ⟨wide, high, rfl⟩ := eq_setCellSize hsized
  obtain ⟨scale, rfl⟩ := eq_setScale? hscaled
  cases h
  exact ⟨colors, scale, wide, high, hcolors, rfl⟩

theorem blank_fresh (format : Format) (colors : Colors) (scale : Option String) (wide high : Float)
    (shown : Bool) : (fresh format colors scale wide high shown).Blank :=
  ⟨_, rfl, ⟨rfl, rfl, rfl, rfl⟩, Context.ready_of (by decide) ⟨wide, rfl⟩ ⟨high, rfl⟩ rfl rfl⟩

/-- A new sketch is blank. -/
theorem blank_ofOptions {o : Options} (h : (ofOptions o).result = .ok s) : s.Blank := by
  obtain ⟨colors, scale, wide, high, -, rfl⟩ := eq_ofOptions h
  exact blank_fresh _ _ _ _ _ _

end Sketch

end CellSketch
