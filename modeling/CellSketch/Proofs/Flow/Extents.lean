import CellSketch.Proofs.Flow.BoxesApart
import CellSketch.Proofs.Path.Cheapest

/-!
# Extents — how far the boxes and ways of a layout go

Boxes start in the first column and row, and a way leads from one box to another over a grid that
is one cell larger than the boxes.  Where the boxes stand in rows six apart, as drawing in layers
puts them, a way between two different rows never shrinks to one cell.

* `InRows` — boxes in rows six apart, and edges between different ones;
* `onGrid_way` — the way of an edge keeps to the grid of the boxes;
* `InRows.way` — and has two different points;
* `sizeAlong_le_iff` — a layout is just as large as its boxes and ways need;
* `size_layoutOf_le` — and at most one cell larger than its boxes need.
-/

namespace CellSketch
namespace Flow

open Number

/-! ## Merged ways -/

theorem mergeStraight_go_subset (previous : Cell) (points : List Cell) :
    mergeStraight.go previous points ⊆ points := by
  induction points generalizing previous with
  | nil => exact List.Subset.refl _
  | cons c rest ih =>
      cases rest with
      | nil => exact List.Subset.refl _
      | cons next rest =>
          rw [mergeStraight.go]
          split
          · exact List.Subset.trans (ih c) (List.subset_cons_self _ _)
          · exact List.cons_subset_cons c (ih c)

theorem getLast?_mergeStraight_go (previous : Cell) (points : List Cell) :
    (mergeStraight.go previous points).getLast? = points.getLast? := by
  induction points generalizing previous with
  | nil => rfl
  | cons c rest ih =>
      cases rest with
      | nil => rfl
      | cons next rest =>
          rw [mergeStraight.go]
          split
          · rw [ih, List.getLast?_cons_cons]
          · rw [List.getLast?_cons, ih, List.getLast?_cons_cons, List.getLast?_cons,
              Option.getD_some]

theorem mergeStraight_subset (points : List Cell) : mergeStraight points ⊆ points := by
  cases points with
  | nil => exact List.Subset.refl _
  | cons c rest => exact List.cons_subset_cons c (mergeStraight_go_subset c rest)

theorem head?_mergeStraight (points : List Cell) : (mergeStraight points).head? = points.head? := by
  cases points <;> rfl

theorem getLast?_mergeStraight (points : List Cell) :
    (mergeStraight points).getLast? = points.getLast? := by
  cases points with
  | nil => rfl
  | cons c rest => rw [mergeStraight, List.getLast?_cons, getLast?_mergeStraight_go,
      List.getLast?_cons]

/-! ## Ends of ways -/

/-- A cell on the grid that a way is searched on, which has one column and one row more than the
boxes have. -/
def OnGrid (width height : Int) (c : Cell) : Prop :=
  (0 ≤ c.x ∧ c.x ≤ width) ∧ 0 ≤ c.y ∧ c.y ≤ height

/-- A box of three rows, at least one column wide, in so many columns and rows. -/
structure Box.Standing (width height : Int) (b : Box) : Prop where
  left : 0 ≤ b.x
  top : 0 ≤ b.y
  wide : 1 ≤ b.width
  high : b.height = boxHeight
  right : b.x + b.width ≤ width
  bottom : b.y + b.height ≤ height

section Ends

variable {width height : Int} {source target : Box}

theorem Box.Standing.centre_bounds {b : Box} (h : b.Standing width height) :
    0 ≤ b.centre ∧ b.centre ≤ width := by
  have hleft := h.left
  have hwide := h.wide
  have hright := h.right
  rw [Box.centre, Int.fdiv_eq_ediv_of_nonneg _ (by decide)]
  omega

namespace Ends

/-- The rows of the cells at both ends of a way. -/
theorem rows_onGrid (hs : source.Standing width height) (ht : target.Standing width height) :
    let e := between source target
    ∀ c ∈ [e.leaving, e.start, e.goal, e.arriving], 0 ≤ c.y ∧ c.y ≤ height := by
  obtain ⟨-, hstop, -, hshigh, -, hsbottom⟩ := hs
  obtain ⟨-, httop, -, hthigh, -, htbottom⟩ := ht
  rw [boxHeight] at hshigh hthigh
  intro e
  -- a way goes up only where there is a row above, and arrives from above only below its source
  have hleaving : (0 ≤ e.leaving.y ∧ e.leaving.y ≤ height) ∧
      0 ≤ e.start.y ∧ e.start.y ≤ height := by
    by_cases hup : target.y < source.y
    · simp only [e, between, start, hup, decide_true, if_true, Step.ahead, Step.up]
      omega
    · simp only [e, between, start, hup, decide_false, Bool.false_eq_true, if_false, Step.ahead,
        Step.down, Box.bottom]
      omega
  have harriving : (0 ≤ e.goal.y ∧ e.goal.y ≤ height) ∧
      0 ≤ e.arriving.y ∧ e.arriving.y ≤ height := by
    by_cases hbelow : source.y + source.height ≤ target.y
    · simp only [e, between, goal, hbelow, decide_true, if_true, Step.behind, Step.down]
      omega
    · simp only [e, between, goal, hbelow, decide_false, Bool.false_eq_true, if_false, Step.behind,
        Step.up, Box.bottom]
      omega
  simp only [List.forall_mem_cons]
  exact ⟨hleaving.1, hleaving.2, harriving.1, harriving.2, List.forall_mem_nil _⟩

/-- Nothing of one end of a way lies in a row of the other. -/
theorem rows_between (hs : source.Standing width height) (ht : target.Standing width height)
    (hsrow : 6 ∣ source.y) (htrow : 6 ∣ target.y) (hne : source.y ≠ target.y) :
    let e := between source target
    (e.leaving.y ≠ e.goal.y ∧ e.leaving.y ≠ e.arriving.y) ∧
      e.start.y ≠ e.goal.y ∧ e.start.y ≠ e.arriving.y := by
  obtain ⟨-, hstop, -, hshigh, -, hsbottom⟩ := hs
  obtain ⟨-, httop, -, hthigh, -, htbottom⟩ := ht
  rw [boxHeight] at hshigh hthigh
  intro e
  -- only a way to a box further up leaves through the top
  by_cases hup : target.y < source.y
  · have hbelow : ¬ source.y + source.height ≤ target.y := by omega
    have he : e = ⟨⟨source.centre, source.y⟩, .up, ⟨target.centre, target.bottom⟩, .up⟩ := by
      simp only [e, between, hup, hbelow, decide_true, decide_false, if_true, Bool.false_eq_true,
        if_false]
    simp only [he, start, goal, Step.ahead, Step.behind, Step.up, Box.bottom]
    omega
  · have hbelow : source.y + source.height ≤ target.y := by omega
    have he : e = ⟨⟨source.centre, source.bottom⟩, .down, ⟨target.centre, target.y⟩, .down⟩ := by
      simp only [e, between, hup, hbelow, decide_true, decide_false, if_true, Bool.false_eq_true,
        if_false]
    simp only [he, start, goal, Step.ahead, Step.behind, Step.down, Box.bottom]
    omega

/-- The columns of the cells at both ends. -/
theorem columns_between (hs : source.Standing width height) (ht : target.Standing width height) :
    let e := between source target
    ∀ c ∈ [e.leaving, e.start, e.goal, e.arriving], 0 ≤ c.x ∧ c.x ≤ width := by
  intro e
  have hleave : e.leave.dx = 0 := by
    simp only [e, between]
    split <;> rfl
  have harrive : e.arrive.dx = 0 := by
    simp only [e, between]
    split <;> rfl
  have hstart : e.start.x = source.centre := by
    rw [start, Step.ahead, hleave]
    exact Int.add_zero _
  have hgoal : e.goal.x = target.centre := by
    rw [goal, Step.behind, harrive]
    exact Int.sub_zero _
  simp only [List.forall_mem_cons, hstart, hgoal]
  exact ⟨hs.centre_bounds, hs.centre_bounds, ht.centre_bounds, ht.centre_bounds,
    List.forall_mem_nil _⟩

/-- A path over the grid from outside the source to outside the target. -/
structure Leads (width height : Int) (e : Ends) (path : List Cell) : Prop where
  starts : path.head? = some e.start
  ends : path.getLast? = some e.goal
  inside : ∀ c ∈ path, OnGrid width height c

variable {e : Ends} {path : List Cell}

theorem leads_of_find? {blocked : Cell → Bool}
    (h : (e.query blocked width height).find? = some path) (hstart : OnGrid width height e.start) :
    e.Leads width height path := by
  have hvalid := PathQuery.valid_of_find? h
  refine ⟨hvalid.starts, hvalid.ends, fun c hc => ?_⟩
  have hstarts := hvalid.starts
  cases path with
  | nil => cases hc
  | cons first rest =>
      rw [List.head?_cons, Option.some.injEq] at hstarts
      rcases List.mem_cons.1 hc with rfl | hc
      · rw [hstarts]
        exact hstart
      · obtain ⟨hx, hy, -⟩ := hvalid.inside c hc
        exact ⟨hx, hy⟩

theorem leads_across (hstart : OnGrid width height e.start) (hgoal : OnGrid width height e.goal) :
    e.Leads width height e.across := by
  refine ⟨rfl, rfl, fun c hc => ?_⟩
  simp only [across, List.mem_cons, List.not_mem_nil, or_false] at hc
  rcases hc with rfl | rfl | rfl
  · exact hstart
  · exact ⟨hgoal.1, hstart.2⟩
  · exact hgoal

/-- The first and the last point of a way with its borders. -/
theorem Leads.complete (h : e.Leads width height path) (arrow : Arrow) :
    (e.complete arrow path).head? = some (if arrow.atStart then e.start else e.leaving) ∧
      (e.complete arrow path).getLast? = some (if arrow.atEnd then e.goal else e.arriving) := by
  have hstarts := h.starts
  have hends := h.ends
  obtain ⟨atStart, atEnd⟩ := arrow
  rcases path with _ | ⟨first, rest⟩
  · cases hstarts
  · rw [List.head?_cons, Option.some.injEq] at hstarts
    constructor
    · cases atStart <;> simp [Ends.complete, hstarts]
    · cases atEnd
      · simp [Ends.complete, List.getLast?_cons]
      · simp [Ends.complete, hends]

end Ends

theorem onGrid_between (hs : source.Standing width height) (ht : target.Standing width height) :
    let e := Ends.between source target
    ∀ c ∈ [e.leaving, e.start, e.goal, e.arriving], OnGrid width height c :=
  fun c hc => ⟨Ends.columns_between hs ht c hc, Ends.rows_onGrid hs ht c hc⟩

/-- A way follows a path between the cells outside its boxes, be it one that was found or the one
across. -/
theorem exists_leads (hs : source.Standing width height) (ht : target.Standing width height)
    (arrow : Arrow) (blocked : Cell → Bool) :
    ∃ path, (Ends.between source target).Leads width height path ∧
      (route source target arrow blocked width height).1 =
        mergeStraight ((Ends.between source target).complete arrow path) := by
  have haround := onGrid_between hs ht
  simp only [List.forall_mem_cons] at haround
  obtain ⟨-, hstart, hgoal, -⟩ := haround
  cases hfind : ((Ends.between source target).query blocked width height).find? with
  | some path =>
      refine ⟨path, Ends.leads_of_find? hfind hstart, ?_⟩
      simp only [route, hfind]
  | none =>
      refine ⟨_, Ends.leads_across hstart hgoal, ?_⟩
      simp only [route, hfind]

/-- Ways keep to the grid. -/
theorem onGrid_route (hs : source.Standing width height) (ht : target.Standing width height)
    (arrow : Arrow) (blocked : Cell → Bool) :
    ∀ c ∈ (route source target arrow blocked width height).1, OnGrid width height c := by
  have haround := onGrid_between hs ht
  simp only [List.forall_mem_cons] at haround
  obtain ⟨hleaving, -, -, harriving, -⟩ := haround
  obtain ⟨path, hleads, hpoints⟩ := exists_leads hs ht arrow blocked
  intro c hc
  rw [hpoints] at hc
  rcases Ends.mem_complete (mergeStraight_subset _ hc) with hc | ⟨-, rfl⟩ | ⟨-, rfl⟩
  · exact hleads.inside c hc
  · exact hleaving
  · exact harriving

/-- The way between boxes in different rows has two different points. -/
theorem route_points (hs : source.Standing width height) (ht : target.Standing width height)
    (hsrow : 6 ∣ source.y) (htrow : 6 ∣ target.y) (hne : source.y ≠ target.y) (arrow : Arrow)
    (blocked : Cell → Bool) :
    let points := (route source target arrow blocked width height).1
    ∃ a ∈ points, ∃ b ∈ points, a ≠ b := by
  intro points
  obtain ⟨hleaving, hstart⟩ := Ends.rows_between hs ht hsrow htrow hne
  obtain ⟨path, hleads, hpoints⟩ := exists_leads hs ht arrow blocked
  obtain ⟨hhead, hlast⟩ := hleads.complete arrow
  rw [← head?_mergeStraight, ← hpoints] at hhead
  rw [← getLast?_mergeStraight, ← hpoints] at hlast
  refine ⟨_, List.mem_of_head? hhead, _, List.mem_of_getLast? hlast, ?_⟩
  -- no end of the way at one box lies in the row of one at the other, with or without a head
  intro heq
  have hrow := congrArg Cell.y heq
  split at hrow <;> split at hrow
  · exact hstart.1 hrow
  · exact hstart.2 hrow
  · exact hleaving.1 hrow
  · exact hleaving.2 hrow

end Ends

/-! ## Layouts -/

/-- Boxes in rows six apart, and edges between boxes in different ones. -/
structure InRows (g : Graph) (boxes : List Box) : Prop where
  row : ∀ b ∈ boxes, 6 ∣ b.y
  apart : ∀ e ∈ g.edges, ∀ source target, boxes.find? (·.id == e.source) = some source →
    boxes.find? (·.id == e.target) = some target → source.y ≠ target.y

namespace Graph

variable {g : Graph} {drawn : List (Component × List Cell)}

/-- Where the box of a node stands, and how large it is. -/
theorem standing_of_mem_boxesOf {b : Box} (h : b ∈ g.boxesOf drawn) :
    b.Standing (boxesWidth (g.boxesOf drawn)) (boxesHeight (g.boxesOf drawn)) ∧
      b.width = b.label.length + 2 := by
  have hright : b.x + b.width ≤ boxesWidth (g.boxesOf drawn) :=
    le_extent (List.mem_map_of_mem (f := fun b : Box => b.x + b.width) h)
  have hbottom : b.y + b.height ≤ boxesHeight (g.boxesOf drawn) :=
    le_extent (List.mem_map_of_mem (f := fun b : Box => b.y + b.height) h)
  rw [boxesOf] at h
  obtain ⟨⟨node, i⟩, -, hbox⟩ := List.mem_filterMap.1 h
  obtain ⟨⟨j, p⟩, hfind, rfl⟩ := Option.map_eq_some_iff.1 hbox
  obtain ⟨c, -, -, hleft, htop⟩ :=
    exists_of_mem_placeComponents (List.mem_of_find?_eq_some hfind)
  have hwidth : (node.width : Int) = node.label.length + 2 := by
    rw [Node.width]
    push_cast
    rfl
  exact ⟨⟨hleft, htop, by dsimp only; omega, rfl, hright, hbottom⟩, hwidth⟩

end Graph

section Ways

variable {g : Graph} {drawn : List (Component × List Cell)} {e : RoutedEdge}

/-- The way of an edge is routed between two boxes. -/
theorem exists_route (he : e ∈ (g.layoutOf drawn).1.edges) :
    ∃ edge ∈ g.edges, ∃ source target,
      (g.boxesOf drawn).find? (·.id == edge.source) = some source ∧
      (g.boxesOf drawn).find? (·.id == edge.target) = some target ∧
      e.points = (route source target edge.arrow (occupied (g.boxesOf drawn))
        (boxesWidth (g.boxesOf drawn)) (boxesHeight (g.boxesOf drawn))).1 := by
  obtain ⟨⟨routed, notices⟩, hrouted, rfl⟩ := List.mem_map.1 he
  obtain ⟨edge, hedge, hroute⟩ := List.mem_filterMap.1 hrouted
  rw [routeEdge] at hroute
  obtain ⟨source, hsource, hroute⟩ := Option.bind_eq_some_iff.1 hroute
  obtain ⟨target, htarget, hroute⟩ := Option.bind_eq_some_iff.1 hroute
  cases hroute
  exact ⟨edge, hedge, source, target, hsource, htarget, rfl⟩

/-- All points of a way are on the grid. -/
theorem onGrid_way (he : e ∈ (g.layoutOf drawn).1.edges) : ∀ c ∈ e.points,
    OnGrid (boxesWidth (g.boxesOf drawn)) (boxesHeight (g.boxesOf drawn)) c := by
  obtain ⟨edge, -, source, target, hsource, htarget, hpoints⟩ := exists_route he
  rw [hpoints]
  exact onGrid_route (Graph.standing_of_mem_boxesOf (List.mem_of_find?_eq_some hsource)).1
    (Graph.standing_of_mem_boxesOf (List.mem_of_find?_eq_some htarget)).1 _ _

/-- The way of an edge has two different points. -/
theorem InRows.way (h : InRows g (g.boxesOf drawn))
    (he : e ∈ (g.layoutOf drawn).1.edges) : ∃ a ∈ e.points, ∃ b ∈ e.points, a ≠ b := by
  obtain ⟨edge, hedge, source, target, hsource, htarget, hpoints⟩ := exists_route he
  have hs := List.mem_of_find?_eq_some hsource
  have ht := List.mem_of_find?_eq_some htarget
  rw [hpoints]
  exact route_points (Graph.standing_of_mem_boxesOf hs).1 (Graph.standing_of_mem_boxesOf ht).1
    (h.row _ hs) (h.row _ ht) (h.apart edge hedge source target hsource htarget) _ _

end Ways

/-! ## Sizes -/

theorem extent_le_iff {xs : List Int} {m : Int} : extent xs ≤ m ↔ 0 ≤ m ∧ ∀ x ∈ xs, x ≤ m := by
  constructor
  · intro h
    exact ⟨(extent_nonneg xs).trans h, fun x hx => (le_extent hx).trans h⟩
  · rintro ⟨hm, h⟩
    rcases extent_eq_zero_or_mem xs with heq | hmem
    · rwa [heq]
    · exact h _ hmem

/-- The width and the height of a layout. -/
def Layout.sizeAlong (l : Layout) (axis : Axis) : Int := axis.position ⟨l.width, l.height⟩

/-- The last cell of a box. -/
def Box.lastCell (b : Box) : Cell := ⟨b.x + b.width - 1, b.y + b.height - 1⟩

/-- The cells that a layout has to have room for. -/
def Layout.outermost (l : Layout) : List Cell :=
  l.boxes.map Box.lastCell ++ l.edges.flatMap (·.points)

/-- The size of a layout is the extent of its boxes or that of its ways. -/
theorem sizeAlong_eq (g : Graph) (drawn : List (Component × List Cell)) (axis : Axis) :
    (g.layoutOf drawn).1.sizeAlong axis =
      max (extent ((g.layoutOf drawn).1.boxes.map fun b => axis.position b.lastCell + 1))
        (extent (((g.layoutOf drawn).1.edges.flatMap (·.points)).map
          fun c => axis.position c + 1)) := by
  simp only [Layout.sizeAlong, Graph.layoutOf, boxesWidth, boxesHeight, List.flatMap_map,
    Box.lastCell]
  cases axis <;> simp only [Axis.position, Int.sub_add_cancel]

/-- A layout is just as large as its boxes and ways need. -/
theorem sizeAlong_le_iff (g : Graph) (drawn : List (Component × List Cell)) (axis : Axis)
    (m : Int) : (g.layoutOf drawn).1.sizeAlong axis ≤ m ↔
      0 ≤ m ∧ ∀ c ∈ (g.layoutOf drawn).1.outermost, axis.position c + 1 ≤ m := by
  rw [sizeAlong_eq, max_le_iff, extent_le_iff, extent_le_iff, ← and_and_left, Layout.outermost,
    List.forall_mem_append, List.forall_mem_map, List.forall_mem_map, List.forall_mem_map]

/-- What a layout has to have room for is on the grid of the boxes. -/
theorem onGrid_of_mem_outermost {g : Graph} {drawn : List (Component × List Cell)}
    {c : Cell} (hc : c ∈ (g.layoutOf drawn).1.outermost) :
    OnGrid (boxesWidth (g.boxesOf drawn)) (boxesHeight (g.boxesOf drawn)) c := by
  rcases List.mem_append.1 hc with hc | hc
  · obtain ⟨b, hb, rfl⟩ := List.mem_map.1 hc
    obtain ⟨⟨hleft, htop, hwide, hhigh, hright, hbottom⟩, -⟩ := Graph.standing_of_mem_boxesOf hb
    rw [boxHeight] at hhigh
    simp only [OnGrid, Box.lastCell]
    omega
  · obtain ⟨e, he, hc⟩ := List.mem_flatMap.1 hc
    exact onGrid_way he c hc

/-- Ways take at most one column and one row more than boxes do. -/
theorem size_layoutOf_le (g : Graph) (drawn : List (Component × List Cell)) :
    (g.layoutOf drawn).1.width ≤ boxesWidth (g.boxesOf drawn) + 1 ∧
      (g.layoutOf drawn).1.height ≤ boxesHeight (g.boxesOf drawn) + 1 := by
  have hwidth : 0 ≤ boxesWidth (g.boxesOf drawn) := extent_nonneg _
  have hheight : 0 ≤ boxesHeight (g.boxesOf drawn) := extent_nonneg _
  refine ⟨(sizeAlong_le_iff g drawn .horizontal _).2 ⟨by omega, fun c hc => ?_⟩,
    (sizeAlong_le_iff g drawn .vertical _).2 ⟨by omega, fun c hc => ?_⟩⟩
  · exact Int.add_le_add_right (onGrid_of_mem_outermost hc).1.2 1
  · exact Int.add_le_add_right (onGrid_of_mem_outermost hc).2.2 1

end Flow
end CellSketch
