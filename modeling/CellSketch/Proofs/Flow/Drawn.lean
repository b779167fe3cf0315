import CellSketch.Drawing
import CellSketch.Proofs.Canvas.Exact
import CellSketch.Proofs.Canvas.Faultless
import CellSketch.Proofs.Flow.Extents

/-!
# Drawn — a drawn flow is as large as it was laid out

A layout counts the cells of its boxes and of its ways; a canvas counts what labels, segments,
corners and heads reserve, of which segments end half a cell before rounded corners and some are
left out.  Both come to the same size.

* `Layout.primitivesIn` — the primitives of a layout in any arithmetic;
* `exists_primitivesIn` — they are all planned and span what a layout has to have room for;
* `sizeInCells_drawAll` — a canvas with nothing else on it is as large as the layout;
* `drawn_size` — drawing a flow takes just the size of its layout.
-/

namespace CellSketch
namespace Flow

open Number

/-! ## Primitives in any arithmetic -/

section Primitives

variable (α : Type) [Scalar α]

/-- The connections of edges, one after the other. -/
def connectionsIn (round : Bool) : List RoutedEdge → Except Fault (List (Primitive α))
  | [] => .ok []
  | e :: rest => do
      let first ← Primitive.connection (Connection.pointsThrough α e.points) e.arrow round
      let others ← connectionsIn round rest
      .ok (first ++ others)

/-- All boxes, then all edges. -/
def Layout.primitivesIn (l : Layout) (round : Bool) : Except Fault (List (Primitive α)) :=
  (connectionsIn α round l.edges).map fun edges =>
    l.boxes.flatMap (fun b => Primitive.label ⟨b.x, b.y⟩ (String.ofList b.label) round) ++ edges

theorem connectionsIn_measure (round : Bool) (edges : List RoutedEdge) :
    connectionsIn Measure round edges = connections round edges := by
  induction edges with
  | nil => rfl
  | cons e rest ih =>
      rw [connectionsIn, connections, ih]
      rfl

theorem Layout.primitivesIn_measure (l : Layout) (round : Bool) :
    l.primitivesIn Measure round = l.primitives round := by
  rw [primitivesIn, connectionsIn_measure]
  rfl

end Primitives

/-! ## What a layout spans -/

section Spans

variable {α : Type} [Scalar α] {limit : Int}
  {g : Graph} {drawn : List (Component × List Cell)}

/-- The label of a box reaches up to its last cell. -/
theorem spans_label (H : Halves α limit) {b : Box} (hb : b ∈ g.boxesOf drawn)
    (hlast : b.lastCell.Within limit) (round : Bool) :
    Spans H (Primitive.label ⟨b.x, b.y⟩ (String.ofList b.label) round) [b.lastCell] := by
  obtain ⟨⟨hleft, htop, -, hhigh, -⟩, hwidth⟩ := Graph.standing_of_mem_boxesOf hb
  have hlength := String.length_ofList (l := b.label)
  have hlastCell : b.lastCell = ⟨b.x + (String.ofList b.label).length + 1, b.y + 2⟩ := by
    rw [Box.lastCell, hwidth, hhigh, hlength, Cell.mk.injEq, boxHeight]
    omega
  have hwithin {x y : Int} (hx : b.x ≤ x ∧ x ≤ b.lastCell.x) (hy : b.y ≤ y ∧ y ≤ b.lastCell.y) :
      Cell.Within limit ⟨x, y⟩ :=
    ⟨⟨hleft.trans hx.1, hx.2.trans_lt hlast.1.2⟩, htop.trans hy.1, hy.2.trans_lt hlast.2.2⟩
  rw [hlastCell] at hlast hwithin ⊢
  dsimp only at hwithin
  have hframe : Cell.Within limit ⟨b.x, b.y⟩ := hwithin (by omega) (by omega)
  have htext : Cell.Within limit ⟨b.x + 1, b.y + 1⟩ := hwithin (by omega) (by omega)
  refine ⟨_, .cons (.rectangle hframe hlast round) (.cons (.text htext _) .nil), fun axis m => ?_⟩
  -- the frame reaches at least as far as the text
  rw [List.forall_mem_cons, List.forall_mem_singleton, List.forall_mem_singleton]
  cases axis <;> simp only [Axis.position, Primitive.farther] <;> omega

theorem exists_connectionsIn (H : Halves α limit) (round : Bool) {edges : List RoutedEdge}
    (hwithin : ∀ e ∈ edges, ∀ c ∈ e.points, c.Within limit)
    (hne : ∀ e ∈ edges, ∃ a ∈ e.points, ∃ b ∈ e.points, a ≠ b) :
    ∃ ps, connectionsIn α round edges = .ok ps ∧ Spans H ps (edges.flatMap (·.points)) := by
  induction edges with
  | nil => exact ⟨[], rfl, .nil⟩
  | cons e rest ih =>
      obtain ⟨hfirst, hrest⟩ := List.forall_mem_cons.1 hwithin
      obtain ⟨hmove, hmoves⟩ := List.forall_mem_cons.1 hne
      obtain ⟨ps, hps, hspans⟩ := Connection.exists_spanning_connection H hfirst hmove e.arrow round
      obtain ⟨qs, hqs, hmore⟩ := ih hrest hmoves
      refine ⟨ps ++ qs, ?_, hspans.append hmore⟩
      rw [connectionsIn, hps, hqs]
      rfl

/-- No cell that a layout has to have room for is beyond its size. -/
theorem lt_of_mem_outermost {c : Cell} (h : c ∈ (g.layoutOf drawn).1.outermost) :
    c.x < (g.layoutOf drawn).1.width ∧ c.y < (g.layoutOf drawn).1.height :=
  ⟨((sizeAlong_le_iff g drawn .horizontal _).1 le_rfl).2 c h,
    ((sizeAlong_le_iff g drawn .vertical _).1 le_rfl).2 c h⟩

/-- Every such cell is below a limit for the size of the layout. -/
theorem within_of_mem_outermost {c : Cell} (h : c ∈ (g.layoutOf drawn).1.outermost)
    (hwidth : (g.layoutOf drawn).1.width ≤ limit)
    (hheight : (g.layoutOf drawn).1.height ≤ limit) : c.Within limit := by
  obtain ⟨⟨hx, -⟩, hy, -⟩ := onGrid_of_mem_outermost h
  obtain ⟨hx', hy'⟩ := lt_of_mem_outermost h
  exact ⟨⟨hx, by omega⟩, hy, by omega⟩

/-- Everything in a layout is planned, and spans what the layout has to have room for. -/
theorem exists_primitivesIn (H : Halves α limit) (hrows : InRows g (g.boxesOf drawn))
    (hwidth : (g.layoutOf drawn).1.width ≤ limit)
    (hheight : (g.layoutOf drawn).1.height ≤ limit) (round : Bool) :
    ∃ ps, (g.layoutOf drawn).1.primitivesIn α round = .ok ps ∧
      Spans H ps (g.layoutOf drawn).1.outermost := by
  have hwithin {c : Cell} (hc : c ∈ (g.layoutOf drawn).1.outermost) : c.Within limit :=
    within_of_mem_outermost hc hwidth hheight
  obtain ⟨ps, hps, hspans⟩ := exists_connectionsIn H round
    (fun e he c hc => hwithin (List.mem_append_right _ (List.mem_flatMap_of_mem he hc)))
    fun e he => hrows.way he
  refine ⟨_, by rw [Layout.primitivesIn, hps]; rfl, .append (.flatMap fun b hb => ?_) hspans⟩
  exact spans_label H hb
    (hwithin (List.mem_append_left _ (List.mem_map_of_mem hb))) round

variable {H : Halves α limit} {c c' : Canvas α} {i : Nat} {context : Context α}

/-- A canvas with nothing else on it is as large as the layout that was drawn. -/
theorem sizeInCells_drawAll (hcontext : c.context? i = some context) (hfresh : context.Fresh)
    {ps : List (Primitive α)} (h : Spans H ps (g.layoutOf drawn).1.outermost)
    (hdrawn : c.drawAll i ps = ⟨c', none⟩) :
    c'.sizeInCells i = ((g.layoutOf drawn).1.width, (g.layoutOf drawn).1.height) := by
  have hsize (axis : Axis) : c'.sizeAlong i axis = (g.layoutOf drawn).1.sizeAlong axis :=
    eq_of_forall_ge_iff fun m =>
      (Canvas.sizeAlong_drawAll hcontext hfresh h.reserves hdrawn axis m).trans
        (sizeAlong_le_iff g drawn axis m).symm
  exact Prod.ext (hsize .horizontal) (hsize .vertical)

end Spans

/-! ## Drawn flows -/

/-- What spans some cells is drawn on a new sketch. -/
theorem exists_draw {o : Options} {s : Sketch} (h : (Sketch.ofOptions o).result = .ok s)
    {ps : List (Primitive Measure)} {cells : List Cell} (hspans : Spans Halves.doubles ps cells) :
    ∃ drawn root, s.draw 0 ps = .ok drawn ∧ s.canvas.context? 0 = some root ∧ root.Fresh ∧
      s.canvas.drawAll 0 ps = ⟨drawn.canvas, none⟩ := by
  obtain ⟨root, hroot, hfresh, hready⟩ := Sketch.blank_ofOptions h
  obtain ⟨canvas, hdrawn⟩ := s.canvas.exists_drawAll 0
    (fun context hcontext => Option.some.inj (hroot.symm.trans hcontext) ▸ hready) hspans
  refine ⟨{ s with canvas := canvas }, root, ?_, hroot, hfresh, hdrawn⟩
  rw [Sketch.draw, Sketch.drawAll, hdrawn]
  rfl

/-- A flow text is drawn by drawing the primitives of its layout. -/
theorem result_drawText {α : Type} [Scalar α] {engine : Engine α} {text : List Char} {g : Graph}
    {l : Layout} (hparse : (parse text).result = .ok g) (hl : (layoutWith engine g).result = .ok l)
    {round : Bool} {ps : List (Primitive Measure)} (hps : l.primitives round = .ok ps)
    (s : Sketch) : (s.drawText engine .flow text round).result = s.draw 0 ps := by
  have hprimitives : (Kind.flow.primitives engine text round).result = .ok ps := by
    rw [Kind.primitives, Report.result_bind hparse, Report.result_bind hl, hps]
    rfl
  rw [Sketch.drawText, Report.result_bind hprimitives]
  rfl

/-- A flow drawn on a fresh context takes just the cells that it was laid out in: always in exact
arithmetic, and with doubles as long as there are fewer than `2 ^ 52` rows and columns.  What is
known of the engine is that boxes stand in rows six apart and edges lead from one row to another. -/
theorem drawn_size {α : Type} [Scalar α] (engine : Engine α) {text : List Char} {g : Graph}
    {l : Layout} (hparse : (parse text).result = .ok g) (hl : (layoutWith engine g).result = .ok l)
    (hrows : InRows g l.boxes) (round : Bool) :
    (∃ ps, l.primitivesIn Rat round = .ok ps ∧
      ∀ (c : Canvas Rat) i context, c.context? i = some context → context.Fresh →
        ∃ drawn, c.drawAll i ps = ⟨drawn, none⟩ ∧ drawn.sizeInCells i = (l.width, l.height)) ∧
    (l.width < 2 ^ 52 → l.height < 2 ^ 52 → ∃ ps, l.primitives round = .ok ps ∧
      (∀ (c : Canvas Measure) i context drawn, c.context? i = some context → context.Fresh →
        c.drawAll i ps = ⟨drawn, none⟩ → drawn.sizeInCells i = (l.width, l.height)) ∧
      ∀ o s, (Sketch.ofOptions o).result = .ok s → ∃ drawn,
        (s.drawText engine .flow text round).result = .ok drawn ∧ s.draw 0 ps = .ok drawn ∧
        drawn.canvas.sizeInCells 0 = (l.width, l.height)) := by
  obtain ⟨components, -, rfl⟩ := exists_drawnBy hl
  constructor
  · -- rationals have no limit, so that the size of the layout may be taken for one
    obtain ⟨ps, hps, hspans⟩ := exists_primitivesIn (Halves.rational (max _ _)) hrows
      (le_max_left _ _) (le_max_right _ _) round
    refine ⟨ps, hps, fun c i context hcontext hfresh => ?_⟩
    obtain ⟨drawn, hdrawn⟩ := c.exists_drawAll i
      (fun _ _ => ⟨⟨trivial, trivial, trivial, trivial⟩, fun _ => firstFault?_exact _⟩) hspans
    exact ⟨drawn, hdrawn, sizeInCells_drawAll hcontext hfresh hspans hdrawn⟩
  · intro hwidth hheight
    obtain ⟨ps, hps, hspans⟩ := exists_primitivesIn Halves.doubles hrows
      (Int.le_sub_one_of_lt hwidth) (Int.le_sub_one_of_lt hheight) round
    rw [Layout.primitivesIn_measure] at hps
    refine ⟨ps, hps, fun c i context drawn hcontext hfresh hdrawn => ?_, fun o s hs => ?_⟩
    · exact sizeInCells_drawAll hcontext hfresh hspans hdrawn
    · obtain ⟨drawn, root, hdraw, hroot, hfresh, hdrawn⟩ := exists_draw hs hspans
      exact ⟨drawn, (result_drawText hparse hl hps s).trans hdraw, hdraw,
        sizeInCells_drawAll hroot hfresh hspans hdrawn⟩

/-- A box over two others, whose ways bend. -/
def fork : Graph where
  nodes := [⟨['a'], ['a']⟩, ⟨['b'], ['b']⟩, ⟨['c'], ['c']⟩]
  edges := [⟨['a'], ['b'], .forward⟩, ⟨['a'], ['c'], .forward⟩]

theorem fork_drawn : (parse "a -> b\na -> c".toList).result = .ok fork ∧
    ∃ l, (layoutWith forkEngine fork).result = .ok l ∧ InRows fork l.boxes ∧
      (∃ ps, l.primitivesIn Rat true = .ok ps) ∧
      ∃ s drawn, (Sketch.ofOptions {}).result = .ok s ∧
        (s.drawText forkEngine .flow "a -> b\na -> c".toList true).result = .ok drawn ∧
        drawn.canvas.sizeInCells 0 = (l.width, l.height) := by
  have hparse : (parse "a -> b\na -> c".toList).result = .ok fork := by decide +kernel
  have hdrawn : fork.drawnBy forkEngine = .ok [([0, 1, 2], [⟨-2, 0⟩, ⟨-6, 6⟩, ⟨3, 6⟩])] := by
    decide +kernel
  have hl := result_of_drawnBy hdrawn
  -- the ways need not be known: they keep within one cell of the boxes
  have hboxes : fork.boxesOf [([0, 1, 2], [⟨-2, 0⟩, ⟨-6, 6⟩, ⟨3, 6⟩])] =
      [⟨['a'], ['a'], 4, 0, 3, 3⟩, ⟨['b'], ['b'], 0, 6, 3, 3⟩, ⟨['c'], ['c'], 9, 6, 3, 3⟩] := by
    decide +kernel
  have hrows : InRows fork (fork.boxesOf [([0, 1, 2], [⟨-2, 0⟩, ⟨-6, 6⟩, ⟨3, 6⟩])]) := by
    rw [hboxes]
    refine ⟨by decide, ?_⟩
    simp [fork]
  obtain ⟨hwidth, hheight⟩ := size_layoutOf_le fork [([0, 1, 2], [⟨-2, 0⟩, ⟨-6, 6⟩, ⟨3, 6⟩])]
  rw [hboxes] at hwidth hheight
  obtain ⟨⟨qs, hqs, -⟩, hdoubles⟩ := drawn_size forkEngine hparse hl hrows true
  obtain ⟨ps, -, -, hfresh⟩ :=
    hdoubles (hwidth.trans_lt (by decide)) (hheight.trans_lt (by decide))
  obtain ⟨s, hs⟩ : ∃ s, (Sketch.ofOptions {}).result = .ok s := ⟨_, rfl⟩
  obtain ⟨drawn, hdraw, -, hsize⟩ := hfresh {} s hs
  exact ⟨hparse, _, hl, hrows, ⟨qs, hqs⟩, s, drawn, hs, hdraw, hsize⟩

end Flow
end CellSketch
