import CellSketch.Proofs.Canvas.Documents
import CellSketch.Proofs.Canvas.Regions
import CellSketch.Proofs.Polyline
import CellSketch.Proofs.Scan.Joints

/-!
# Reach — primitives stay in the room that is reserved for them

A primitive reserves room by a position in cells and becomes shapes in pixels.  Lines end in the
centres of cells, marks stay in one cell, and a rounded corner bends around a corner of its cell
without leaving it, so that no shape goes further than the last cell that was reserved.

* `Primitive.Grounded` — lines, rectangles and marks on no negative cell, without heads;
* `Primitive.Grounded.inRoom` — their shapes stay in the room up to where they reach;
* `Connection.grounded_connection` — connections without heads are made of them.
-/

namespace CellSketch

open Number

variable {width height : Rat}

theorem Number.Point.farthest_pair (a b : Point Rat) :
    a.farthest [b] = ⟨max a.x b.x, max a.y b.y⟩ := by
  have hlarger (x y : Rat) : Scalar.larger x y = max x y := by
    rw [max_def_lt]
    rfl
  rw [farthest, List.foldl_cons, List.foldl_nil, hlarger, hlarger]

namespace Primitive

/-- Nothing but lines, rectangles and marks, without heads and on no negative cell. -/
def Grounded : Primitive Rat → Prop
  | line a b arrow => arrow = .headless ∧ (0 ≤ a.x ∧ 0 ≤ a.y) ∧ 0 ≤ b.x ∧ 0 ≤ b.y
  | run _ lane first last arrow => arrow = .headless ∧ 0 ≤ lane ∧ 0 ≤ first ∧ 0 ≤ last
  | rectangle a b _ => (0 ≤ a.x ∧ 0 ≤ a.y) ∧ 0 ≤ b.x ∧ 0 ≤ b.y
  | crossing c | marker c _ _ | roundCorner c _ => 0 ≤ c.x ∧ 0 ≤ c.y
  | curve .. | path _ | text .. | head .. => False

end Primitive

/-- A shape in the room up to and including a position. -/
def Shape.InRoom (size : CellSize Rat) (last : Point Rat) (s : Shape Rat) : Prop :=
  s.Between ⟨0, 0⟩ ⟨size.right last.x.ceil, size.bottom last.y.ceil⟩

/-- A shape in a cell. -/
def Shape.InCell (size : CellSize Rat) (c : Cell) (s : Shape Rat) : Prop :=
  s.Between ⟨size.left c.x, size.top c.y⟩ ⟨size.right c.x, size.bottom c.y⟩

section Cells

variable (hwidth : 0 ≤ width) (hheight : 0 ≤ height)
include hwidth hheight

theorem Shape.InCell.inRoom {c : Cell} {s : Shape Rat} (h : s.InCell (.of width height) c)
    (hc : 0 ≤ c.x ∧ 0 ≤ c.y) : s.InRoom (.of width height) (Primitive.position c) := by
  have hx : (0 : Rat) ≤ c.x := by exact_mod_cast hc.1
  have hy : (0 : Rat) ≤ c.y := by exact_mod_cast hc.2
  refine h.mono ⟨mul_nonneg hx hwidth, mul_nonneg hy hheight⟩ ⟨?_, ?_⟩ <;>
    simp [Primitive.position, Rat.ceil_intCast]

/-- Stubs and symbols stay in their cell. -/
theorem inCell_markerShapes (background : String) (c : Cell) (symbol : Marker) (sides : Sides) :
    ∀ s ∈ Primitive.markerShapes (.of width height) background c symbol sides,
      s.InCell (.of width height) c := by
  intro s hs
  simp only [Primitive.markerShapes, List.mem_append] at hs
  rcases hs with (hs | hs) | hs
  · split at hs
    · rw [List.mem_singleton] at hs
      subst hs
      refine Shape.between_line ⟨?_, ?_⟩ ⟨?_, ?_⟩ ⟨?_, ?_⟩ ⟨?_, ?_⟩ <;>
        simp only [CellSize.middle, left_of, right_of, top_of, bottom_of, middleX_of, middleY_of,
          halfWidth_of, whole_rat] <;>
        (try split) <;> push_cast <;> linarith
    · cases hs
  · split at hs
    · rw [List.mem_singleton] at hs
      subst hs
      refine Shape.between_line ⟨?_, ?_⟩ ⟨?_, ?_⟩ ⟨?_, ?_⟩ ⟨?_, ?_⟩ <;>
        simp only [CellSize.middle, left_of, right_of, top_of, bottom_of, middleX_of, middleY_of,
          halfHeight_of, whole_rat] <;>
        (try split) <;> push_cast <;> linarith
    · cases hs
  · cases symbol with
    | cross =>
        simp only [List.mem_cons, List.not_mem_nil, or_false] at hs
        rcases hs with rfl | rfl
        all_goals
          refine Shape.between_line ⟨?_, ?_⟩ ⟨?_, ?_⟩ ⟨?_, ?_⟩ ⟨?_, ?_⟩ <;>
            simp only [left_of, right_of, top_of, bottom_of, halfWidth_of, halfHeight_of,
              whole_rat] <;>
            push_cast <;> linarith
    | circle =>
        rw [List.mem_singleton] at hs
        subst hs
        refine (Shape.between_ellipse ?_ ?_ background).mono ⟨?_, ?_⟩ ⟨?_, ?_⟩ <;>
          simp only [CellSize.middle, left_of, right_of, top_of, bottom_of, middleX_of, middleY_of,
            halfWidth_of, halfHeight_of, whole_rat] <;>
          push_cast <;> linarith
    | plain => cases hs

theorem inCell_crossing (c : Cell) (style : Style Rat) :
    ∀ s ∈ (Primitive.crossing c).shapes (.of width height) style,
      s.InCell (.of width height) c := by
  intro s hs
  simp only [Primitive.shapes, List.mem_cons, List.not_mem_nil, or_false] at hs
  rcases hs with rfl | rfl
  · refine Shape.between_line ⟨?_, ?_⟩ ⟨?_, ?_⟩ ⟨?_, ?_⟩ ⟨?_, ?_⟩ <;>
      simp only [left_of, right_of, top_of, bottom_of, middleY_of] <;> linarith
  · refine (Shape.between_arc ?_ ?_ _ _).mono ⟨?_, ?_⟩ ⟨?_, ?_⟩ <;>
      simp only [CellSize.middle, left_of, right_of, top_of, bottom_of, middleX_of, middleY_of,
        halfWidth_of, halfHeight_of] <;> linarith

/-- A rounded corner bends around a corner of its cell, and stays on the side of the cell. -/
theorem inCell_roundCorner (c : Cell) (corner : Corner) (style : Style Rat) :
    ∀ s ∈ (Primitive.roundCorner c corner).shapes (.of width height) style,
      s.InCell (.of width height) c := by
  intro s hs
  have hrx : 0 ≤ width / 2 := by linarith
  have hry : 0 ≤ height / 2 := by linarith
  cases corner <;>
    simp only [Primitive.shapes, Primitive.bend, List.mem_singleton, halfWidth_of,
      halfHeight_of] at hs <;>
    subst hs
  case topLeft =>
    refine (Shape.between_upperLeft hrx hry).mono ⟨?_, ?_⟩ ⟨?_, ?_⟩ <;> simp <;> linarith
  case topRight =>
    refine (Shape.between_upperRight hrx hry).mono ⟨?_, ?_⟩ ⟨?_, ?_⟩ <;> simp <;> linarith
  case bottomLeft =>
    refine (Shape.between_lowerLeft hrx hry).mono ⟨?_, ?_⟩ ⟨?_, ?_⟩ <;> simp <;> linarith
  case bottomRight =>
    refine (Shape.between_lowerRight hrx hry).mono ⟨?_, ?_⟩ ⟨?_, ?_⟩ <;> simp <;> linarith

/-- A line through cells that are not negative stays in the room up to the farther of its ends. -/
theorem inRoom_line {a b : Point Rat} (ha : 0 ≤ a.x ∧ 0 ≤ a.y) (hb : 0 ≤ b.x ∧ 0 ≤ b.y) :
    (Shape.line ((CellSize.of width height).centre a) ((CellSize.of width height).centre b)).InRoom
      (.of width height) (a.farthest [b]) := by
  have hcentre {x m side : Rat} (hside : 0 ≤ side) (hx : 0 ≤ x) (hm : x ≤ m) :
      0 ≤ x * side + side / 2 ∧ x * side + side / 2 ≤ m.ceil * side + side := by
    have hceil : x * side ≤ m.ceil * side :=
      mul_le_mul_of_nonneg_right (hm.trans Rat.le_ceil) hside
    have hpos : 0 ≤ x * side := mul_nonneg hx hside
    constructor <;> linarith
  rw [Point.farthest_pair]
  exact Shape.between_line (hcentre hwidth ha.1 (le_max_left _ _))
    (hcentre hheight ha.2 (le_max_left _ _)) (hcentre hwidth hb.1 (le_max_right _ _))
    (hcentre hheight hb.2 (le_max_right _ _))

theorem inRoom_rectangle {a b : Cell} (ha : 0 ≤ a.x ∧ 0 ≤ a.y) (hb : 0 ≤ b.x ∧ 0 ≤ b.y)
    (round : Bool) (style : Style Rat) :
    ∀ s ∈ (Primitive.rectangle a b round).shapes (.of width height) style,
      s.InRoom (.of width height) (Primitive.position (Primitive.farther a b)) := by
  have hspan {x y : Int} {side : Rat} (hside : 0 ≤ side) (hx : 0 ≤ x) (hy : 0 ≤ y) :
      0 ≤ (min x y : Int) * side + side / 2 ∧
        (min x y : Int) * side + side / 2 + ((y - x).natAbs : Int) * side ≤
          (max x y : Int) * side + side := by
    have hmin : (0 : Rat) ≤ (min x y : Int) := by exact_mod_cast le_min hx hy
    have hmax : ((min x y : Int) : Rat) + ((y - x).natAbs : Int) = (max x y : Int) := by
      have hint : min x y + ((y - x).natAbs : Int) = max x y := by omega
      exact_mod_cast hint
    have hpos : 0 ≤ (min x y : Int) * side := mul_nonneg hmin hside
    rw [← hmax, add_mul]
    constructor <;> linarith
  intro s hs
  rw [Primitive.shapes, List.mem_singleton] at hs
  subst hs
  refine (Shape.between_rectangle _).mono
    ⟨(hspan hwidth ha.1 hb.1).1, (hspan hheight ha.2 hb.2).1⟩ ⟨?_, ?_⟩ <;>
    simp only [Primitive.position, Primitive.farther, whole_rat, Rat.ceil_intCast]
  · exact (hspan hwidth ha.1 hb.1).2
  · exact (hspan hheight ha.2 hb.2).2

theorem inRoom_run {axis : Axis} {lane first last : Int} (hlane : 0 ≤ lane) (hfirst : 0 ≤ first)
    (hlast : 0 ≤ last) (style : Style Rat) :
    ∃ reach, (Primitive.run axis lane first last .headless : Primitive Rat).reach = some reach ∧
      ∀ s ∈ (Primitive.run axis lane first last .headless).shapes (.of width height) style,
        s.InRoom (.of width height) reach := by
  have hpos {k : Int} {side : Rat} (hside : 0 ≤ side) (hk : 0 ≤ k) : 0 ≤ k * side :=
    mul_nonneg (by exact_mod_cast hk) hside
  have hlength {side : Rat} (hside : 0 ≤ side) :
      ((min first last : Int) : Rat) * side ≤ (max first last : Int) * side :=
    mul_le_mul_of_nonneg_right (by exact_mod_cast min_le_max) hside
  have hlow : 0 ≤ min first last := le_min hfirst hlast
  have hhigh : 0 ≤ max first last := le_max_of_le_left hfirst
  cases axis
  all_goals
    refine ⟨_, rfl, fun s hs => ?_⟩
    rw [List.mem_singleton.1 hs]
    have hx := hlength hwidth
    have hy := hlength hheight
    have hlowX := hpos hwidth hlow
    have hlowY := hpos hheight hlow
    have hlaneX := hpos hwidth hlane
    have hlaneY := hpos hheight hlane
    refine Shape.between_line ⟨?_, ?_⟩ ⟨?_, ?_⟩ ⟨?_, ?_⟩ ⟨?_, ?_⟩ <;>
      simp only [Primitive.position, left_of, right_of, top_of, bottom_of, middleX_of, middleY_of,
        whole_rat, Rat.ceil_intCast] <;>
      linarith

/-- Grounded primitives stay in the room that is reserved for them. -/
theorem Primitive.Grounded.inRoom {p : Primitive Rat} (h : p.Grounded) (style : Style Rat) :
    ∃ last, p.reach = some last ∧
      ∀ s ∈ p.shapes (.of width height) style, s.InRoom (.of width height) last := by
  cases p with
  | line a b arrow =>
      obtain ⟨rfl, ha, hb⟩ := h
      refine ⟨_, rfl, fun s hs => ?_⟩
      rw [List.mem_singleton.1 hs]
      exact inRoom_line hwidth hheight ha hb
  | run axis lane first last arrow =>
      obtain ⟨rfl, hlane, hfirst, hlast⟩ := h
      exact inRoom_run hwidth hheight hlane hfirst hlast style
  | rectangle a b round =>
      exact ⟨_, rfl, inRoom_rectangle hwidth hheight h.1 h.2 round style⟩
  | crossing c =>
      exact ⟨_, rfl, fun s hs =>
        (inCell_crossing hwidth hheight c style s hs).inRoom hwidth hheight h⟩
  | marker c symbol sides =>
      exact ⟨_, rfl, fun s hs =>
        (inCell_markerShapes hwidth hheight _ c symbol sides s hs).inRoom hwidth hheight h⟩
  | roundCorner c corner =>
      exact ⟨_, rfl, fun s hs =>
        (inCell_roundCorner hwidth hheight c corner style s hs).inRoom hwidth hheight h⟩
  | curve | path | text | head => cases h

end Cells

/-! ## Connections -/

namespace Connection

/-- No coordinate of a point is negative. -/
def NotNegative (points : List (RawPoint Rat)) : Prop :=
  ∀ coordinates, some coordinates ∈ points → ∀ x, some x ∈ coordinates → 0 ≤ x

theorem nonneg_of_trunc {x : Rat} {n : Int} (h : Scalar.trunc x = .ok n) (hx : 0 ≤ x) : 0 ≤ n := by
  have hn : (if x < 0 then x.ceil else x.floor) = n := Except.ok.inj h
  rw [if_neg (not_lt.2 hx)] at hn
  rw [← hn]
  exact Rat.le_floor_iff.2 (by exact_mod_cast hx)

theorem nonneg_of_cell? {p : RawPoint Rat}
    (hp : ∀ coordinates, p = some coordinates → ∀ x, some x ∈ coordinates → 0 ≤ x) {c : Cell}
    (h : p.cell? = .ok (some c)) : 0 ≤ c.x ∧ 0 ≤ c.y := by
  unfold RawPoint.cell? at h
  split at h
  · rename_i x y
    obtain ⟨column, hcolumn⟩ : ∃ column, Scalar.trunc x = .ok column := ⟨_, rfl⟩
    obtain ⟨row, hrow⟩ : ∃ row, Scalar.trunc y = .ok row := ⟨_, rfl⟩
    rw [hcolumn, hrow] at h
    cases h
    exact ⟨nonneg_of_trunc hcolumn (hp _ rfl x (by simp)),
      nonneg_of_trunc hrow (hp _ rfl y (by simp))⟩
  · cases h

theorem nonneg_of_mem_cells {points : List (RawPoint Rat)} (hpoints : NotNegative points)
    {found : List Cell} (h : cells points = .ok found) : ∀ c ∈ found, 0 ≤ c.x ∧ 0 ≤ c.y := by
  induction points generalizing found with
  | nil =>
      cases h
      exact fun c hc => by cases hc
  | cons p rest ih =>
      rw [cells] at h
      cases hcell : p.cell? with
      | error fault =>
          rw [hcell] at h
          cases h
      | ok cell =>
          cases hrest : cells rest with
          | error fault =>
              rw [hcell, hrest] at h
              cases h
          | ok others =>
              rw [hcell, hrest] at h
              cases h
              intro c hc
              rcases List.mem_append.1 hc with hc | hc
              · rw [Option.mem_toList] at hc
                subst hc
                exact nonneg_of_cell?
                  (fun coordinates hp => hpoints coordinates (hp ▸ List.mem_cons_self)) hcell
              · exact ih (fun coordinates hmem => hpoints coordinates (List.mem_cons_of_mem p hmem))
                  hrest c hc

/-- The way between two cells is no shorter than an inset, so that the inset does not lead to
negative positions. -/
theorem nonneg_inset {n m : Int} {inset : Rat} (hn : 0 ≤ n) (hm : 0 ≤ m)
    (hinset : 0 ≤ inset ∧ inset ≤ 1) : 0 ≤ (n : Rat) - ((n - m).sign : Int) * inset := by
  have hn' : (0 : Rat) ≤ n := by exact_mod_cast hn
  rcases lt_trichotomy n m with hlt | rfl | hlt
  · rw [Int.sign_eq_neg_one_of_neg (by omega)]
    push_cast
    linarith
  · simpa using hn'
  · rw [Int.sign_eq_one_of_pos (by omega)]
    have hone : (1 : Rat) ≤ n := by exact_mod_cast (show 1 ≤ n by omega)
    push_cast
    linarith

section Pieces

variable {inset : Rat} (hinset : 0 ≤ inset ∧ inset ≤ 1)
include hinset

theorem nonneg_before {a c : Cell} (ha : 0 ≤ a.x ∧ 0 ≤ a.y) (hc : 0 ≤ c.x ∧ 0 ≤ c.y) :
    0 ≤ (before inset c (.between a c)).x ∧ 0 ≤ (before inset c (.between a c)).y :=
  ⟨nonneg_inset hc.1 ha.1 hinset, nonneg_inset hc.2 ha.2 hinset⟩

theorem nonneg_after {c d : Cell} (hc : 0 ≤ c.x ∧ 0 ≤ c.y) (hd : 0 ≤ d.x ∧ 0 ≤ d.y) :
    0 ≤ (after inset c (.between c d)).x ∧ 0 ≤ (after inset c (.between c d)).y := by
  have hturn {n m : Int} : ((m - n).sign : Rat) = -((n - m).sign : Int) := by
    rw [← Int.neg_sub, Int.sign_neg]
    push_cast
    rfl
  have hx := nonneg_inset hc.1 hd.1 hinset
  have hy := nonneg_inset hc.2 hd.2 hinset
  simp only [after, Heading.between, whole_rat, hturn (n := c.x), hturn (n := c.y)]
  constructor <;> linarith

end Pieces

/-- A part of a connection on cells that are not negative. -/
def Piece.Grounded : Piece Rat → Prop
  | .segment a b => (0 ≤ a.x ∧ 0 ≤ a.y) ∧ 0 ≤ b.x ∧ 0 ≤ b.y
  | .corner c _ => 0 ≤ c.x ∧ 0 ≤ c.y

theorem grounded_segment {a b : Point Rat} (ha : 0 ≤ a.x ∧ 0 ≤ a.y) (hb : 0 ≤ b.x ∧ 0 ≤ b.y) :
    ∀ piece ∈ segment a b, piece.Grounded := by
  intro piece hpiece
  rw [segment] at hpiece
  split at hpiece
  · cases hpiece
  · rw [List.mem_singleton.1 hpiece]
    exact ⟨ha, hb⟩

theorem nonneg_middle {c : Cell} (hc : 0 ≤ c.x ∧ 0 ≤ c.y) :
    0 ≤ (middle c : Point Rat).x ∧ 0 ≤ (middle c : Point Rat).y :=
  ⟨(Int.cast_nonneg hc.1 : (0 : Rat) ≤ c.x), (Int.cast_nonneg hc.2 : (0 : Rat) ≤ c.y)⟩

theorem grounded_piecesFrom {inset : Rat} (hinset : 0 ≤ inset ∧ inset ≤ 1) {start : Point Rat}
    {previous cell : Cell} {rest : List Cell} (hstart : 0 ≤ start.x ∧ 0 ≤ start.y)
    (hcells : ∀ c ∈ previous :: cell :: rest, 0 ≤ c.x ∧ 0 ≤ c.y) :
    ∀ piece ∈ piecesFrom inset start previous cell rest, piece.Grounded := by
  induction rest generalizing start previous cell with
  | nil => exact grounded_segment hstart (nonneg_middle (hcells cell (by simp)))
  | cons next rest ih =>
      have hprevious := hcells previous (by simp)
      have hcell := hcells cell (by simp)
      have hnext := hcells next (by simp)
      have hmore : ∀ c ∈ cell :: next :: rest, 0 ≤ c.x ∧ 0 ≤ c.y := fun c hc =>
        hcells c (List.mem_cons_of_mem previous hc)
      rw [piecesFrom]
      split
      · split
        · exact ih hstart hmore
        · intro piece hpiece
          rcases List.mem_append.1 hpiece with hpiece | hpiece
          · exact grounded_segment hstart (nonneg_middle hcell) piece hpiece
          · exact ih (nonneg_middle hcell) hmore piece hpiece
      · intro piece hpiece
        rcases List.mem_append.1 hpiece with hpiece | hpiece
        · exact grounded_segment hstart (nonneg_before hinset hprevious hcell) piece hpiece
        · rcases List.mem_cons.1 hpiece with rfl | hpiece
          · exact hcell
          · exact ih (nonneg_after hinset hcell hnext) hmore piece hpiece

theorem grounded_planChain {given : List Cell} (h : ∀ c ∈ given, 0 ≤ c.x ∧ 0 ≤ c.y) (round : Bool) :
    ∀ piece ∈ (planChain given .headless round : Plan Rat).pieces, piece.Grounded := by
  have hinset : 0 ≤ (insetOf round : Rat) ∧ (insetOf round : Rat) ≤ 1 := by
    cases round <;> norm_num [insetOf, Scalar.half]
  match given with
  | [] | [_] => exact fun piece hpiece => by cases hpiece
  | first :: second :: rest =>
      exact grounded_piecesFrom hinset (nonneg_middle (h first List.mem_cons_self)) h

theorem heads_planChain_headless (given : List Cell) (round : Bool) :
    (planChain given .headless round : Plan Rat).heads = [] := by
  match given with
  | [] | [_] | _ :: _ :: _ => rfl

/-- A connection without heads through points that are not negative is made of lines and corners on
such cells. -/
theorem grounded_connection {points : List (RawPoint Rat)} (hpoints : NotNegative points)
    {round : Bool} {ps : List (Primitive Rat)}
    (h : Primitive.connection points .headless round = .ok ps) : ∀ p ∈ ps, p.Grounded := by
  obtain ⟨plan, hplan, rfl⟩ := exists_of_map_eq_ok h
  obtain ⟨given, hgiven, hplan⟩ := exists_of_bind_eq_ok hplan
  obtain ⟨found, hfound, rfl⟩ := exists_of_map_eq_ok hgiven
  have hpieces := grounded_planChain
    (forall_mem_chain (nonneg_of_mem_cells hpoints hfound)) round
  have hheads := heads_planChain_headless (chain found) round
  dsimp only at hplan
  split at hplan
  · cases hplan
  cases hplan
  intro p hp
  rw [Primitive.ofPlan, hheads, List.map_nil, List.append_nil] at hp
  obtain ⟨piece, hpiece, rfl⟩ := List.mem_map.1 hp
  have hgrounded := hpieces piece hpiece
  cases piece with
  | segment a b => exact ⟨rfl, hgrounded⟩
  | corner c corner =>
      cases round <;> exact hgrounded

end Connection
end CellSketch
