import CellSketch.Proofs.Canvas.Exact
import CellSketch.Proofs.Connection.Ways

/-!
# Walk — a plan is one connected walk along its cells

The pieces of a plan join end to end from the centre of the first cell to that of the last one.
With each corner squared off they lead through the same points at the same lengths as the chain of
cells does, and corners stand just where the chain turns off.

* `Joined` — pieces that join end to end, and `Stroked` — strokes that do so in pixels;
* `Run.along` — with corners squared off, pieces lead along the cells;
* `bends`, `Stands` — where a chain of cells turns off, and the corners there;
* `Meets` — what pieces that follow each other are;
* `Walk` — what is expected of the pieces of a plan;
* `plan_walk` — every plan is a walk.
-/

namespace CellSketch
namespace Connection

open Number

/-! ## Pieces end to end -/

/-- The point `inset` away from the centre of a cell, toward a side. -/
def rim (inset : Rat) (c : Cell) (side : Side) : Point Rat := side.ahead inset (middle c)

/-- Two points that differ in exactly one coordinate. -/
def Straight (p q : Point Rat) : Prop := (p.x = q.x ∧ p.y ≠ q.y) ∨ (p.x ≠ q.x ∧ p.y = q.y)

/-- Pieces that join end to end from one point to another.  Segments are straight and of some
length; a corner is entered and left on the two sides that it joins. -/
inductive Joined (inset : Rat) : Point Rat → List (Piece Rat) → Point Rat → Prop
  | nil (p : Point Rat) : Joined inset p [] p
  | segment {p q r : Point Rat} {pieces : List (Piece Rat)} (hpq : Straight p q)
      (h : Joined inset q pieces r) : Joined inset p (.segment p q :: pieces) r
  | corner {c : Cell} {k : Corner} {s t : Side} {r : Point Rat} {pieces : List (Piece Rat)}
      (hs : k.sides.at s = true) (ht : k.sides.at t = true) (hne : s ≠ t)
      (h : Joined inset (rim inset c t) pieces r) :
      Joined inset (rim inset c s) (.corner c k :: pieces) r

theorem straight_ahead (side : Side) {s : Rat} (hs : s ≠ 0) (p : Point Rat) :
    Straight (side.ahead s p) p := by
  cases side <;> simp [Straight, Side.ahead, hs]

/-- The table has every turn from one side to another: its corner joins the side that the run comes
from and the side that the next one leaves by. -/
theorem turn?_heading {d e : Side} (haxis : d.axis ≠ e.axis) :
    ∃ k, turn? d.heading e.heading = some k ∧
      ∀ side, k.sides.at side = true ↔ side = d.opposite ∨ side = e := by
  cases d <;> cases e <;> first
    | exact absurd rfl haxis
    | exact ⟨_, rfl, fun side => by cases side <;> decide⟩

theorem at_turn {d e : Side} (haxis : d.axis ≠ e.axis) (side : Side) :
    (turn d.heading e.heading).sides.at side = true ↔ side = d.opposite ∨ side = e := by
  obtain ⟨k, hk, hsides⟩ := turn?_heading haxis
  rw [turn, hk]
  exact hsides side

theorem ne_of_axis_ne {d e : Side} (haxis : d.axis ≠ e.axis) : d.opposite ≠ e := by
  rintro rfl
  cases d <;> exact haxis rfl

section Joined

variable {inset t : Rat} {d : Side} {c : Cell} {rest : List Cell} {pieces : List (Piece Rat)}

/-- The pieces of a corner and of the runs behind it. -/
theorem Joined.turned {d e : Side} {n : Int} {r : Point Rat} (haxis : d.axis ≠ e.axis)
    (h : Joined inset (e.ahead (-(n - inset)) (middle (e.far n c))) pieces r) :
    Joined inset (d.ahead (-inset) (middle c))
      (.corner c (Connection.turn d.heading e.heading) :: pieces) r := by
  rw [start_turn] at h
  rw [← Side.ahead_opposite]
  exact .corner ((at_turn haxis _).2 (Or.inl rfl)) ((at_turn haxis _).2 (Or.inr rfl))
    (ne_of_axis_ne haxis) h

theorem Run.joined (h : Run inset d t c rest pieces) {last : Cell}
    (hlast : (c :: rest).getLast? = some last) :
    Joined inset (d.ahead (-t) (middle c)) pieces (middle last) := by
  -- each run ends where the next one starts, which is told apart by how the next cell lies
  induction h with
  | @last d t c ht =>
      rw [List.getLast?_singleton, Option.some.injEq] at hlast
      subst hlast
      exact .segment (straight_ahead d (neg_ne_zero.2 ht.ne') _) (.nil _)
  | @straight d t c n rest pieces ht hn h ih =>
      have hmore := ih (by rwa [List.getLast?_cons_cons] at hlast)
      rw [start_straight] at hmore
      exact hmore
  | @back d t c n rest pieces ht hn h ih =>
      have hmore := ih (by rwa [List.getLast?_cons_cons] at hlast)
      rw [start_back] at hmore
      exact .segment (straight_ahead d (neg_ne_zero.2 ht.ne') _) hmore
  | @turn d e t c n rest pieces ht hn haxis h ih =>
      have hmore := ih (by rwa [List.getLast?_cons_cons] at hlast)
      refine .segment ?_ (hmore.turned haxis)
      have hstraight := straight_ahead d (sub_ne_zero.2 ht.ne) (d.ahead (-inset) (middle c))
      rwa [Side.ahead_ahead, show -inset + (inset - t) = -t by ring] at hstraight
  | @empty d e c n rest pieces ht hn haxis h ih =>
      have hmore := ih (by rwa [List.getLast?_cons_cons] at hlast)
      exact hmore.turned haxis

end Joined

/-! ## Strokes end to end -/

/-- Strokes of which each begins where the one before it ends. -/
inductive Stroked (size : CellSize Rat) (style : Style Rat) :
    Point ℝ → List (Primitive Rat) → Point ℝ → Prop
  | nil (p : Point ℝ) : Stroked size style p [] p
  | cons {p q r : Point ℝ} {stroke : Primitive Rat} {strokes : List (Primitive Rat)}
      (hends : stroke.ends size style = [p, q] ∨ stroke.ends size style = [q, p])
      (h : Stroked size style q strokes r) : Stroked size style p (stroke :: strokes) r

section Strokes

variable (width height : Rat) (style : Style Rat)

@[simp] theorem width_of : (CellSize.of width height).width = width := rfl

@[simp] theorem height_of : (CellSize.of width height).height = height := rfl

/-- Half a cell from its centre is the edge of a cell. -/
theorem centre_rim (c : Cell) (side : Side) :
    (CellSize.of width height).centre (rim (1 / 2) c side) =
      (CellSize.of width height).edge c side := by
  cases side <;> simp [CellSize.centre, CellSize.edge, rim, Side.ahead, middle] <;> ring

/-- The arc of a rounded corner leads from one of its two sides to the other. -/
theorem ends_roundCorner (c : Cell) {k : Corner} {s t : Side} (hs : k.sides.at s = true)
    (ht : k.sides.at t = true) (hne : s ≠ t) :
    let p := ((CellSize.of width height).edge c s).real
    let q := ((CellSize.of width height).edge c t).real
    (Primitive.roundCorner c k).ends (.of width height) style = [p, q] ∨
      (Primitive.roundCorner c k).ends (.of width height) style = [q, p] := by
  -- of the sides of a cell each corner joins just two, which are the ends of its arc
  cases k <;> cases s <;> cases t
  all_goals first
    | exact absurd rfl hne
    | exact absurd hs (by decide)
    | exact absurd ht (by decide)
    | simp [Primitive.ends, Primitive.shapes, Primitive.bend, Shape.ends, Number.Point.real,
        CellSize.edge, arcPoint_right, arcPoint_below, arcPoint_left, arcPoint_above,
        arcPoint_right', add_sub_half]

/-- Joined pieces with rounded corners are drawn as strokes end to end. -/
theorem Joined.stroked {p q : Point Rat} {pieces : List (Piece Rat)}
    (h : Joined (1 / 2) p pieces q) :
    Stroked (.of width height) style ((CellSize.of width height).centre p).real
      (Primitive.ofPlan { pieces := pieces } true) ((CellSize.of width height).centre q).real := by
  induction h with
  | nil p => exact .nil _
  | @segment p q r pieces hpq h ih => exact .cons (Or.inl rfl) ih
  | @corner c k s t r pieces hs ht hne h ih =>
      rw [centre_rim] at ih ⊢
      exact .cons (ends_roundCorner width height style c hs ht hne) ih

end Strokes

/-! ## Along the cells -/

/-- The points of a piece, a corner squared off. -/
def Piece.spine : Piece Rat → List (Point Rat)
  | .segment a b => [a, b]
  | .corner c _ => [middle c]

/-- With corners squared off, runs lead along the cells. -/
theorem Run.sameWay {inset t : Rat} {d : Side} {c : Cell} {rest : List Cell}
    {pieces : List (Piece Rat)} (hinset : 0 ≤ inset) (h : Run inset d t c rest pieces) {u : Rat}
    (hu : t ≤ u) :
    SameWay (d.ahead (-u) (middle c) :: pieces.flatMap Piece.spine)
      (d.ahead (-u) (middle c) :: middle c :: rest.map middle) := by
  -- the start may lie further back than that of the run, for a straight run does not end at a cell
  induction h generalizing u with
  | @last d t c ht => exact sameWay_up_to d ht.le hu (middle c) []
  | @straight d t c n rest pieces ht hn h ih =>
      have hn' : (1 : Rat) ≤ n := by exact_mod_cast hn
      have hmore := ih (add_le_add_left hu n)
      rw [start_straight] at hmore
      refine hmore.trans (SameWay.symm ?_)
      -- the centre of the cell lies on the way to the next one
      have hcentre := sameWay_before d (s := -n) (t := 0) (u := u) (by linarith) (by linarith)
        (middle c) (rest.map middle)
      rwa [neg_zero, Side.ahead_zero, neg_neg, ← middle_far] at hcentre
  | @back d t c n rest pieces ht hn h ih =>
      have hmore := ih le_rfl
      rw [start_back] at hmore
      exact (sameWay_up_to d ht.le hu _ _).trans (hmore.cons _)
  | @turn d e t c n rest pieces ht hn haxis h ih =>
      have hmore := ih (sub_le_self _ hinset)
      rw [start_back] at hmore
      exact (sameWay_before d ht.le hu _ _).trans
        ((sameWay_up_to d hinset (ht.le.trans hu) _ _).trans (hmore.cons _))
  | @empty d e c n rest pieces ht hn haxis h ih =>
      have hmore := ih (sub_le_self _ hinset)
      rw [start_back] at hmore
      exact hmore.cons _

/-! ## Corners -/

/-- One cell lies straight ahead of another one, on a side of it. -/
def LiesToward (side : Side) (c other : Cell) : Prop := ∃ n : Int, 1 ≤ n ∧ other = side.far n c

theorem liesToward_far {side other : Side} {n : Int} (hn : 1 ≤ n) (c : Cell) :
    LiesToward side c (other.far n c) ↔ side = other := by
  constructor
  · rintro ⟨m, hm, heq⟩
    rw [← Side.heading_inj, ← Side.heading_between_far side hm c, ← heq,
      Side.heading_between_far other hn c]
  · rintro rfl
    exact ⟨n, hn, rfl⟩

/-- The places where a chain of cells turns off, each with the cells before and behind it. -/
def bends : List Cell → List (Cell × Cell × Cell)
  | a :: b :: c :: rest =>
      if (a.x = b.x ∧ b.y = c.y) ∨ (a.y = b.y ∧ b.x = c.x) then
        (a, b, c) :: bends (b :: c :: rest)
      else bends (b :: c :: rest)
  | _ => []

/-- A corner of a plan. -/
def Piece.corner? {α : Type} : Piece α → Option (Cell × Corner)
  | .segment .. => none
  | .corner c k => some (c, k)

/-- A corner stands where a chain turns off and joins the sides of the cells before and behind. -/
def Stands (corner : Cell × Corner) (bend : Cell × Cell × Cell) : Prop :=
  corner.1 = bend.2.1 ∧ ∀ side, corner.2.sides.at side = true ↔
    LiesToward side bend.2.1 bend.1 ∨ LiesToward side bend.2.1 bend.2.2

/-- Behind a cell a chain turns off just if it changes its axis. -/
theorem bends_far {d e : Side} {m n : Int} (hm : 1 ≤ m) (hn : 1 ≤ n) (c : Cell)
    (rest : List Cell) :
    bends (d.opposite.far m c :: c :: e.far n c :: rest) =
      if d.axis = e.axis then bends (c :: e.far n c :: rest)
      else (d.opposite.far m c, c, e.far n c) :: bends (c :: e.far n c :: rest) := by
  have hm' : m ≠ 0 := by omega
  have hn' : n ≠ 0 := by omega
  have hsub (k : Int) : k ≠ k - n := by omega
  cases d <;> cases e <;> simp [bends, Side.axis, Side.far, Side.opposite, hm', hn', hsub]

theorem stands_turn {d e : Side} {m n : Int} (hm : 1 ≤ m) (hn : 1 ≤ n) (haxis : d.axis ≠ e.axis)
    (c : Cell) : Stands (c, turn d.heading e.heading) (d.opposite.far m c, c, e.far n c) := by
  constructor
  · rfl
  · intro side
    rw [at_turn haxis, liesToward_far hm, liesToward_far hn]

theorem far_opposite_far (side : Side) (n : Int) (c : Cell) :
    side.opposite.far n (side.far n c) = c := by
  cases side <;> simp [Side.far, Side.opposite]

/-- The corners of runs are the places where the chain turns off. -/
theorem Run.corners {inset t : Rat} {d : Side} {c : Cell} {rest : List Cell}
    {pieces : List (Piece Rat)} (h : Run inset d t c rest pieces) {m : Int} (hm : 1 ≤ m) :
    List.Forall₂ Stands (pieces.filterMap Piece.corner?)
      (bends (d.opposite.far m c :: c :: rest)) := by
  -- only `turn` and `empty` put a corner, and only there the axis changes
  induction h generalizing m with
  | @last d t c ht => exact .nil
  | @straight d t c n rest pieces ht hn h ih =>
      rw [bends_far hm hn, if_pos rfl]
      have hmore := ih hn
      rwa [far_opposite_far] at hmore
  | @back d t c n rest pieces ht hn h ih =>
      rw [bends_far hm hn, if_pos (by cases d <;> rfl)]
      have hmore := ih hn
      rwa [far_opposite_far] at hmore
  | @turn d e t c n rest pieces ht hn haxis h ih =>
      rw [bends_far hm hn, if_neg haxis]
      have hmore := ih hn
      rw [far_opposite_far] at hmore
      exact .cons (stands_turn hm hn haxis c) hmore
  | @empty d e c n rest pieces ht hn haxis h ih =>
      rw [bends_far hm hn, if_neg haxis]
      have hmore := ih hn
      rw [far_opposite_far] at hmore
      exact .cons (stands_turn hm hn haxis c) hmore

/-! ## Neighbours -/

/-- What two pieces of a plan that follow each other are. -/
inductive Meets (inset : Rat) : Piece Rat → Piece Rat → Prop
  /-- A line that comes in on a side of a corner. -/
  | enters {c : Cell} {k : Corner} {side : Side} {m : Rat} (hside : k.sides.at side = true)
      (hm : inset < m) : Meets inset (.segment (rim m c side) (rim inset c side)) (.corner c k)
  /-- A line that goes out on a side of a corner. -/
  | leaves {c : Cell} {k : Corner} {side : Side} {m : Rat} (hside : k.sides.at side = true)
      (hm : inset < m) : Meets inset (.corner c k) (.segment (rim inset c side) (rim m c side))
  /-- Two corners of neighbouring cells, with no room between their insets. -/
  | beside {c : Cell} {k l : Corner} {side : Side} (hinset : inset = 1 / 2)
      (hk : k.sides.at side = true) (hl : l.sides.at side.opposite = true) :
      Meets inset (.corner c k) (.corner (side.beyond c) l)
  /-- A line that goes back along the one before it. -/
  | reverses {c : Cell} {side : Side} {m n : Rat} (hm : 0 < m) (hn : 0 < n) :
      Meets inset (.segment (rim m c side) (middle c)) (.segment (middle c) (rim n c side))

/-- The first piece of a run that enters a cell. -/
inductive Opens (inset : Rat) (d : Side) (t : Rat) (c : Cell) : Piece Rat → Prop
  | segment {u : Rat} (hu : -t < u) :
      Opens inset d t c (.segment (d.ahead (-t) (middle c)) (d.ahead u (middle c)))
  | corner {k : Corner} (ht : t = inset) (hinset : 0 < inset)
      (hk : k.sides.at d.opposite = true) : Opens inset d t c (.corner c k)

section Neighbours

variable {inset t : Rat} {d e : Side} {c : Cell} {rest : List Cell} {pieces : List (Piece Rat)}

theorem Opens.toCentre (ht : 0 < t) :
    Opens inset d t c (.segment (d.ahead (-t) (middle c)) (middle c)) := by
  have hopens : Opens inset d t c (.segment (d.ahead (-t) (middle c)) (d.ahead 0 (middle c))) :=
    .segment (neg_lt_zero.2 ht)
  rwa [Side.ahead_zero] at hopens

theorem Run.opens (hinset : inset ≤ 1 / 2) (h : Run inset d t c rest pieces) :
    ∃ first more, pieces = first :: more ∧ Opens inset d t c first := by
  induction h with
  | @last d t c ht =>
      exact ⟨_, _, rfl, .toCentre ht⟩
  | @straight d t c n rest pieces ht hn h ih =>
      have hn' : (1 : Rat) ≤ n := by exact_mod_cast hn
      obtain ⟨first, more, rfl, hfirst⟩ := ih
      refine ⟨first, more, rfl, ?_⟩
      cases hfirst with
      | @segment u hu =>
          rw [start_straight, ahead_middle_far]
          exact .segment (by linarith)
      | corner ht' => linarith
  | @back d t c n rest pieces ht hn h ih =>
      exact ⟨_, _, rfl, .toCentre ht⟩
  | @turn d e t c n rest pieces ht hn haxis h ih =>
      exact ⟨_, _, rfl, .segment (neg_lt_neg ht)⟩
  | @empty d e c n rest pieces ht hn haxis h ih =>
      exact ⟨_, _, rfl, .corner rfl ht ((at_turn haxis _).2 (Or.inl rfl))⟩

/-- A line ends or begins between a corner and the next cell, or there is a corner on it. -/
theorem Opens.meets_corner {first : Piece Rat} {n : Int} {k : Corner} (hinset : inset ≤ 1 / 2)
    (hn : 1 ≤ n) (hk : k.sides.at e = true) (h : Opens inset e (n - inset) (e.far n c) first) :
    Meets inset (.corner c k) first := by
  have hn' : (1 : Rat) ≤ n := by exact_mod_cast hn
  cases h with
  | @segment u hu =>
      rw [start_turn, ahead_middle_far]
      exact .leaves hk (by linarith)
  | @corner l heq hpos hl =>
      -- two insets make up one cell at most
      have hone : n = 1 := by
        have hle : (n : Rat) ≤ 1 := by linarith
        exact le_antisymm (by exact_mod_cast hle) hn
      subst hone
      have hbeyond : e.far 1 c = e.beyond c := by cases e <;> rfl
      rw [hbeyond]
      refine .beside ?_ hk hl
      push_cast at heq
      linarith

theorem Run.isChain (hinset : 0 ≤ inset ∧ inset ≤ 1 / 2) (h : Run inset d t c rest pieces) :
    pieces.IsChain (Meets inset) := by
  induction h with
  | @last d t c ht => exact .singleton _
  | @straight d t c n rest pieces ht hn h ih => exact ih
  | @back d t c n rest pieces ht hn h ih =>
      have hn' : (1 : Rat) ≤ n := by exact_mod_cast hn
      obtain ⟨first, more, rfl, hfirst⟩ := h.opens hinset.2
      refine .cons_cons ?_ ih
      rw [← Side.ahead_opposite]
      cases hfirst with
      | @segment u hu =>
          rw [start_back, ahead_middle_far]
          exact .reverses ht (by linarith)
      | corner heq => linarith [hinset.2]
  | @turn d e t c n rest pieces ht hn haxis h ih =>
      obtain ⟨first, more, rfl, hfirst⟩ := h.opens hinset.2
      refine .cons_cons ?_ (.cons_cons (hfirst.meets_corner hinset.2 hn ?_) ih)
      · rw [← Side.ahead_opposite, ← Side.ahead_opposite]
        exact .enters ((at_turn haxis _).2 (Or.inl rfl)) ht
      · exact (at_turn haxis _).2 (Or.inr rfl)
  | @empty d e c n rest pieces ht hn haxis h ih =>
      obtain ⟨first, more, rfl, hfirst⟩ := h.opens hinset.2
      exact .cons_cons (hfirst.meets_corner hinset.2 hn ((at_turn haxis _).2 (Or.inr rfl))) ih

/-- A run that enters a cell from further out than a corner begins with a line. -/
theorem Run.begins (hinset : inset ≤ 1 / 2) (h : Run inset d t c rest pieces) (ht : inset < t) :
    ∃ p q more, pieces = .segment p q :: more := by
  obtain ⟨first, more, rfl, hfirst⟩ := h.opens hinset
  cases hfirst with
  | segment => exact ⟨_, _, _, rfl⟩
  | corner heq => exact absurd heq ht.ne'

/-- With corners squared off, runs that begin with a line lead along the cells from there. -/
theorem Run.along (hinset : 0 ≤ inset ∧ inset ≤ 1 / 2) (h : Run inset d t c rest pieces)
    (ht : inset < t) :
    SameWay (pieces.flatMap Piece.spine)
      (d.ahead (-t) (middle c) :: middle c :: rest.map middle) := by
  have hsame := h.sameWay hinset.1 le_rfl
  obtain ⟨first, more, rfl, hfirst⟩ := h.opens hinset.2
  cases hfirst with
  | @segment u hu =>
      -- the first line begins where the walk does
      have hagain := sameWay_between d le_rfl (by linarith : 0 ≤ u + t) (d.ahead (-t) (middle c))
        (more.flatMap Piece.spine)
      rw [Side.ahead_zero, Side.ahead_ahead, neg_add_cancel_comm_assoc] at hagain
      exact hagain.symm.trans hsame
  | corner heq => exact absurd heq ht.ne'

theorem Run.ends (h : Run inset d t c rest pieces) :
    ∃ p q more, pieces = more ++ [.segment p q] := by
  induction h with
  | last => exact ⟨_, _, [], rfl⟩
  | straight ht hn h ih => exact ih
  | back ht hn h ih =>
      obtain ⟨p, q, more, rfl⟩ := ih
      exact ⟨p, q, _ :: more, rfl⟩
  | turn ht hn haxis h ih =>
      obtain ⟨p, q, more, rfl⟩ := ih
      exact ⟨p, q, _ :: _ :: more, rfl⟩
  | empty ht hn haxis h ih =>
      obtain ⟨p, q, more, rfl⟩ := ih
      exact ⟨p, q, _ :: more, rfl⟩

end Neighbours

/-! ## Plans -/

/-- In exact arithmetic every list of points has a chain. -/
theorem exists_normalize (points : List (RawPoint Rat)) :
    ∃ chained, normalize points = .ok chained ∧ chained.IsChain Aligned := by
  have hcells : ∃ given, cells points = .ok given := by
    induction points with
    | nil => exact ⟨[], rfl⟩
    | cons p rest ih =>
        have hcell : ∃ c, p.cell? = .ok c := by
          unfold RawPoint.cell?
          split
          · exact ⟨_, rfl⟩
          · exact ⟨none, rfl⟩
        obtain ⟨c, hc⟩ := hcell
        obtain ⟨given, hgiven⟩ := ih
        exact ⟨c.toList ++ given, by rw [cells, hc, hgiven]; rfl⟩
  obtain ⟨given, hgiven⟩ := hcells
  exact ⟨chain given, by rw [normalize, hgiven]; rfl, isChain_chain given⟩

theorem inset_le (round : Bool) :
    0 ≤ (insetOf round : Rat) ∧ (insetOf round : Rat) ≤ 1 / 2 := by
  cases round
  · exact ⟨le_rfl, by norm_num [insetOf]⟩
  · exact ⟨by norm_num [insetOf, Scalar.half], le_rfl⟩

/-- One connected walk along a chain of cells: from the centre of the first one to that of the last
one, with a corner just where the chain turns off, and in pixels without a gap too. -/
structure Walk (round : Bool) (cells : List Cell) (pieces : List (Piece Rat)) : Prop where
  joined : ∀ first ∈ cells.head?, ∀ last ∈ cells.getLast?,
    Joined (insetOf round) (middle first) pieces (middle last)
  along : SameWay (pieces.flatMap Piece.spine) (cells.map middle)
  corners : List.Forall₂ Stands (pieces.filterMap Piece.corner?) (bends cells)
  neighbours : pieces.IsChain (Meets (insetOf round))
  begins : ∃ p q more, pieces = .segment p q :: more
  ends : ∃ p q more, pieces = more ++ [.segment p q]
  strokes : round = true → ∀ first ∈ cells.head?, ∀ last ∈ cells.getLast?,
    ∀ (width height : Rat) (style : Style Rat),
      Stroked (.of width height) style ((CellSize.of width height).centre (middle first)).real
        (Primitive.ofPlan { pieces := pieces } true)
        ((CellSize.of width height).centre (middle last)).real

theorem walk_planChain {a b : Cell} {rest : List Cell} (h : (a :: b :: rest).IsChain Aligned)
    (arrow : Arrow) (round : Bool) :
    Walk round (a :: b :: rest) (planChain (a :: b :: rest) arrow round : Plan Rat).pieces := by
  have hinset := inset_le round
  obtain ⟨hab, hrest⟩ := List.isChain_cons_cons.1 h
  obtain ⟨d, n, hn, rfl⟩ := exists_far hab
  have hn' : (1 : Rat) ≤ n := by exact_mod_cast hn
  -- the first run begins in the centre of the first cell, whole cells before it enters the second
  have hrun := run_piecesFrom hinset hrest (Side.heading_between_far d hn a) (t := n)
    (by linarith) (by linarith)
  rw [start_back] at hrun
  have hjoined (last : Cell) (hlast : last ∈ (a :: d.far n a :: rest).getLast?) :
      Joined (insetOf round) (middle a)
        (piecesFrom (insetOf round) (middle a) a (d.far n a) rest) (middle last) := by
    rw [Option.mem_def, List.getLast?_cons_cons] at hlast
    have hends := hrun.joined hlast
    rwa [start_back] at hends
  have halong := hrun.along hinset (by linarith)
  rw [start_back] at halong
  refine { joined := ?joined, along := halong, corners := ?corners,
           neighbours := hrun.isChain hinset, begins := ?begins, ends := hrun.ends,
           strokes := ?strokes }
  case joined =>
    intro first hfirst last hlast
    obtain rfl := Option.some.inj hfirst
    exact hjoined last hlast
  case corners =>
    -- seen from the second cell, the first one lies on the side that the run comes from
    have hcorners := hrun.corners hn
    rwa [far_opposite_far] at hcorners
  case begins =>
    apply hrun.begins hinset.2
    linarith [hinset.2]
  case strokes =>
    rintro rfl first hfirst last hlast width height style
    obtain rfl := Option.some.inj hfirst
    exact (hjoined last hlast).stroked width height style

/-- Exact numbers never stand for a fault. -/
theorem plan_of_normalize {points : List (RawPoint Rat)} {chained : List Cell}
    (h : normalize points = .ok chained) (arrow : Arrow) (round : Bool) :
    plan points arrow round = .ok (planChain chained arrow round) := by
  rw [plan, h]
  dsimp only [bind, Except.bind]
  rw [firstFault?_exact]

/-- Every list of points is planned: as nothing if it is a chain of fewer than two cells, and else
as one connected walk along its chain of cells. -/
theorem plan_walk (points : List (RawPoint Rat)) (arrow : Arrow) (round : Bool) :
    ∃ (cells : List Cell) (planned : Plan Rat),
      normalize points = .ok cells ∧ plan points arrow round = .ok planned ∧
        (cells.length < 2 → planned.pieces = [] ∧ planned.heads = []) ∧
        (2 ≤ cells.length → Walk round cells planned.pieces) := by
  obtain ⟨chained, hchained, haligned⟩ := exists_normalize points
  refine ⟨chained, planChain chained arrow round, hchained, ?_, ?_, ?_⟩
  · exact plan_of_normalize hchained arrow round
  · intro hshort
    match chained with
    | [] => exact ⟨rfl, rfl⟩
    | [_] => exact ⟨rfl, rfl⟩
  · intro hlong
    match chained with
    | a :: b :: rest => exact walk_planChain haligned arrow round

/-- Points with gaps among them: a step of one cell, and then a line that goes back a bit. -/
def stairs : List (RawPoint Rat) :=
  [some [some 0, some 0], none, some [some 1, some 0], some [some 5, none], some [some 1, some 1],
    some [some 3, some 1], some [some 2, some 1]]

theorem walk_stairs :
    Walk true [⟨0, 0⟩, ⟨1, 0⟩, ⟨1, 1⟩, ⟨3, 1⟩, ⟨2, 1⟩]
      [.segment ⟨0, 0⟩ ⟨1 / 2, 0⟩, .corner ⟨1, 0⟩ .topRight, .corner ⟨1, 1⟩ .bottomLeft,
        .segment ⟨3 / 2, 1⟩ ⟨3, 1⟩, .segment ⟨3, 1⟩ ⟨2, 1⟩] := by
  obtain ⟨chained, planned, hchained, hplanned, -, hwalk⟩ := plan_walk stairs .headless true
  have hcells : normalize stairs = .ok [⟨0, 0⟩, ⟨1, 0⟩, ⟨1, 1⟩, ⟨3, 1⟩, ⟨2, 1⟩] := by decide +kernel
  have hplan : plan stairs .headless true =
      .ok ⟨[.segment ⟨0, 0⟩ ⟨1 / 2, 0⟩, .corner ⟨1, 0⟩ .topRight, .corner ⟨1, 1⟩ .bottomLeft,
        .segment ⟨3 / 2, 1⟩ ⟨3, 1⟩, .segment ⟨3, 1⟩ ⟨2, 1⟩], []⟩ := by
    decide +kernel
  obtain rfl := Except.ok.inj (hchained.symm.trans hcells)
  obtain rfl := Except.ok.inj (hplanned.symm.trans hplan)
  exact hwalk (by decide)

end Connection
end CellSketch
