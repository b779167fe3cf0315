import CellSketch.Primitive
import CellSketch.Proofs.Connection.Halves
import CellSketch.Proofs.Scan.Painting

/-!
# Planned — the primitives of a connection and how far they reach

A connection is planned in halves of cells, and what is planned becomes lines, corners and heads.
Each of them is plain, drawn on cells of the grid and without a fault, and goes with the cell up to
which it reaches.

* `Plain` — plain primitives and the last cell of each;
* `Spans` — plain primitives that together reach exactly as far as some cells;
* `forall₂_piecesFrom` — segments end where they are planned to;
* `exists_connection` — there is a connection through any points of the grid;
* `exists_spanning_connection` — unless they are all one cell, it reaches exactly as far as they do.
-/

namespace CellSketch

open Number Connection

variable {α : Type} [Scalar α] {limit : Int}

/-- A cell in columns and rows from zero up to a limit. -/
def Cell.Within (limit : Int) (c : Cell) : Prop := (0 ≤ c.x ∧ c.x < limit) ∧ 0 ≤ c.y ∧ c.y < limit

/-- A position is so many halves from the centre of the first cell. -/
def Halves.At (H : Halves α limit) (p : Point α) (c : Cell) : Prop :=
  H.Stands p.x c.x ∧ H.Stands p.y c.y

/-- Primitives that meet no fault, each with the last cell for which it reserves room. -/
inductive Plain (H : Halves α limit) : Primitive α → Cell → Prop where
  | line {a b : Point α} {j k : Cell} (ha : H.At a j) (hb : H.At b k) :
      Plain H (.line a b .headless) (upTo j k)
  | roundCorner {c : Cell} (hc : c.Within limit) (corner : Corner) :
      Plain H (.roundCorner c corner) c
  | marker {c : Cell} (hc : c.Within limit) (marker : Marker) (sides : Sides) :
      Plain H (.marker c marker sides) c
  | head {c : Cell} {d : Int} (hc : c.Within limit) (hd : -360 ≤ d ∧ d ≤ 360) :
      Plain H (.head (Primitive.position c) (.degrees (Scalar.measured d))) c
  | rectangle {a b : Cell} (ha : a.Within limit) (hb : b.Within limit) (round : Bool) :
      Plain H (.rectangle a b round) (Primitive.farther a b)
  | text {c : Cell} (hc : c.Within limit) (text : String) :
      Plain H (.text c text) ⟨c.x + text.length, c.y⟩
  | run {axis : Axis} {lane first last : Int} (hfirst : (axis.cellAt lane first).Within limit)
      (hlast : (axis.cellAt lane last).Within limit) (arrow : Arrow) :
      Plain H (.run axis lane first last arrow) (axis.cellAt lane (max first last))
  | crossing {c : Cell} (hc : c.Within limit) : Plain H (.crossing c) c

/-- Primitives that meet no fault and together reach exactly as far as cells do. -/
def Spans (H : Halves α limit) (ps : List (Primitive α)) (cells : List Cell) : Prop :=
  ∃ ends, List.Forall₂ (Plain H) ps ends ∧ SameReach ends cells

namespace Spans

variable {H : Halves α limit} {ps qs : List (Primitive α)} {cells others : List Cell}

theorem nil : Spans H [] [] := ⟨[], .nil, .refl []⟩

theorem append (h : Spans H ps cells) (h' : Spans H qs others) :
    Spans H (ps ++ qs) (cells ++ others) := by
  obtain ⟨ends, hplain, hreach⟩ := h
  obtain ⟨ends', hplain', hreach'⟩ := h'
  exact ⟨ends ++ ends', List.rel_append hplain hplain', hreach.append hreach'⟩

theorem flatMap {β : Type} {items : List β} {draw : β → List (Primitive α)} {cell : β → Cell}
    (h : ∀ b ∈ items, Spans H (draw b) [cell b]) :
    Spans H (items.flatMap draw) (items.map cell) := by
  induction items with
  | nil => exact nil
  | cons b rest ih =>
      obtain ⟨hfirst, hrest⟩ := List.forall_mem_cons.1 h
      exact hfirst.append (ih hrest)

end Spans

namespace Connection

/-- Pieces of a plan with the cells up to which they reach. -/
inductive Piece.Reaches (H : Halves α limit) : Piece α → Cell → Prop where
  | segment {a b : Point α} {j k : Cell} (ha : H.At a j) (hb : H.At b k) :
      Reaches H (.segment a b) (upTo j k)
  | corner {c : Cell} (hc : c.Within limit) (corner : Corner) : Reaches H (.corner c corner) c

/-- Cells as the points of a connection. -/
def pointsThrough (α : Type) [Scalar α] (cells : List Cell) : List (RawPoint α) :=
  cells.map fun c => some [some (Scalar.whole c.x), some (Scalar.whole c.y)]

section Pieces

variable (H : Halves α limit)

theorem sign_cases (n : Int) : n.sign = -1 ∨ n.sign = 0 ∨ n.sign = 1 := by
  rcases lt_trichotomy n 0 with hneg | rfl | hpos
  · exact Or.inl (Int.sign_eq_neg_one_of_neg hneg)
  · exact Or.inr (Or.inl rfl)
  · exact Or.inr (Or.inr (Int.sign_eq_one_of_pos hpos))

theorem at_middle {c : Cell} (hc : c.Within limit) : H.At (middle c) (doubled c) :=
  ⟨H.middle hc.1.1 hc.1.2.le, H.middle hc.2.1 hc.2.2.le⟩

theorem at_before {c : Cell} (hc : c.Within limit) (a b : Cell) (round : Bool) :
    H.At (before (insetOf round) c (.between a b))
      (halfBefore (insetHalves round) c (.between a b)) :=
  ⟨H.before round hc.1.1 hc.1.2.le (sign_cases _), H.before round hc.2.1 hc.2.2.le (sign_cases _)⟩

theorem at_after {c : Cell} (hc : c.Within limit) (a b : Cell) (round : Bool) :
    H.At (after (insetOf round) c (.between a b))
      (halfAfter (insetHalves round) c (.between a b)) :=
  ⟨H.after round hc.1.1 hc.1.2.le (sign_cases _), H.after round hc.2.1 hc.2.2.le (sign_cases _)⟩

variable {H}

/-- A segment is left out just if it has no length. -/
theorem forall₂_segment {a b : Point α} {j k : Cell} (ha : H.At a j) (hb : H.At b k) :
    List.Forall₂ (Piece.Reaches H) (segment a b) (segmentEnd j k) := by
  have hiff : (a.x == b.x && a.y == b.y) = true ↔ j = k := by
    rw [H.beq ha.1 hb.1, H.beq ha.2 hb.2, Bool.and_eq_true, decide_eq_true_iff, decide_eq_true_iff]
    cases j
    cases k
    rw [Cell.mk.injEq]
  rw [segment, segmentEnd]
  by_cases h : j = k
  · rw [if_pos (hiff.2 h), if_pos h]
    exact .nil
  · rw [if_neg (mt hiff.1 h), if_neg h]
    exact .cons (.segment ha hb) .nil

/-- Segments end where they are planned to, counted in halves of cells. -/
theorem forall₂_piecesFrom (round : Bool) {start : Point α} {s previous cell : Cell}
    {rest : List Cell} (hstart : H.At start s)
    (hcells : ∀ c ∈ cell :: rest, c.Within limit) :
    List.Forall₂ (Piece.Reaches H) (piecesFrom (insetOf round) start previous cell rest)
      (farEnds (insetHalves round) s previous cell rest) := by
  induction rest generalizing start s previous cell with
  | nil => exact forall₂_segment hstart (at_middle H (hcells cell List.mem_cons_self))
  | cons next rest ih =>
      obtain ⟨hcell, hmore⟩ := List.forall_mem_cons.1 hcells
      rw [piecesFrom, farEnds]
      -- straight on the segment grows, back it ends in the centre, and around a corner before it
      split
      · split
        · exact ih hstart hmore
        · exact List.rel_append (forall₂_segment hstart (at_middle H hcell))
            (ih (at_middle H hcell) hmore)
      · refine List.rel_append (forall₂_segment hstart (at_before H hcell _ _ round)) ?_
        exact .cons (.corner hcell _) (ih (at_after H hcell _ _ round) hmore)

end Pieces

/-! ## Whole connections -/

section Whole

variable {H : Halves α limit} {points : List Cell}

theorem fault_of_reaches {piece : Piece α} {c : Cell} (h : piece.Reaches H c) :
    ∀ x ∈ piece.numbers, Scalar.fault? x = none := by
  cases h with
  | segment ha hb =>
      have hx := H.fault_none (H.usable ha.1)
      have hy := H.fault_none (H.usable ha.2)
      have hx' := H.fault_none (H.usable hb.1)
      have hy' := H.fault_none (H.usable hb.2)
      simp [Piece.numbers, hx, hy, hx', hy']
  | corner => simp [Piece.numbers]

theorem normalize_pointsThrough (H : Halves α limit) (points : List Cell) :
    normalize (pointsThrough α points) = .ok (chain points) := by
  have hcells : cells (pointsThrough α points) = .ok points := by
    induction points with
    | nil => rfl
    | cons c rest ih =>
        have hcell : RawPoint.cell? (some [some (Scalar.whole c.x : α), some (Scalar.whole c.y)]) =
            .ok (some c) := by
          rw [RawPoint.cell?, H.trunc_whole, H.trunc_whole]
          rfl
        rw [pointsThrough, List.map_cons, cells, hcell]
        rw [pointsThrough] at ih
        rw [ih]
        rfl
  rw [normalize, hcells]
  rfl

theorem mem_of_firstMove? {given : List Cell} {move : Cell × Cell}
    (h : firstMove? given = some move) : move.1 ∈ given ∧ move.2 ∈ given := by
  match given, h with
  | a :: b :: rest, h =>
      cases h
      simp

theorem mem_of_lastMove? {given : List Cell} {move : Cell × Cell}
    (h : lastMove? given = some move) : move.1 ∈ given ∧ move.2 ∈ given := by
  induction given with
  | nil => cases h
  | cons a rest ih =>
      match rest, ih, h with
      | [], _, h => cases h
      | [b], _, h =>
          cases h
          simp
      | b :: c :: rest, ih, h =>
          obtain ⟨hfirst, hsecond⟩ := ih h
          exact ⟨List.mem_cons_of_mem a hfirst, List.mem_cons_of_mem a hsecond⟩

theorem within_chain (h : ∀ c ∈ points, c.Within limit) : ∀ c ∈ chain points, c.Within limit :=
  forall_mem_chain (P := fun x => 0 ≤ x ∧ x < limit) (Q := fun y => 0 ≤ y ∧ y < limit) h

/-- A chain reaches as far as the points that it is made of. -/
theorem sameReach_chain (points : List Cell) : SameReach (chain points) points := by
  refine (SameReach.of_subset (subset_chain points) fun axis c hc => ?_).symm
  obtain ⟨p, hp, heq⟩ := exists_of_mem_chain hc axis
  exact ⟨p, hp, heq.ge⟩

theorem degrees_bounds (h : Heading) : -90 ≤ h.degrees ∧ h.degrees ≤ 180 := by
  unfold Heading.degrees
  split
  · decide
  · split
    · decide
    · split <;> decide

/-- The moves whose angles are worked out lie on the chain. -/
theorem mem_of_mem_moves {given : List Cell} {arrow : Arrow} {move : Cell × Cell}
    (h : move ∈ startMove given arrow ++ endMove given arrow) :
    move.1 ∈ given ∧ move.2 ∈ given := by
  rcases List.mem_append.1 h with h | h
  · unfold startMove at h
    split at h
    · exact mem_of_firstMove? (Option.mem_toList.1 h)
    · cases h
  · unfold endMove at h
    split at h
    · exact mem_of_lastMove? (Option.mem_toList.1 h)
    · cases h

/-- Heads stand on cells of the chain. -/
theorem heads_planChain {given : List Cell} {arrow : Arrow} {round : Bool} {head : Head}
    (h : head ∈ (planChain given arrow round : Plan α).heads) :
    head.cell ∈ given ∧ -360 ≤ head.degrees ∧ head.degrees ≤ 360 := by
  match given, h with
  | first :: second :: rest, h =>
      rcases List.mem_append.1 h with h | h
      · obtain ⟨move, hmove, rfl⟩ := List.mem_map.1 h
        have hbounds := degrees_bounds (.between move.1 move.2)
        refine ⟨(mem_of_mem_moves (List.mem_append_left _ hmove)).1, ?_⟩
        simp only [startHead]
        omega
      · obtain ⟨move, hmove, rfl⟩ := List.mem_map.1 h
        have hbounds := degrees_bounds (.between move.1 move.2)
        refine ⟨(mem_of_mem_moves (List.mem_append_right _ hmove)).2, ?_⟩
        simp only [endHead]
        omega

theorem fault_of_difference (H : Halves α limit) {move : Cell × Cell} (hfirst : move.1.Within limit)
    (hsecond : move.2.Within limit) : ∀ x ∈ differences move, Scalar.fault? (x : α) = none := by
  obtain ⟨hx, hy⟩ := hfirst
  obtain ⟨hx', hy'⟩ := hsecond
  intro x hmem
  simp only [differences, List.mem_cons, List.not_mem_nil, or_false] at hmem
  rcases hmem with rfl | rfl <;> exact H.fault_whole (by omega) (by omega)

/-- Planning meets no fault. -/
theorem plan_pointsThrough (h : ∀ c ∈ points, c.Within limit) {arrow : Arrow} {round : Bool}
    {ends : List Cell} (hpieces : List.Forall₂ (Piece.Reaches H)
      (planChain (chain points) arrow round : Plan α).pieces ends) :
    plan (pointsThrough α points) arrow round = .ok (planChain (chain points) arrow round) := by
  have hfaults := ((List.forall₂_and_left _ _).1
    (hpieces.imp fun _ _ hpiece => ⟨fault_of_reaches hpiece, hpiece⟩)).1
  have hnone : Scalar.firstFault? ((planChain (chain points) arrow round : Plan α).pieces.flatMap
      Piece.numbers ++ (startMove (chain points) arrow ++ endMove (chain points) arrow).flatMap
        differences) = none := by
    refine List.findSome?_eq_none_iff.2 fun x hx => ?_
    rcases List.mem_append.1 hx with hx | hx
    · obtain ⟨piece, hpiece, hx⟩ := List.mem_flatMap.1 hx
      exact hfaults piece hpiece x hx
    · obtain ⟨move, hmove, hx⟩ := List.mem_flatMap.1 hx
      obtain ⟨hfirst, hsecond⟩ := mem_of_mem_moves hmove
      exact fault_of_difference H (within_chain h _ hfirst) (within_chain h _ hsecond) x hx
  rw [plan, normalize_pointsThrough H]
  simp only [bind, Except.bind, hnone]

/-- What is planned becomes plain primitives. -/
theorem plain_ofPlan {plan : Plan α} {ends : List Cell}
    (hpieces : List.Forall₂ (Piece.Reaches H) plan.pieces ends)
    (hheads : ∀ head ∈ plan.heads, head.cell.Within limit ∧ -360 ≤ head.degrees ∧
      head.degrees ≤ 360) (round : Bool) :
    List.Forall₂ (Plain H) (Primitive.ofPlan plan round) (ends ++ plan.heads.map (·.cell)) := by
  refine List.rel_append ?_ ?_
  · rw [List.forall₂_map_left_iff]
    refine hpieces.imp fun piece c hpiece => ?_
    cases hpiece with
    | segment ha hb => exact .line ha hb
    | corner hc corner =>
        cases round
        · exact .marker hc _ _
        · exact .roundCorner hc _
  · rw [List.forall₂_map_left_iff, List.forall₂_map_right_iff, List.forall₂_same]
    exact fun head hhead => .head (hheads head hhead).1 (hheads head hhead).2

/-- Where nothing is planned, nothing is drawn. -/
theorem connection_of_planChain (H : Halves α limit) (h : ∀ c ∈ points, c.Within limit)
    {arrow : Arrow} {round : Bool} (hplan : (planChain (chain points) arrow round : Plan α) = {}) :
    Primitive.connection (pointsThrough α points) arrow round = .ok [] := by
  have hpieces : List.Forall₂ (Piece.Reaches H)
      (planChain (chain points) arrow round : Plan α).pieces [] := by
    rw [hplan]
    exact .nil
  rw [Primitive.connection, plan_pointsThrough h hpieces, hplan]
  rfl

/-- There is a connection through any points of the grid.  Its primitives reach exactly as far as
the points do; there are none if the points are all one cell. -/
theorem exists_connection (H : Halves α limit) (h : ∀ c ∈ points, c.Within limit) (arrow : Arrow)
    (round : Bool) : ∃ ps ends, Primitive.connection (pointsThrough α points) arrow round = .ok ps ∧
      List.Forall₂ (Plain H) ps ends ∧
      (SameReach ends points ∨ ends = [] ∧ ∀ a ∈ points, ∀ b ∈ points, a = b) := by
  have hmem := subset_chain points
  have hwithin := within_chain h
  have haligned := isChain_chain points
  have hreach := sameReach_chain points
  have hheads {head : Head} := @heads_planChain α _ (chain points) arrow round head
  -- a chain of less than two cells is that of a single point, and is not drawn
  rcases hchain : chain points with _ | ⟨first, _ | ⟨second, rest⟩⟩
  · refine ⟨[], [], connection_of_planChain H h (by rw [hchain]; rfl), .nil, .inr ⟨rfl, ?_⟩⟩
    rw [hchain] at hmem
    exact fun a ha => nomatch hmem ha
  · refine ⟨[], [], connection_of_planChain H h (by rw [hchain]; rfl), .nil, .inr ⟨rfl, ?_⟩⟩
    rw [hchain] at hmem
    exact fun a ha b hb =>
      (List.mem_singleton.1 (hmem ha)).trans (List.mem_singleton.1 (hmem hb)).symm
  rw [hchain] at hwithin haligned hreach hheads
  obtain ⟨hfirst, hmore⟩ := List.forall_mem_cons.1 hwithin
  have hpieces : List.Forall₂ (Piece.Reaches H) (planChain (first :: second :: rest) arrow round :
      Plan α).pieces _ := forall₂_piecesFrom round (at_middle H hfirst) hmore
  have hinset : 0 ≤ insetHalves round ∧ insetHalves round ≤ 1 := by
    cases round <;> decide
  refine ⟨_, _, ?_, plain_ofPlan hpieces (fun head hhead => ?_) round, .inl ?_⟩
  · rw [Primitive.connection, plan_pointsThrough h (hchain ▸ hpieces), hchain]
    rfl
  · exact ⟨hwithin _ (hheads hhead).1, (hheads hhead).2⟩
  · refine ((sameReach_farEnds hinset haligned).append_of_subset fun c hc => ?_).trans hreach
    obtain ⟨head, hhead, rfl⟩ := List.mem_map.1 hc
    exact (hheads hhead).1

/-- Unless the points are all one cell, the connection spans them. -/
theorem exists_spanning_connection (H : Halves α limit) (h : ∀ c ∈ points, c.Within limit)
    (hne : ∃ a ∈ points, ∃ b ∈ points, a ≠ b) (arrow : Arrow) (round : Bool) :
    ∃ ps, Primitive.connection (pointsThrough α points) arrow round = .ok ps ∧
      Spans H ps points := by
  obtain ⟨ps, ends, hps, hplain, hreach⟩ := exists_connection H h arrow round
  refine ⟨ps, hps, ends, hplain, hreach.resolve_right fun hone => ?_⟩
  obtain ⟨a, ha, b, hb, hne⟩ := hne
  exact hne (hone.2 a ha b hb)

end Whole

end Connection

end CellSketch
