import CellSketch.Proofs.Connection.Spliced
import CellSketch.Proofs.Connection.Walk
import CellSketch.Proofs.Flow.HeadOn

/-!
# Merging — merged points have the same plan

Merging drops a point for the two neighbours that it has in the full list.  Planning drops points
too, but carries along where the current run started and compares directions.  On points that never
go back both pick the same ones, so a merged list is planned like the full one.

In doubles there is one thing more to it: the angle of a head is worked out from both differences of
a whole move, and a run that is merged into one move may be longer than any double.  On cells from
zero up such a run ends in a cell that no double reaches, and is not planned in any case.

* `mergeStraight_eq_bends` — the points that are kept are the ends and those where the axis changes;
* `stretch`, `track` — the cells that a point list runs over, in order;
* `Merging` — one run after another, with what merging keeps of it;
* `Prolonged` — a move that stands for several ones of its heading;
* `Overlong`, `Faraway` — a move whose differences, and a cell whose coordinates fit in no double;
* `firstFault?_piecesFrom` — a plan that passes no cell straight fails on such a cell;
* `mergeStraight_planned` — merging changes neither the cells nor the plan.
-/

namespace CellSketch
namespace Connection

open Number

/-! ## Cells along a chain -/

/-- How many cells a straight move goes. -/
def reach (a b : Cell) : Nat := (b.x - a.x).natAbs + (b.y - a.y).natAbs

/-- The cells from one cell, which is left out, straight to another one. -/
def stretch (a b : Cell) : List Cell :=
  (List.range (reach a b)).map fun (k : Nat) =>
    ⟨a.x + (k + 1) * (Heading.between a b).dx, a.y + (k + 1) * (Heading.between a b).dy⟩

/-- The cells behind the first one. -/
def trackFrom (last : Cell) : List Cell → List Cell
  | [] => []
  | c :: rest => stretch last c ++ trackFrom c rest

/-- The cells that a point list runs over, in the order in which it does. -/
def track : List Cell → List Cell
  | [] => []
  | c :: rest => c :: trackFrom c rest

/-- Two moves with one heading, one behind the other, are on one line and go on along it. -/
theorem Aligned.straight_cases {a p c : Cell} (hpc : Aligned p c)
    (h : Heading.between a p = Heading.between p c) :
    (Heading.between p c = ⟨0, 1⟩ ∧ (a.x = p.x ∧ p.x = c.x) ∧ a.y < p.y ∧ p.y < c.y) ∨
      (Heading.between p c = ⟨0, -1⟩ ∧ (a.x = p.x ∧ p.x = c.x) ∧ p.y < a.y ∧ c.y < p.y) ∨
      (Heading.between p c = ⟨1, 0⟩ ∧ (a.y = p.y ∧ p.y = c.y) ∧ a.x < p.x ∧ p.x < c.x) ∨
      (Heading.between p c = ⟨-1, 0⟩ ∧ (a.y = p.y ∧ p.y = c.y) ∧ p.x < a.x ∧ c.x < p.x) := by
  rcases hpc.heading_cases with hd | hd | hd | hd
  · obtain ⟨hx, hy⟩ := Heading.between_eq_down.1 hd
    obtain ⟨hx', hy'⟩ := Heading.between_eq_down.1 (h.trans hd)
    exact Or.inl ⟨hd, ⟨hx', hx⟩, hy', hy⟩
  · obtain ⟨hx, hy⟩ := Heading.between_eq_up.1 hd
    obtain ⟨hx', hy'⟩ := Heading.between_eq_up.1 (h.trans hd)
    exact Or.inr (Or.inl ⟨hd, ⟨hx', hx⟩, hy', hy⟩)
  · obtain ⟨hx, hy⟩ := Heading.between_eq_right.1 hd
    obtain ⟨hx', hy'⟩ := Heading.between_eq_right.1 (h.trans hd)
    exact Or.inr (Or.inr (Or.inl ⟨hd, ⟨hy', hy⟩, hx', hx⟩))
  · obtain ⟨hx, hy⟩ := Heading.between_eq_left.1 hd
    obtain ⟨hx', hy'⟩ := Heading.between_eq_left.1 (h.trans hd)
    exact Or.inr (Or.inr (Or.inr ⟨hd, ⟨hy', hy⟩, hx', hx⟩))

/-- Two stretches with one heading are one. -/
theorem stretch_append {a p c : Cell} (hpc : Aligned p c)
    (h : Heading.between a p = Heading.between p c) :
    stretch a p ++ stretch p c = stretch a c := by
  obtain ⟨-, hac, -⟩ := hpc.extend h
  have hcases := hpc.straight_cases h
  have hreach : reach a c = reach a p + reach p c := by
    unfold reach
    omega
  rw [stretch, stretch, stretch, hreach, List.range_add, List.map_append, List.map_map, h, hac]
  -- behind `p`, the cells counted from `a` are those counted from `p`
  refine congrArg _ (List.map_congr_left fun k _ => ?_)
  rw [Function.comp_apply, Cell.mk.injEq, reach]
  rcases hcases with ⟨hd, hline⟩ | ⟨hd, hline⟩ | ⟨hd, hline⟩ | ⟨hd, hline⟩
  all_goals
    rw [hd]
    dsimp only
    omega

/-! ## Longer moves -/

/-- A move that stands for another one and more moves with the same heading. -/
structure Prolonged (move longer : Cell × Cell) : Prop where
  heading : Heading.between longer.1 longer.2 = Heading.between move.1 move.2
  columns : (move.2.x - move.1.x).natAbs ≤ (longer.2.x - longer.1.x).natAbs
  rows : (move.2.y - move.1.y).natAbs ≤ (longer.2.y - longer.1.y).natAbs

namespace Prolonged

variable {move longer longest : Cell × Cell}

theorem refl (move : Cell × Cell) : Prolonged move move := ⟨rfl, le_rfl, le_rfl⟩

theorem trans (h : Prolonged move longer) (h' : Prolonged longer longest) :
    Prolonged move longest where
  heading := h'.heading.trans h.heading
  columns := h.columns.trans h'.columns
  rows := h.rows.trans h'.rows

theorem startHead_eq (h : Prolonged move longer) (hstart : longer.1 = move.1) :
    startHead longer = startHead move := by
  rw [startHead, startHead, h.heading, hstart]

theorem endHead_eq (h : Prolonged move longer) (hend : longer.2 = move.2) :
    endHead longer = endHead move := by
  rw [endHead, endHead, h.heading, hend]

end Prolonged

/-- Of two moves with one heading, one behind the other, the whole stands for both. -/
theorem Aligned.prolonged {a p c : Cell} (hpc : Aligned p c)
    (h : Heading.between a p = Heading.between p c) :
    Prolonged (a, p) (a, c) ∧ Prolonged (p, c) (a, c) := by
  obtain ⟨-, hac, -⟩ := hpc.extend h
  have hcases := hpc.straight_cases h
  have hlengths : ((p.x - a.x).natAbs ≤ (c.x - a.x).natAbs ∧
      (p.y - a.y).natAbs ≤ (c.y - a.y).natAbs) ∧
      (c.x - p.x).natAbs ≤ (c.x - a.x).natAbs ∧ (c.y - p.y).natAbs ≤ (c.y - a.y).natAbs := by
    omega
  exact ⟨⟨hac.trans h.symm, hlengths.1.1, hlengths.1.2⟩, hac, hlengths.2.1, hlengths.2.2⟩

/-! ## Merged runs -/

/-- What merging makes of a chain that runs on from a kept cell: the next kept cell and those behind
it, for the next cell of the chain and those behind it. -/
inductive Merging : (kept cell : Cell) → (rest : List Cell) → (next : Cell) → (more : List Cell) →
    Prop
  | last (k c : Cell) : Merging k c [] c []
  | straight {k c n m : Cell} {rest more : List Cell} (hcn : Aligned c n)
      (hsame : Heading.between k c = Heading.between c n) (h : Merging k n rest m more) :
      Merging k c (n :: rest) m more
  | turn {k c n m : Cell} {rest more : List Cell}
      (haxis : (Heading.between k c).axis ≠ (Heading.between c n).axis)
      (h : Merging c n rest m more) : Merging k c (n :: rest) c (m :: more)

namespace Merging

variable {k c m : Cell} {rest more : List Cell}

/-- The first move is prolonged up to the first kept cell. -/
theorem first (h : Merging k c rest m more) : Prolonged (k, c) (k, m) := by
  induction h with
  | last => exact .refl _
  | straight hcn hsame _ ih => exact (hcn.prolonged hsame).1.trans ih
  | turn => exact .refl _

/-- The last move is prolonged back to the last kept cell before it. -/
theorem last_move (h : Merging k c rest m more) : ∃ a b z,
    lastMove? (k :: c :: rest) = some (b, z) ∧ lastMove? (k :: m :: more) = some (a, z) ∧
      Prolonged (b, z) (a, z) := by
  induction h with
  | last k c => exact ⟨k, k, c, rfl, rfl, .refl _⟩
  | @straight k c n m rest more hcn hsame _ ih =>
      obtain ⟨a, b, z, hfull, hmerged, hlonger⟩ := ih
      match rest, hfull with
      | [], hfull =>
          obtain ⟨rfl, rfl⟩ := Prod.mk.inj (Option.some.inj hfull)
          exact ⟨a, c, n, rfl, hmerged, (hcn.prolonged hsame).2.trans hlonger⟩
      | r :: rest, hfull => exact ⟨a, b, z, hfull, hmerged, hlonger⟩
  | @turn k c n m rest more _ _ ih =>
      obtain ⟨a, b, z, hfull, hmerged, hlonger⟩ := ih
      exact ⟨a, b, z, hfull, hmerged, hlonger⟩

theorem trackFrom_eq (h : Merging k c rest m more) :
    trackFrom k (m :: more) = trackFrom k (c :: rest) := by
  induction h with
  | last => rfl
  | straight hcn hsame _ ih =>
      rw [ih, trackFrom, trackFrom, trackFrom, ← List.append_assoc, stretch_append hcn hsame]
  | turn _ _ ih => rw [trackFrom, ih, ← trackFrom]

section Pieces

variable {α : Type} [Scalar α] {inset : α}

/-- Only the heading of the move into a cell counts for the pieces from there. -/
theorem piecesFrom_congr {p q c : Cell} (h : Heading.between p c = Heading.between q c)
    (start : Point α) (rest : List Cell) :
    piecesFrom inset start p c rest = piecesFrom inset start q c rest := by
  cases rest with
  | nil => rfl
  | cons n rest => rw [piecesFrom, piecesFrom, h]

/-- The pieces along a merged chain are those along the full one. -/
theorem piecesFrom_eq (h : Merging k c rest m more) (start : Point α) :
    piecesFrom inset start k m more = piecesFrom inset start k c rest := by
  induction h generalizing start with
  | last => rfl
  | @straight k c n m rest more hcn hsame _ ih =>
      -- the full chain goes on from `c`, the merged one from `k`, with one heading
      have hheading := (hcn.prolonged hsame).2.heading
      rw [ih, piecesFrom, if_pos (congrArg _ hsame), if_pos hsame, piecesFrom_congr hheading]
  | @turn k c n m rest more haxis h ih =>
      have hheading : Heading.between c m = Heading.between c n := h.first.heading
      rw [piecesFrom, piecesFrom, hheading, if_neg haxis, if_neg haxis, ih]

end Pieces

end Merging

/-! ## Overlong moves -/

/-- A move with a difference that fits in no double. -/
def Overlong (move : Cell × Cell) : Prop :=
  doubleLimit ≤ (move.2.x - move.1.x).natAbs ∨ doubleLimit ≤ (move.2.y - move.1.y).natAbs

instance (move : Cell × Cell) : Decidable (Overlong move) := inferInstanceAs (Decidable (_ ∨ _))

/-- The moves of a chain whose angles are worked out for its heads. -/
def headed (cells : List Cell) (arrow : Arrow) : List (Cell × Cell) :=
  startMove cells arrow ++ endMove cells arrow

/-- A merged chain has the same plan, in every arithmetic. -/
theorem Merging.planChain_eq {α : Type} [Scalar α] {k c m : Cell} {rest more : List Cell}
    (h : Merging k c rest m more) (arrow : Arrow) (round : Bool) :
    (planChain (k :: m :: more) arrow round : Plan α) = planChain (k :: c :: rest) arrow round := by
  have hstart : (startMove (k :: m :: more) arrow).map startHead =
      (startMove (k :: c :: rest) arrow).map startHead := by
    rw [startMove, startMove]
    split
    · exact congrArg (fun head => [head]) (h.first.startHead_eq rfl)
    · rfl
  have hend : (endMove (k :: m :: more) arrow).map endHead =
      (endMove (k :: c :: rest) arrow).map endHead := by
    obtain ⟨a, b, z, hfull, hmerged, hlonger⟩ := h.last_move
    rw [endMove, endMove, hfull, hmerged]
    split
    · exact congrArg (fun head => [head]) (hlonger.endHead_eq rfl)
    · rfl
  rw [planChain, planChain, h.piecesFrom_eq, hstart, hend]

theorem Prolonged.overlong {move longer : Cell × Cell} (h : Prolonged move longer)
    (hmove : Overlong move) : Overlong longer :=
  hmove.imp h.columns.trans' h.rows.trans'

/-- If a head of a chain has an overlong move, so has one of the merged chain. -/
theorem Merging.overlong {k c m : Cell} {rest more : List Cell} (h : Merging k c rest m more)
    {arrow : Arrow} (hlong : ∃ move ∈ headed (k :: c :: rest) arrow, Overlong move) :
    ∃ move ∈ headed (k :: m :: more) arrow, Overlong move := by
  obtain ⟨move, hmove, hmoveLong⟩ := hlong
  rcases List.mem_append.1 hmove with hmove | hmove
  · rw [startMove] at hmove
    split at hmove
    · rename_i hat
      obtain rfl : move = (k, c) := by simpa [firstMove?] using hmove
      refine ⟨(k, m), List.mem_append_left _ ?_, h.first.overlong hmoveLong⟩
      simp [startMove, hat, firstMove?]
    · cases hmove
  · obtain ⟨a, b, z, hfull, hmerged, hlonger⟩ := h.last_move
    rw [endMove, hfull] at hmove
    split at hmove
    · rename_i hat
      obtain rfl : move = (b, z) := by simpa using hmove
      refine ⟨(a, z), List.mem_append_right _ ?_, hlonger.overlong hmoveLong⟩
      simp [endMove, hat, hmerged]
    · cases hmove

theorem fault?_whole_eq (n : Int) :
    Scalar.fault? (Scalar.whole n : Measure) = if n.natAbs < doubleLimit then none else
      some .tooLarge := by
  have hfault : Scalar.fault? (Scalar.whole n : Measure) =
      if (Binary64.ofInt? n).isSome then none else some .tooLarge := rfl
  simp only [hfault, isSome_ofInt?_iff]

theorem firstFault?_differences {moves : List (Cell × Cell)} :
    Scalar.firstFault? (moves.flatMap differences : List Measure) = none ↔
      ∀ move ∈ moves, ¬ Overlong move := by
  simp only [Scalar.firstFault?, List.findSome?_eq_none_iff, List.mem_flatMap, Overlong, not_or,
    not_le]
  constructor
  · intro h move hmove
    have hx := h _ ⟨move, hmove, List.mem_cons_self⟩
    have hy := h _ ⟨move, hmove, List.mem_cons_of_mem _ List.mem_cons_self⟩
    simpa [fault?_whole_eq] using And.intro hx hy
  · rintro h x ⟨move, hmove, hx⟩
    obtain ⟨hcolumns, hrows⟩ := h move hmove
    simp only [differences, List.mem_cons, List.not_mem_nil, or_false] at hx
    rcases hx with rfl | rfl
    · rw [fault?_whole_eq, if_pos hcolumns]
    · rw [fault?_whole_eq, if_pos hrows]

theorem fault_eq_tooLarge {numbers : List Measure} {fault : Fault}
    (h : Scalar.firstFault? numbers = some fault) : fault = .tooLarge := by
  obtain ⟨m, -, hm⟩ := List.exists_of_findSome?_eq_some h
  cases m with
  | whole n =>
      have hwhole := fault?_whole_eq n
      rw [show (Scalar.whole n : Measure) = .whole n from rfl, hm] at hwhole
      split at hwhole
      · cases hwhole
      · exact Option.some.inj hwhole
  | real x => cases hm
  | tooLarge => exact (Option.some.inj hm).symm

section Plans

variable {cells others : List Cell} {arrow : Arrow} {round : Bool}

theorem firstFault?_append (front back : List Measure) :
    Scalar.firstFault? (front ++ back) =
      (Scalar.firstFault? front).or (Scalar.firstFault? back) :=
  List.findSome?_append

/-- A number that fits in no double, in a piece or for a head, ends the plan. -/
theorem plan_of_fault (h : cells.IsChain Aligned)
    (hfault : Scalar.firstFault? ((planChain cells arrow round : Plan Measure).pieces.flatMap
      Piece.numbers ++ (headed cells arrow).flatMap differences) ≠ none) :
    plan (pointsThrough Measure cells) arrow round = .error .tooLarge := by
  rw [plan, normalize_of_aligned h]
  dsimp only [bind, Except.bind]
  rw [← headed]
  split
  next fault heq => rw [fault_eq_tooLarge heq]
  next heq => exact absurd heq hfault

/-- Apart from overlong moves, what fails in doubles is told by the plan itself. -/
theorem plan_congr (h : cells.IsChain Aligned) (h' : others.IsChain Aligned)
    (hplan : (planChain cells arrow round : Plan Measure) = planChain others arrow round)
    (hcells : ∀ move ∈ headed cells arrow, ¬ Overlong move)
    (hothers : ∀ move ∈ headed others arrow, ¬ Overlong move) :
    plan (pointsThrough Measure cells) arrow round =
      plan (pointsThrough Measure others) arrow round := by
  rw [plan, plan, normalize_of_aligned h, normalize_of_aligned h']
  dsimp only [bind, Except.bind]
  rw [← headed, ← headed, firstFault?_append, firstFault?_append,
    firstFault?_differences.2 hcells, firstFault?_differences.2 hothers, hplan]

end Plans

/-! ## Coordinates that fit in no double -/

/-- A cell with a coordinate that fits in no double. -/
def Faraway (c : Cell) : Prop := doubleLimit ≤ c.x.natAbs ∨ doubleLimit ≤ c.y.natAbs

/-- A point that has lost a coordinate. -/
def Lost (p : Point Measure) : Prop := p.x = .tooLarge ∨ p.y = .tooLarge

section Faraway

variable {c : Cell} {n : Int} {p q : Point Measure}

theorem toFloat?_eq_none (h : doubleLimit ≤ n.natAbs) : (Measure.whole n).toFloat? = none := by
  have hlimit := mt (isSome_ofInt?_iff n).1 (Nat.not_lt.2 h)
  rwa [Option.isSome_iff_ne_none, not_not] at hlimit

theorem measured_eq_tooLarge (h : doubleLimit ≤ n.natAbs) :
    (Scalar.measured n : Measure) = .tooLarge := by
  have hwhole : (Scalar.whole n : Measure) = .whole n := rfl
  have hmeasure (m : Measure) : Scalar.measure m = Measure.measure m := rfl
  rw [Scalar.measured, hwhole, hmeasure, Measure.measure, toFloat?_eq_none h, Measure.ofFloat?]

theorem onFloats_eq_tooLarge {a : Measure} (h : a.toFloat? = none) (op : Float → Float → Float)
    (b : Measure) : Measure.onFloats op a b = .tooLarge := by
  rw [Measure.onFloats, h]

theorem whole_sub_real (h : doubleLimit ≤ n.natAbs) (x : Float) :
    Measure.whole n - .real x = .tooLarge := by
  have hsub (a b : Measure) : a - b = a.sub b := rfl
  rw [hsub, Measure.sub.eq_2 _ _ (by simp), onFloats_eq_tooLarge (toFloat?_eq_none h)]

theorem Faraway.middle (h : Faraway c) : Lost (middle c) :=
  h.imp measured_eq_tooLarge measured_eq_tooLarge

/-- The point before a corner is worked out from the cell, and lost with it. -/
theorem Faraway.before (h : Faraway c) (round : Bool) (a b : Cell) :
    Lost (before (insetOf round) c (Heading.between a b)) := by
  have hwhole (n : Int) : (Scalar.whole n : Measure) = .whole n := rfl
  have hstep (m : Int) {n : Int} (hn : doubleLimit ≤ n.natAbs) :
      (Scalar.whole n : Measure) - Scalar.whole m.sign * insetOf round = .tooLarge := by
    obtain ⟨step, hproduct, -⟩ := Halves.exists_step (sign_cases m) round
    rw [hwhole, hwhole, hproduct, whole_sub_real hn]
  exact h.imp (hstep (b.x - a.x)) (hstep (b.y - a.y))

theorem tooLarge_beq (a : Measure) : (Measure.tooLarge == a) = false := by
  have hbeq (a b : Measure) : (a == b) = a.beq b := rfl
  rw [hbeq, Measure.beq.eq_2 _ _ (by simp), Measure.toFloat?]

theorem beq_tooLarge (a : Measure) : (a == Measure.tooLarge) = false := by
  have hbeq (a b : Measure) : (a == b) = a.beq b := rfl
  have hnone : Measure.tooLarge.toFloat? = none := rfl
  rw [hbeq, Measure.beq.eq_2 _ _ (by simp), hnone]
  cases a.toFloat? <;> rfl

/-- A segment with a lost end is no segment without length, and cannot be drawn. -/
theorem firstFault?_segment (h : Lost p ∨ Lost q) :
    Scalar.firstFault? ((segment p q).flatMap Piece.numbers) ≠ none := by
  have hne : (p.x == q.x && p.y == q.y) = false := by
    rcases h with (h | h) | (h | h) <;> rw [h] <;> simp [tooLarge_beq, beq_tooLarge]
  have hmem : Measure.tooLarge ∈ [p.x, p.y, q.x, q.y] := by
    rcases h with (h | h) | (h | h) <;> rw [h] <;> simp
  rw [segment, if_neg (by rw [hne]; exact Bool.false_ne_true), Scalar.firstFault?, Ne,
    List.findSome?_eq_none_iff]
  have hfault : Scalar.fault? Measure.tooLarge = some .tooLarge := rfl
  intro hnone
  have hsome := hnone _ (by simpa [Piece.numbers] using hmem)
  rw [hfault] at hsome
  cases hsome

/-- Where no cell is passed straight, each of them is the end of a segment. -/
theorem firstFault?_piecesFrom {round : Bool} {start : Point Measure} {previous cell : Cell}
    {rest : List Cell} (h : Turning (previous :: cell :: rest))
    (hlost : Lost start ∨ ∃ c ∈ cell :: rest, Faraway c) :
    Scalar.firstFault? ((piecesFrom (insetOf round) start previous cell rest).flatMap
      Piece.numbers) ≠ none := by
  induction rest generalizing start previous cell with
  | nil =>
      rw [piecesFrom]
      refine firstFault?_segment (hlost.imp_right ?_)
      rintro ⟨c, hc, hfar⟩
      exact List.mem_singleton.1 hc ▸ hfar.middle
  | cons next rest ih =>
      obtain ⟨-, hturning, hrest⟩ := turning_cons.1 h
      have haxis := hturning (Heading.between cell next) (by simp)
      rw [piecesFrom, if_neg haxis, List.flatMap_append, List.flatMap_cons, firstFault?_append,
        Ne, Option.or_eq_none_iff, not_and_or]
      rcases hlost with hstart | ⟨c, hc, hfar⟩
      · exact Or.inl (firstFault?_segment (Or.inl hstart))
      rcases List.mem_cons.1 hc with rfl | hc
      · exact Or.inl (firstFault?_segment (Or.inr (hfar.before round _ _)))
      · exact Or.inr (ih hrest (Or.inr ⟨c, hc, hfar⟩))

theorem firstFault?_planChain {first second : Cell} {rest : List Cell}
    (h : Turning (first :: second :: rest)) (arrow : Arrow) (round : Bool)
    (hfar : ∃ c ∈ first :: second :: rest, Faraway c) :
    Scalar.firstFault?
      ((planChain (first :: second :: rest) arrow round : Plan Measure).pieces.flatMap
        Piece.numbers) ≠ none := by
  obtain ⟨c, hc, hfar⟩ := hfar
  refine firstFault?_piecesFrom h ?_
  rcases List.mem_cons.1 hc with rfl | hc
  · exact Or.inl hfar.middle
  · exact Or.inr ⟨c, hc, hfar⟩

/-- Between cells from zero up, no move is longer than the coordinates are large. -/
theorem Overlong.exists_faraway {a b : Cell} (h : Overlong (a, b)) (ha : 0 ≤ a.x ∧ 0 ≤ a.y)
    (hb : 0 ≤ b.x ∧ 0 ≤ b.y) : Faraway a ∨ Faraway b := by
  rw [Overlong] at h
  rw [Faraway, Faraway]
  generalize doubleLimit = limit at h ⊢
  dsimp only at h
  omega

end Faraway

end Connection

/-! ## Merging points -/

namespace Flow

open Connection Number

section Points

variable {points : List Cell}

/-- The loop of the merge, on points that never go back: `kept` is the last point that was kept,
and the run from there to `previous`, if it has any length, goes straight on to `c`. -/
theorem exists_merging {kept previous c : Cell} {rest : List Cell}
    (h : Forward (previous :: c :: rest))
    (hrun : previous = kept ∨ Heading.between kept previous = Heading.between previous c) :
    ∃ m more, mergeStraight.go previous (c :: rest) = m :: more ∧ Merging kept c rest m more := by
  induction rest generalizing kept previous c with
  | nil => exact ⟨c, [], rfl, .last kept c⟩
  | cons next rest ih =>
      obtain ⟨hpc, hforward, hrest⟩ := forward_cons.1 h
      obtain ⟨hcn, -, -⟩ := forward_cons.1 hrest
      have hheading : Heading.between kept c = Heading.between previous c := by
        rcases hrun with rfl | hsame
        · rfl
        · exact (hpc.extend hsame).2.1
      rw [mergeStraight.go]
      split
      · -- `c` is inside the run from `kept`, which goes on to `next`
        rename_i hline
        have hsame := (hpc.collinear_iff hcn (hforward _ (by simp))).1 hline
        obtain ⟨m, more, hgo, hm⟩ := ih hrest (Or.inr (hheading.trans hsame))
        exact ⟨m, more, hgo, .straight hcn (hheading.trans hsame) hm⟩
      · -- `c` is kept, and its neighbours in the full list show that the axis changes there
        rename_i hline
        obtain ⟨m, more, hgo, hm⟩ := ih hrest (Or.inl rfl)
        refine ⟨c, m :: more, by rw [hgo], .turn ?_ hm⟩
        rw [hheading]
        exact hpc.axis_ne hcn hline

/-- Points are merged run by run, unless there are less than two. -/
theorem merging_cases (h : Forward points) : mergeStraight points = points ∨
    ∃ k c rest m more, points = k :: c :: rest ∧ mergeStraight points = k :: m :: more ∧
      Merging k c rest m more := by
  match points, h with
  | [], _ => exact Or.inl rfl
  | [_], _ => exact Or.inl rfl
  | k :: c :: rest, h =>
      obtain ⟨m, more, hgo, hm⟩ := exists_merging h (Or.inl rfl)
      exact Or.inr ⟨k, c, rest, m, more, rfl, congrArg (k :: ·) hgo, hm⟩

theorem track_mergeStraight (h : Forward points) : track (mergeStraight points) = track points := by
  rcases merging_cases h with hsame | ⟨k, c, rest, m, more, rfl, hmerged, hm⟩
  · rw [hsame]
  · rw [hmerged]
    exact congrArg (k :: ·) hm.trackFrom_eq

theorem planChain_mergeStraight {α : Type} [Scalar α] (h : Forward points) (arrow : Arrow)
    (round : Bool) :
    (planChain (mergeStraight points) arrow round : Plan α) = planChain points arrow round := by
  rcases merging_cases h with hsame | ⟨k, c, rest, m, more, rfl, hmerged, hm⟩
  · rw [hsame]
  · rw [hmerged, hm.planChain_eq]

theorem overlong_mergeStraight (h : Forward points) {arrow : Arrow}
    (hlong : ∃ move ∈ headed points arrow, Overlong move) :
    ∃ move ∈ headed (mergeStraight points) arrow, Overlong move := by
  rcases merging_cases h with hsame | ⟨k, c, rest, m, more, rfl, hmerged, hm⟩
  · rwa [hsame]
  · rw [hmerged]
    exact hm.overlong hlong

theorem turning_mergeStraight (h : Forward points) : Turning (mergeStraight points) := by
  match points, h with
  | [], h => exact ⟨h.aligned, List.isChain_nil⟩
  | [_], h => exact ⟨h.aligned, List.isChain_nil⟩
  | _ :: _ :: _, h => exact (mergeStraight_spec h).1

/-- The points behind the first one that are kept: those where the axis changes, and the last
one. -/
theorem mergeStraight_go_eq_bends {previous c : Cell} {rest : List Cell}
    (h : (previous :: c :: rest).IsChain Aligned) :
    mergeStraight.go previous (c :: rest) =
      (bends (previous :: c :: rest)).map (·.2.1) ++ (c :: rest).getLast?.toList := by
  induction rest generalizing previous c with
  | nil => rfl
  | cons next rest ih =>
      obtain ⟨hpc, hrest⟩ := List.isChain_cons_cons.1 h
      have hcn := (List.isChain_cons_cons.1 hrest).1
      rw [mergeStraight_go_cons, ih hrest, bends, List.getLast?_cons_cons]
      unfold Aligned at hpc hcn
      by_cases hturn : (previous.x = c.x ∧ c.y = next.y) ∨ (previous.y = c.y ∧ c.x = next.x)
      · rw [if_pos hturn, if_neg (by omega)]
        rfl
      · rw [if_neg hturn, if_pos (by omega)]
        rfl

theorem mergeStraight_eq_bends (h : points.IsChain Aligned) : mergeStraight points =
    points.head?.toList ++ (bends points).map (·.2.1) ++ points.tail.getLast?.toList := by
  match points, h with
  | [], _ => rfl
  | [_], _ => rfl
  | _ :: _ :: _, h => rw [mergeStraight, mergeStraight_go_eq_bends h]; rfl

theorem mergeStraight_go_of_turning {previous : Cell} {rest : List Cell}
    (h : Turning (previous :: rest)) : mergeStraight.go previous rest = rest := by
  induction rest generalizing previous with
  | nil => rfl
  | cons c rest ih =>
      obtain ⟨hpc, hturning, hrest⟩ := turning_cons.1 h
      cases rest with
      | nil => rfl
      | cons next rest =>
          have hcn := (turning_cons.1 hrest).1
          have hforward := (forward_cons.1 h.forward).2.1 (Heading.between c next) (by simp)
          have haxis := hturning (Heading.between c next) (by simp)
          have hline : ¬ ((previous.x = c.x ∧ c.x = next.x) ∨
              (previous.y = c.y ∧ c.y = next.y)) := fun hline =>
            haxis (congrArg _ ((hpc.collinear_iff hcn hforward).1 hline))
          rw [mergeStraight_go_cons, if_neg hline, ih hrest]
          rfl

/-- Where each piece is perpendicular to the one before it, nothing is merged. -/
theorem mergeStraight_of_turning (h : Turning points) : mergeStraight points = points := by
  cases points with
  | nil => rfl
  | cons c rest => rw [mergeStraight, mergeStraight_go_of_turning h]

/-- If no move of the merged list is too long for its angle, none of the full list is. -/
theorem plan_mergeStraight_of_short (h : Forward points) {arrow : Arrow} (round : Bool)
    (hshort : ∀ move ∈ headed (mergeStraight points) arrow, ¬ Overlong move) :
    plan (pointsThrough Measure (mergeStraight points)) arrow round =
      plan (pointsThrough Measure points) arrow round := by
  refine plan_congr (turning_mergeStraight h).aligned h.aligned
    (planChain_mergeStraight h arrow round) hshort fun move hmove hmoveLong => ?_
  obtain ⟨longer, hlonger, hlong⟩ := overlong_mergeStraight h ⟨move, hmove, hmoveLong⟩
  exact hshort longer hlonger hlong

/-- From zero up, a merged list is planned in doubles as the full one, or neither of them is: a move
that is too long for its angle ends in a cell that is too far away to be drawn. -/
theorem plan_mergeStraight_of_nonneg (h : Forward points)
    (hnonneg : ∀ c ∈ points, 0 ≤ c.x ∧ 0 ≤ c.y) (arrow : Arrow) (round : Bool) :
    plan (pointsThrough Measure (mergeStraight points)) arrow round =
      plan (pointsThrough Measure points) arrow round := by
  by_cases hshort : ∀ move ∈ headed (mergeStraight points) arrow, ¬ Overlong move
  · exact plan_mergeStraight_of_short h round hshort
  push Not at hshort
  obtain ⟨⟨a, b⟩, hmove, hlong⟩ := hshort
  obtain ⟨ha, hb⟩ := mem_of_mem_moves hmove
  have hsubset := mergeStraight_subset points
  have hfar : ∃ c ∈ mergeStraight points, Faraway c := by
    rcases hlong.exists_faraway (hnonneg a (hsubset ha)) (hnonneg b (hsubset hb)) with hfar | hfar
    · exact ⟨a, ha, hfar⟩
    · exact ⟨b, hb, hfar⟩
  -- the pieces are the same in both plans, and they do not reach the cell
  have hturning := turning_mergeStraight h
  have hpieces := planChain_mergeStraight (α := Measure) h arrow round
  rcases merging_cases h with hsame | ⟨k, c, rest, m, more, rfl, hmerged, -⟩
  · rw [hsame]
  rw [hmerged] at hturning hfar hpieces ⊢
  have hfault := firstFault?_planChain hturning arrow round hfar
  rw [plan_of_fault hturning.aligned, plan_of_fault h.aligned]
  · rw [← hpieces, firstFault?_append, Ne, Option.or_eq_none_iff]
    exact fun hnone => hfault hnone.1
  · rw [firstFault?_append, Ne, Option.or_eq_none_iff]
    exact fun hnone => hfault hnone.1

/-- Of points that never go back, merging keeps both ends and those where the axis changes.  It
keeps the cells that the points run over, in their order, and changes nothing a second time.  The
exact plan is the same with and without it.  So is the plan in doubles on cells from zero up, where
all paths lie, and on any other cells whose moves fit in doubles. -/
theorem mergeStraight_planned (h : Forward points) :
    mergeStraight points =
        points.head?.toList ++ (bends points).map (·.2.1) ++ points.tail.getLast?.toList ∧
      track (mergeStraight points) = track points ∧
      mergeStraight (mergeStraight points) = mergeStraight points ∧
      ∀ arrow round,
        plan (pointsThrough Rat (mergeStraight points)) arrow round =
            plan (pointsThrough Rat points) arrow round ∧
          ((∀ c ∈ points, 0 ≤ c.x ∧ 0 ≤ c.y) →
            plan (pointsThrough Measure (mergeStraight points)) arrow round =
              plan (pointsThrough Measure points) arrow round) ∧
          ((∀ move ∈ headed (mergeStraight points) arrow, ¬ Overlong move) →
            plan (pointsThrough Measure (mergeStraight points)) arrow round =
              plan (pointsThrough Measure points) arrow round) := by
  have hturning := turning_mergeStraight h
  refine ⟨mergeStraight_eq_bends h.aligned, track_mergeStraight h,
    mergeStraight_of_turning hturning, fun arrow round =>
      ⟨?_, fun hnonneg => plan_mergeStraight_of_nonneg h hnonneg arrow round,
        plan_mergeStraight_of_short h round⟩⟩
  have hexact (points : List Cell) := normalize_pointsThrough (Halves.rational 0) points
  rw [plan_of_normalize (hexact _), plan_of_normalize (hexact _), chain_eq_self h.aligned,
    chain_eq_self hturning.aligned, planChain_mergeStraight h]

/-- Right in three moves, down in two, and back to the left. -/
def stairs : List Cell := [⟨0, 0⟩, ⟨1, 0⟩, ⟨2, 0⟩, ⟨5, 0⟩, ⟨5, 1⟩, ⟨5, 4⟩, ⟨4, 4⟩]

theorem stairs_planned :
    Forward stairs ∧ mergeStraight stairs = [⟨0, 0⟩, ⟨5, 0⟩, ⟨5, 4⟩, ⟨4, 4⟩] ∧
      track (mergeStraight stairs) = [⟨0, 0⟩, ⟨1, 0⟩, ⟨2, 0⟩, ⟨3, 0⟩, ⟨4, 0⟩, ⟨5, 0⟩, ⟨5, 1⟩,
        ⟨5, 2⟩, ⟨5, 3⟩, ⟨5, 4⟩, ⟨4, 4⟩] ∧
      plan (pointsThrough Rat (mergeStraight stairs)) .forward true =
        plan (pointsThrough Rat stairs) .forward true ∧
      plan (pointsThrough Measure (mergeStraight stairs)) .forward true =
        plan (pointsThrough Measure stairs) .forward true := by
  have hforward : Forward stairs :=
    { aligned := by simp [stairs, Aligned]
      forward := by decide }
  obtain ⟨-, htrack, -, hplan⟩ := mergeStraight_planned hforward
  refine ⟨hforward, by decide, ?_, (hplan .forward true).1, (hplan .forward true).2.1 (by decide)⟩
  rw [htrack]
  decide

end Points

end Flow
end CellSketch
