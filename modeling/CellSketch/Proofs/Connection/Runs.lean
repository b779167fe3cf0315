import CellSketch.Proofs.Polyline
import CellSketch.Proofs.Scan.Joints

/-!
# Runs — a plan as a sequence of straight runs

A chain of cells is planned run by run.  A run enters a cell from a point on the line behind it;
from there it goes straight on, turns back in the centre of the cell, or turns off to a side.  In
each case the pieces and the run that follows are determined.

* `Side.ahead`, `Side.far` — points and cells in the direction of a side;
* `exists_far` — of two neighbours in a chain one lies straight ahead of the other;
* `Run` — the pieces of a run and of all that follow it;
* `run_piecesFrom` — what is planned are runs.
-/

namespace CellSketch

open Number

/-! ## Directions -/

namespace Side

/-- The point at a distance from another one, toward a side. -/
def ahead (side : Side) (distance : Rat) (p : Point Rat) : Point Rat :=
  match side with
  | .up => ⟨p.x, p.y - distance⟩
  | .right => ⟨p.x + distance, p.y⟩
  | .down => ⟨p.x, p.y + distance⟩
  | .left => ⟨p.x - distance, p.y⟩

/-- The cell a number of cells away, toward a side. -/
def far (side : Side) (n : Int) (c : Cell) : Cell :=
  match side with
  | .up => ⟨c.x, c.y - n⟩
  | .right => ⟨c.x + n, c.y⟩
  | .down => ⟨c.x, c.y + n⟩
  | .left => ⟨c.x - n, c.y⟩

/-- The heading of a move toward a side. -/
def heading : Side → Connection.Heading
  | .up => ⟨0, -1⟩
  | .right => ⟨1, 0⟩
  | .down => ⟨0, 1⟩
  | .left => ⟨-1, 0⟩

section Ahead

variable (side : Side) (s t : Rat) (p : Point Rat)

@[simp] theorem ahead_zero : side.ahead 0 p = p := by
  cases side <;> simp [ahead]

@[simp] theorem ahead_ahead : side.ahead s (side.ahead t p) = side.ahead (t + s) p := by
  cases side <;> simp [ahead] <;> ring

theorem ahead_opposite : side.opposite.ahead s p = side.ahead (-s) p := by
  cases side <;> simp [ahead, opposite, sub_eq_add_neg]

variable {side s t p}

theorem ahead_inj : side.ahead s p = side.ahead t p ↔ s = t := by
  cases side <;> simp [ahead]

end Ahead

theorem heading_inj {side other : Side} : side.heading = other.heading ↔ side = other := by
  cases side <;> cases other <;> decide

@[simp] theorem axis_heading (side : Side) : side.heading.axis = side.axis := by
  cases side <;> rfl

/-- A side on the same axis is the side itself or the opposite one. -/
theorem eq_opposite_of_axis {side other : Side} (haxis : side.axis = other.axis)
    (hne : side ≠ other) : other = side.opposite := by
  cases side <;> cases other
  all_goals first
    | rfl
    | exact absurd rfl hne
    | exact absurd haxis (by decide)

theorem heading_between_far (side : Side) {n : Int} (hn : 1 ≤ n) (c : Cell) :
    Connection.Heading.between c (side.far n c) = side.heading := by
  cases side
  · exact Connection.Heading.between_eq_up.2 ⟨rfl, by simp only [far]; omega⟩
  · exact Connection.Heading.between_eq_right.2 ⟨by simp only [far]; omega, rfl⟩
  · exact Connection.Heading.between_eq_down.2 ⟨rfl, by simp only [far]; omega⟩
  · exact Connection.Heading.between_eq_left.2 ⟨by simp only [far]; omega, rfl⟩

end Side

namespace Connection

/-- Of two aligned cells one lies straight ahead of the other. -/
theorem exists_far {a b : Cell} (h : Aligned a b) :
    ∃ (side : Side) (n : Int), 1 ≤ n ∧ b = side.far n a := by
  obtain ⟨x, y⟩ := a
  obtain ⟨x', y'⟩ := b
  simp only [Aligned] at h
  rcases h with ⟨rfl, hy⟩ | ⟨hx, rfl⟩
  · rcases Int.lt_or_gt_of_ne hy with hlt | hlt
    · refine ⟨.down, y' - y, by omega, ?_⟩
      rw [Side.far, Cell.mk.injEq]
      exact ⟨rfl, by dsimp only; omega⟩
    · refine ⟨.up, y - y', by omega, ?_⟩
      rw [Side.far, Cell.mk.injEq]
      exact ⟨rfl, by dsimp only; omega⟩
  · rcases Int.lt_or_gt_of_ne hx with hlt | hlt
    · refine ⟨.right, x' - x, by omega, ?_⟩
      rw [Side.far, Cell.mk.injEq]
      exact ⟨by dsimp only; omega, rfl⟩
    · refine ⟨.left, x - x', by omega, ?_⟩
      rw [Side.far, Cell.mk.injEq]
      exact ⟨by dsimp only; omega, rfl⟩

theorem middle_far (side : Side) (n : Int) (c : Cell) :
    (middle (side.far n c) : Point Rat) = side.ahead n (middle c) := by
  cases side <;> simp [middle, Side.far, Side.ahead]

theorem ahead_middle_far (side : Side) (s : Rat) (n : Int) (c : Cell) :
    side.ahead s (middle (side.far n c)) = side.ahead (n + s) (middle c) := by
  rw [middle_far, Side.ahead_ahead]

/-! ## Exact positions -/

section Start

variable (side : Side) (s : Rat) (n : Int) (c : Cell)

/-- The next run starts behind the cell that it enters, here in the centre of the cell before. -/
theorem start_back : side.ahead (-n) (middle (side.far n c)) = (middle c : Point Rat) := by
  rw [ahead_middle_far, add_neg_cancel, Side.ahead_zero]

theorem start_straight :
    side.ahead (-(s + n)) (middle (side.far n c)) = side.ahead (-s) (middle c) := by
  rw [ahead_middle_far, neg_add_rev, add_neg_cancel_left]

theorem start_turn :
    side.ahead (-(n - s)) (middle (side.far n c)) = side.ahead s (middle c) := by
  rw [ahead_middle_far, neg_sub, add_sub_cancel]

end Start

theorem before_eq (inset : Rat) (side : Side) (c : Cell) :
    before inset c side.heading = side.ahead (-inset) (middle c) := by
  cases side <;> simp [before, Side.heading, Side.ahead, middle] <;> ring

theorem after_eq (inset : Rat) (side : Side) (c : Cell) :
    after inset c side.heading = side.ahead inset (middle c) := by
  cases side <;> simp [after, Side.heading, Side.ahead, middle] <;> ring

theorem segment_self (p : Point Rat) : segment p p = [] := by
  simp [segment]

theorem segment_of_ne {a b : Point Rat} (h : a ≠ b) : segment a b = [.segment a b] := by
  obtain ⟨x, y⟩ := a
  obtain ⟨x', y'⟩ := b
  simpa [segment] using h

/-- A segment toward a side, of some length. -/
theorem segment_ahead (side : Side) {s t : Rat} (hlt : s < t) (p : Point Rat) :
    segment (side.ahead s p) (side.ahead t p) = [.segment (side.ahead s p) (side.ahead t p)] :=
  segment_of_ne fun heq => hlt.ne (Side.ahead_inj.1 heq)

/-! ## Runs -/

/-- The pieces of a run, and of all runs after it, along the cells `c :: rest`.  The run enters the
cell `c` toward a side, from the point at a distance `t` before its centre. -/
inductive Run (inset : Rat) : Side → Rat → Cell → List Cell → List (Piece Rat) → Prop
  /-- The last run ends in the centre of the last cell. -/
  | last {d : Side} {t : Rat} {c : Cell} (ht : 0 < t) :
      Run inset d t c [] [.segment (d.ahead (-t) (middle c)) (middle c)]
  /-- A run goes straight on. -/
  | straight {d : Side} {t : Rat} {c : Cell} {n : Int} {rest : List Cell}
      {pieces : List (Piece Rat)} (ht : 0 < t) (hn : 1 ≤ n)
      (h : Run inset d (t + n) (d.far n c) rest pieces) : Run inset d t c (d.far n c :: rest) pieces
  /-- A run ends in the centre of a cell, and the next one leads back. -/
  | back {d : Side} {t : Rat} {c : Cell} {n : Int} {rest : List Cell} {pieces : List (Piece Rat)}
      (ht : 0 < t) (hn : 1 ≤ n)
      (h : Run inset d.opposite n (d.opposite.far n c) rest pieces) :
      Run inset d t c (d.opposite.far n c :: rest)
        (.segment (d.ahead (-t) (middle c)) (middle c) :: pieces)
  /-- A run ends before a corner, and the next one begins behind it. -/
  | turn {d e : Side} {t : Rat} {c : Cell} {n : Int} {rest : List Cell}
      {pieces : List (Piece Rat)} (ht : inset < t) (hn : 1 ≤ n) (haxis : d.axis ≠ e.axis)
      (h : Run inset e (n - inset) (e.far n c) rest pieces) :
      Run inset d t c (e.far n c :: rest)
        (.segment (d.ahead (-t) (middle c)) (d.ahead (-inset) (middle c)) ::
          .corner c (Connection.turn d.heading e.heading) :: pieces)
  /-- A run has no length, for it lies between two corners. -/
  | empty {d e : Side} {c : Cell} {n : Int} {rest : List Cell} {pieces : List (Piece Rat)}
      (ht : 0 < inset) (hn : 1 ≤ n) (haxis : d.axis ≠ e.axis)
      (h : Run inset e (n - inset) (e.far n c) rest pieces) :
      Run inset d inset c (e.far n c :: rest)
        (.corner c (Connection.turn d.heading e.heading) :: pieces)

/-- What is planned are runs, if corners keep half a cell at most to themselves. -/
theorem run_piecesFrom {inset : Rat} (hinset : 0 ≤ inset ∧ inset ≤ 1 / 2) {d : Side} {t : Rat}
    {previous cell : Cell} {rest : List Cell} (hcells : (cell :: rest).IsChain Aligned)
    (hheading : Heading.between previous cell = d.heading) (ht : 0 < t) (hle : inset ≤ t) :
    Run inset d t cell rest
      (piecesFrom inset (d.ahead (-t) (middle cell)) previous cell rest) := by
  -- along the cells ahead, with the start of the run counted back from the cell that it enters
  induction rest generalizing d t previous cell with
  | nil =>
      have hsegment := segment_ahead d (neg_lt_zero.2 ht) (middle cell)
      rw [Side.ahead_zero] at hsegment
      rw [piecesFrom, hsegment]
      exact .last ht
  | cons next rest ih =>
      obtain ⟨hnext, hrest⟩ := List.isChain_cons_cons.1 hcells
      obtain ⟨e, n, hn, rfl⟩ := exists_far hnext
      have houtgoing := Side.heading_between_far e hn cell
      have hn' : (1 : Rat) ≤ n := by exact_mod_cast hn
      simp only [piecesFrom, hheading, houtgoing, Side.axis_heading, Side.heading_inj]
      split
      · rename_i haxis
        split
        · -- straight on, from the same point
          rename_i heq
          subst heq
          refine .straight ht hn ?_
          rw [← start_straight d t n]
          exact ih hrest houtgoing (by linarith) (by linarith)
        · -- back, from the centre
          rename_i hne
          obtain rfl := Side.eq_opposite_of_axis haxis hne
          have hsegment := segment_ahead d (neg_lt_zero.2 ht) (middle cell)
          rw [Side.ahead_zero] at hsegment
          rw [hsegment]
          refine .back ht hn ?_
          have hmore := ih hrest houtgoing (t := n) (by linarith) (by linarith)
          rwa [start_back] at hmore
      · -- around a corner, from the point behind it
        rename_i haxis
        have hmore := ih hrest houtgoing (t := n - inset) (by linarith) (by linarith)
        rw [start_turn] at hmore
        rw [before_eq, after_eq]
        rcases hle.eq_or_lt with rfl | hlt
        · rw [segment_self, List.nil_append]
          exact .empty ht hn haxis hmore
        · rw [segment_ahead d (neg_lt_neg hlt), List.singleton_append]
          exact .turn hlt hn haxis hmore

end Connection
end CellSketch
