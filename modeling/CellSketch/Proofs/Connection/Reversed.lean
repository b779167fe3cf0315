import CellSketch.Proofs.Connection.Walk
import CellSketch.Proofs.Flow.Orthogonal

/-!
# Reversed — connections from their other end

The plan of a connection is made from one end to the other, with the start of a run carried along.
Still it does not depend on the end at which it begins: what lies between two runs is decided by the
three cells around it, and looks the same from both sides.

* `Joint`, `joint?_reverse` — what lies between two runs, from either side;
* `piecesAlong` — pieces between two given points, and `piecesAlong_reverse`;
* `chain_reverse` — points in line are a chain in both directions;
* `head_swap` — a head at the start of a move is one at the end of the move back;
* `plan_reversed` — the same points, from the last to the first, have the same plan backwards.
-/

namespace CellSketch

open Number

/-- The heads of a line that is drawn from its other end. -/
def Arrow.reversed (arrow : Arrow) : Arrow := ⟨arrow.atEnd, arrow.atStart⟩

namespace Connection

/-- A piece that is drawn from its other end. -/
def Piece.reversed {α : Type} : Piece α → Piece α
  | .segment a b => .segment b a
  | .corner c turn => .corner c turn

/-- Heads that look the same. -/
def Head.Same (a b : Head) : Prop := a.cell = b.cell ∧ a.degrees ≡ b.degrees [ZMOD 360]

/-! ## Joints -/

namespace Heading

theorem between_swap (a b : Cell) : between b a = (between a b).reverse := by
  rw [between, between, reverse, ← Int.sign_neg, ← Int.sign_neg, Int.neg_sub, Int.neg_sub]

theorem axis_reverse (h : Heading) : h.reverse.axis = h.axis := by
  simp only [axis, reverse, ne_eq, Int.neg_eq_zero]

theorem reverse_inj {h h' : Heading} : h.reverse = h'.reverse ↔ h = h' := by
  cases h
  cases h'
  simp only [reverse, mk.injEq, Int.neg_inj]

end Heading

/-- Each turn of the table has the same corner as the turn walked backward. -/
theorem turn_reverse (a b c : Cell) :
    turn (Heading.between b c).reverse (Heading.between a b).reverse =
      turn (Heading.between a b) (Heading.between b c) := by
  simp only [Heading.between]
  rcases sign_cases (b.x - a.x) with hx | hx | hx <;>
    rcases sign_cases (b.y - a.y) with hy | hy | hy <;>
      rcases sign_cases (c.x - b.x) with hx' | hx' | hx' <;>
        rcases sign_cases (c.y - b.y) with hy' | hy' | hy' <;>
          rw [hx, hy, hx', hy'] <;> rfl

theorem before_reverse (inset : Rat) (c : Cell) (h : Heading) :
    before inset c h.reverse = after inset c h := by
  simp [before, after, Heading.reverse, Scalar.whole]

theorem after_reverse (inset : Rat) (c : Cell) (h : Heading) :
    after inset c h.reverse = before inset c h := by
  simp [before, after, Heading.reverse, Scalar.whole, sub_eq_add_neg]

/-- What lies between two runs: the end of the first one, the pieces in between, and the start of
the second one. -/
structure Joint where
  stop : Point Rat
  pieces : List (Piece Rat)
  start : Point Rat

def Joint.reversed (j : Joint) : Joint := ⟨j.start, (j.pieces.map Piece.reversed).reverse, j.stop⟩

/-- The joint in a cell between its neighbours in a chain; where the chain goes straight on there is
none. -/
def joint? (inset : Rat) (previous cell next : Cell) : Option Joint :=
  let incoming := Heading.between previous cell
  let outgoing := Heading.between cell next
  if incoming.axis = outgoing.axis then
    if incoming = outgoing then none else some ⟨middle cell, [], middle cell⟩
  else
    some ⟨before inset cell incoming, [.corner cell (turn incoming outgoing)],
      after inset cell outgoing⟩

/-- A joint is the same from both sides. -/
theorem joint?_reverse (inset : Rat) (previous cell next : Cell) :
    joint? inset next cell previous = (joint? inset previous cell next).map Joint.reversed := by
  simp only [joint?, Heading.between_swap cell next, Heading.between_swap previous cell,
    Heading.axis_reverse, Heading.reverse_inj, turn_reverse, before_reverse, after_reverse]
  by_cases haxis : (Heading.between previous cell).axis = (Heading.between cell next).axis
  · rw [if_pos haxis, if_pos haxis.symm]
    by_cases hheading : Heading.between previous cell = Heading.between cell next
    · rw [if_pos hheading, if_pos hheading.symm]
      rfl
    · rw [if_neg hheading, if_neg (Ne.symm hheading)]
      rfl
  · rw [if_neg haxis, if_neg (Ne.symm haxis)]
    rfl

/-! ## Pieces along a chain -/

/-- The pieces along a chain, from a point of its first run to a point of its last one. -/
def piecesAlong (inset : Rat) (stop : Point Rat) : (start : Point Rat) → List Cell →
    List (Piece Rat)
  | start, a :: b :: c :: rest =>
      match joint? inset a b c with
      | none => piecesAlong inset stop start (b :: c :: rest)
      | some j =>
          segment start j.stop ++ (j.pieces ++ piecesAlong inset stop j.start (b :: c :: rest))
  | start, _ => segment start stop

section PiecesAlong

variable {inset : Rat}

/-- What is planned from the start of a run are the pieces up to the last centre. -/
theorem piecesFrom_eq (start : Point Rat) (previous cell : Cell) (rest : List Cell) :
    piecesFrom inset start previous cell rest =
      piecesAlong inset (middle ((cell :: rest).getLast (List.cons_ne_nil cell rest))) start
        (previous :: cell :: rest) := by
  induction rest generalizing start previous cell with
  | nil => rfl
  | cons next rest ih =>
      rw [List.getLast_cons (List.cons_ne_nil next rest), piecesFrom, piecesAlong, joint?]
      simp only [ih]
      split
      · split
        · rfl
        · rfl
      · rfl

/-- The pieces along a chain with one more cell. -/
theorem piecesAlong_concat (stop start : Point Rat) (front : List Cell) (a b c : Cell) :
    piecesAlong inset stop start (front ++ [a, b, c]) =
      match joint? inset a b c with
      | none => piecesAlong inset stop start (front ++ [a, b])
      | some j => piecesAlong inset j.stop start (front ++ [a, b]) ++
          (j.pieces ++ segment j.start stop) := by
  induction front generalizing start with
  | nil =>
      rw [List.nil_append, piecesAlong]
      rfl
  | cons d front ih =>
      -- the first joint comes before the last one, whatever the cells in between are
      obtain ⟨e, f, rest, hlong, hshort⟩ : ∃ e f rest,
          front ++ [a, b, c] = e :: f :: (rest ++ [c]) ∧ front ++ [a, b] = e :: f :: rest := by
        match front with
        | [] => exact ⟨a, b, [], rfl, rfl⟩
        | [e] => exact ⟨e, a, [b], rfl, rfl⟩
        | e :: f :: rest => exact ⟨e, f, rest ++ [a, b], by simp, rfl⟩
      rw [hlong, hshort] at ih
      rw [List.cons_append, List.cons_append, hlong, hshort]
      simp only [piecesAlong, ih]
      cases joint? inset d e f with
      | none => rfl
      | some j =>
          cases joint? inset a b c with
          | none => rfl
          | some k => simp only [List.append_assoc]

theorem segment_reverse (start stop : Point Rat) :
    segment stop start = ((segment start stop).map Piece.reversed).reverse := by
  have hiff : (stop.x == start.x && stop.y == start.y) =
      (start.x == stop.x && start.y == stop.y) := by
    rw [Bool.beq_comm, Bool.beq_comm (a := stop.y)]
  rw [segment, segment, hiff]
  split <;> rfl

/-- The pieces along a chain from its other end. -/
theorem piecesAlong_reverse (start stop : Point Rat) (cells : List Cell) :
    piecesAlong inset start stop cells.reverse =
      ((piecesAlong inset stop start cells).map Piece.reversed).reverse := by
  match cells with
  | [] => exact segment_reverse start stop
  | [_] => exact segment_reverse start stop
  | [_, _] => exact segment_reverse start stop
  | a :: b :: c :: rest =>
      have hfront : (a :: b :: c :: rest).reverse = rest.reverse ++ [c, b, a] := by simp
      have hrest : (b :: c :: rest).reverse = rest.reverse ++ [c, b] := by simp
      rw [hfront, piecesAlong_concat, joint?_reverse, piecesAlong, ← hrest]
      cases joint? inset a b c with
      | none => exact piecesAlong_reverse start stop (b :: c :: rest)
      | some j =>
          have hmore := piecesAlong_reverse j.start stop (b :: c :: rest)
          simp only [Option.map_some, Joint.reversed, hmore, segment_reverse start j.stop,
            List.map_append, List.reverse_append, List.append_assoc]
termination_by cells.length

end PiecesAlong

/-! ## Points in line -/

theorem chainFrom_append_of_inLine {last c : Cell} {points : List Cell}
    (h : (last :: (points ++ [c])).IsChain Flow.InLine) :
    chainFrom last (points ++ [c]) = chainFrom last points ++
      if (last :: points).getLast (List.cons_ne_nil last points) = c then [] else [c] := by
  induction points generalizing last with
  | nil =>
      obtain ⟨hc, -⟩ := List.isChain_cons_cons.1 h
      unfold Flow.InLine at hc
      by_cases heq : last = c
      · simp [chainFrom, heq]
      · have hstraight : ¬ (last.x ≠ c.x ∧ last.y ≠ c.y) := by omega
        simp [chainFrom, heq, hstraight]
  | cons d rest ih =>
      obtain ⟨hd, hrest⟩ := List.isChain_cons_cons.1 h
      unfold Flow.InLine at hd
      rw [List.getLast_cons (List.cons_ne_nil d rest), List.cons_append, chainFrom, chainFrom]
      by_cases heq : last = d
      · subst heq
        rw [if_pos rfl, if_pos rfl]
        exact ih hrest
      · rw [if_neg heq, if_neg heq, if_neg (by omega), if_neg (by omega), ih hrest,
          List.cons_append]

theorem chain_append_of_inLine {points : List Cell} {d c : Cell}
    (h : (points ++ [c]).IsChain Flow.InLine) (hlast : points.getLast? = some d) :
    chain (points ++ [c]) = if d = c then chain points else chain points ++ [c] := by
  cases points with
  | nil => cases hlast
  | cons first rest =>
      have hd : (first :: rest).getLast (List.cons_ne_nil first rest) = d := by
        rw [List.getLast?_eq_getLast_of_ne_nil (List.cons_ne_nil first rest)] at hlast
        exact Option.some.inj hlast
      rw [List.cons_append, chain, chainFrom_append_of_inLine h, hd, chain]
      split
      · rw [List.append_nil]
      · rfl

theorem chain_cons_of_inLine {c d : Cell} (h : Flow.InLine c d) (rest : List Cell) :
    chain (c :: d :: rest) = if d = c then chain (d :: rest) else c :: chain (d :: rest) := by
  unfold Flow.InLine at h
  by_cases heq : d = c
  · subst heq
    rw [if_pos rfl, chain, chainFrom, if_pos rfl, chain]
  · rw [if_neg heq, chain, chainFrom, if_neg (Ne.symm heq), if_neg (by omega), chain]

/-- Points in line are a chain in both directions. -/
theorem chain_reverse {points : List Cell} (h : points.IsChain Flow.InLine) :
    chain points.reverse = (chain points).reverse := by
  induction points with
  | nil => rfl
  | cons c rest ih =>
      match rest, ih, h with
      | [], _, _ => rfl
      | d :: rest, ih, h =>
          obtain ⟨hcd, hrest⟩ := List.isChain_cons_cons.1 h
          have hback : ((d :: rest).reverse ++ [c]).IsChain Flow.InLine := by
            rw [← List.reverse_cons, List.isChain_reverse]
            exact h.imp fun a b hab => hab.imp Eq.symm Eq.symm
          have hlast : (d :: rest).reverse.getLast? = some d := by simp
          rw [List.reverse_cons, chain_append_of_inLine hback hlast, ih hrest,
            chain_cons_of_inLine hcd]
          split
          · rfl
          · rw [List.reverse_cons]

/-! ## Heads -/

theorem lastMove?_eq (cells : List Cell) :
    lastMove? cells = (firstMove? cells.reverse).map Prod.swap := by
  match cells with
  | [] => rfl
  | [_] => rfl
  | [_, _] => rfl
  | a :: b :: c :: rest =>
      -- the first two cells from the end are there without the cell in front
      obtain ⟨d, e, more, hreverse⟩ : ∃ d e more, (b :: c :: rest).reverse = d :: e :: more := by
        match h : (b :: c :: rest).reverse with
        | [] => simp at h
        | [_] => simpa using congrArg List.length h
        | d :: e :: more => exact ⟨d, e, more, rfl⟩
      rw [List.reverse_cons, hreverse, lastMove?, lastMove?_eq, hreverse]
      · rfl
      · simp
termination_by cells.length

theorem firstMove?_reverse (cells : List Cell) :
    firstMove? cells.reverse = (lastMove? cells).map Prod.swap := by
  rw [lastMove?_eq, Option.map_map, Prod.swap_swap_eq, Option.map_id, id]

theorem lastMove?_reverse (cells : List Cell) :
    lastMove? cells.reverse = (firstMove? cells).map Prod.swap := by
  rw [lastMove?_eq, List.reverse_reverse]

theorem aligned_of_firstMove? {cells : List Cell} (h : cells.IsChain Aligned) {move : Cell × Cell}
    (hmove : firstMove? cells = some move) : Aligned move.1 move.2 := by
  match cells, hmove with
  | a :: b :: rest, rfl => exact (List.isChain_cons_cons.1 h).1

theorem Aligned.symm {a b : Cell} (h : Aligned a b) : Aligned b a := by
  unfold Aligned at *
  omega

theorem aligned_of_lastMove? {cells : List Cell} (h : cells.IsChain Aligned) {move : Cell × Cell}
    (hmove : lastMove? cells = some move) : Aligned move.1 move.2 := by
  rw [lastMove?_eq] at hmove
  obtain ⟨back, hback, rfl⟩ := Option.map_eq_some_iff.1 hmove
  have hreverse : cells.reverse.IsChain Aligned :=
    List.isChain_reverse.2 (h.imp fun _ _ => Aligned.symm)
  exact (aligned_of_firstMove? hreverse hback).symm

/-- The head at the start of a move looks like the one at the end of the move back. -/
theorem head_swap {move : Cell × Cell} (h : Aligned move.1 move.2) :
    (startHead move.swap).Same (endHead move) ∧ (endHead move.swap).Same (startHead move) := by
  obtain ⟨a, b⟩ := move
  simp only [Head.Same, startHead, endHead, Prod.swap, true_and]
  rw [Heading.between_swap a b]
  rcases h.heading_cases with hd | hd | hd | hd <;> rw [hd] <;> decide

theorem heads_planChain_eq {α : Type} [Scalar α] (cells : List Cell) (arrow : Arrow)
    (round : Bool) : (planChain cells arrow round : Plan α).heads =
      (startMove cells arrow).map startHead ++ (endMove cells arrow).map endHead := by
  match cells with
  | [] => simp [planChain, startMove, endMove, firstMove?, lastMove?]
  | [_] => simp [planChain, startMove, endMove, firstMove?, lastMove?]
  | _ :: _ :: _ => rfl

theorem startMove_reverse (cells : List Cell) (arrow : Arrow) :
    startMove cells.reverse arrow.reversed = (endMove cells arrow).map Prod.swap := by
  rw [startMove, endMove, firstMove?_reverse, Arrow.reversed]
  split
  · cases lastMove? cells <;> rfl
  · rfl

theorem endMove_reverse (cells : List Cell) (arrow : Arrow) :
    endMove cells.reverse arrow.reversed = (startMove cells arrow).map Prod.swap := by
  rw [startMove, endMove, lastMove?_reverse, Arrow.reversed]
  split
  · cases firstMove? cells <;> rfl
  · rfl

theorem reverse_startMove (cells : List Cell) (arrow : Arrow) :
    (startMove cells arrow).reverse = startMove cells arrow := by
  rw [startMove]
  split
  · cases firstMove? cells <;> rfl
  · rfl

theorem reverse_endMove (cells : List Cell) (arrow : Arrow) :
    (endMove cells arrow).reverse = endMove cells arrow := by
  rw [endMove]
  split
  · cases lastMove? cells <;> rfl
  · rfl

/-- The heads of a chain from its other end. -/
theorem heads_planChain_reverse {cells : List Cell} (h : cells.IsChain Aligned) (arrow : Arrow)
    (round : Bool) :
    List.Forall₂ Head.Same (planChain cells.reverse arrow.reversed round : Plan Rat).heads
      (planChain cells arrow round : Plan Rat).heads.reverse := by
  rw [heads_planChain_eq, heads_planChain_eq, List.reverse_append, ← List.map_reverse,
    ← List.map_reverse, reverse_startMove, reverse_endMove, startMove_reverse, endMove_reverse,
    List.map_map, List.map_map]
  refine List.rel_append ?_ ?_
  · rw [List.forall₂_map_left_iff, List.forall₂_map_right_iff, List.forall₂_same]
    intro move hmove
    unfold endMove at hmove
    split at hmove
    · exact (head_swap (aligned_of_lastMove? h (Option.mem_toList.1 hmove))).1
    · cases hmove
  · rw [List.forall₂_map_left_iff, List.forall₂_map_right_iff, List.forall₂_same]
    intro move hmove
    unfold startMove at hmove
    split at hmove
    · exact (head_swap (aligned_of_firstMove? h (Option.mem_toList.1 hmove))).2
    · cases hmove

/-! ## Plans -/

theorem pieces_planChain {cells : List Cell} (h : 2 ≤ cells.length) {first last : Cell}
    (hfirst : cells.head? = some first) (hlast : cells.getLast? = some last) (arrow : Arrow)
    (round : Bool) : (planChain cells arrow round).pieces =
      piecesAlong (insetOf round) (middle last) (middle first) cells := by
  match cells with
  | a :: b :: rest =>
      obtain rfl := Option.some.inj hfirst
      rw [List.getLast?_cons_cons,
        List.getLast?_eq_getLast_of_ne_nil (List.cons_ne_nil b rest)] at hlast
      rw [planChain, piecesFrom_eq, Option.some.inj hlast]

/-- The pieces of a chain from its other end. -/
theorem pieces_planChain_reverse (cells : List Cell) (arrow arrow' : Arrow) (round : Bool) :
    (planChain cells.reverse arrow' round : Plan Rat).pieces =
      ((planChain cells arrow round : Plan Rat).pieces.map Piece.reversed).reverse := by
  match cells with
  | [] => rfl
  | [_] => rfl
  | a :: b :: rest =>
      obtain ⟨last, hlast⟩ : ∃ last, (a :: b :: rest).getLast? = some last :=
        ⟨_, List.getLast?_eq_getLast_of_ne_nil (List.cons_ne_nil a (b :: rest))⟩
      have hlength : 2 ≤ (a :: b :: rest).length := by simp
      have hfirst : (a :: b :: rest).reverse.head? = some last := by
        rw [List.head?_reverse, hlast]
      have hturned : (a :: b :: rest).reverse.getLast? = some a := by simp
      rw [pieces_planChain hlength rfl hlast, pieces_planChain (by simp) hfirst hturned]
      exact piecesAlong_reverse (middle a) (middle last) (a :: b :: rest)

/-- A connection looks the same from both ends: through the same points in line, from the last to
the first and with the heads exchanged, the pieces are the same ones backwards, and so are the
heads. -/
theorem plan_reversed {points : List Cell} (h : points.IsChain Flow.InLine) (arrow : Arrow)
    (round : Bool) :
    ∃ planned back : Plan Rat, plan (pointsThrough Rat points) arrow round = .ok planned ∧
      plan (pointsThrough Rat points.reverse) arrow.reversed round = .ok back ∧
      back.pieces = (planned.pieces.map Piece.reversed).reverse ∧
      List.Forall₂ Head.Same back.heads planned.heads.reverse := by
  have hexact (points : List Cell) := normalize_pointsThrough (Halves.rational 0) points
  refine ⟨_, _, plan_of_normalize (hexact points) arrow round,
    plan_of_normalize (hexact points.reverse) arrow.reversed round, ?_⟩
  rw [chain_reverse h]
  exact ⟨pieces_planChain_reverse (chain points) arrow arrow.reversed round,
    heads_planChain_reverse (isChain_chain points) arrow round⟩

/-- Points around a corner, straight on, around the next one, twice in the same cell and back. -/
def hook : List Cell := [⟨0, 0⟩, ⟨2, 0⟩, ⟨2, 1⟩, ⟨2, 1⟩, ⟨2, 3⟩, ⟨-1, 3⟩, ⟨1, 3⟩]

theorem hook_reversed :
    hook.IsChain Flow.InLine ∧
    (∃ planned back : Plan Rat, plan (pointsThrough Rat hook) .forward true = .ok planned ∧
      plan (pointsThrough Rat hook.reverse) Arrow.forward.reversed true = .ok back ∧
      back.pieces = (planned.pieces.map Piece.reversed).reverse ∧
      List.Forall₂ Head.Same back.heads planned.heads.reverse) ∧
    plan (pointsThrough Rat hook.reverse) ⟨true, false⟩ true =
      .ok ⟨[.segment ⟨1, 3⟩ ⟨-1, 3⟩, .segment ⟨-1, 3⟩ ⟨3 / 2, 3⟩, .corner ⟨2, 3⟩ .bottomRight,
        .segment ⟨2, 5 / 2⟩ ⟨2, 1 / 2⟩, .corner ⟨2, 0⟩ .topRight, .segment ⟨3 / 2, 0⟩ ⟨0, 0⟩],
        [⟨⟨1, 3⟩, 90⟩]⟩ := by
  have hline : hook.IsChain Flow.InLine := by decide
  exact ⟨hline, plan_reversed hline .forward true, by decide +kernel⟩

end Connection
end CellSketch
