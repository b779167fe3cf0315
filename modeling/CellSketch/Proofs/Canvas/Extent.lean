import CellSketch.Proofs.Canvas.Rooms

/-!
# Extent — how large the contexts of a canvas are

The size of a context is the largest of the extents that were asked for on it and on the contexts
inside it, each moved by the anchors on the way.

* `Canvas.sizeAlong_eq` — the size of a context by those of the contexts inside it;
* `Keeps.isGreatest_sizeAlong` — the size of a context is the largest extent that was asked for;
* `sizeAlong_exact` — which holds for every program, and what follows for its next operation.
-/

namespace CellSketch

open Number

variable {α : Type} [Scalar α]

/-! ## Contexts inside of others -/

/-- A context lies inside another one, or is that one, with this sum of the anchors on the way. -/
inductive Under (rooms : List Room) : Nat → Nat → Cell → Prop where
  | self (i : Nat) : Under rooms i i ⟨0, 0⟩
  | child {i d : Nat} {room : Room} {child : Child} {anchors : Cell} (hroom : rooms[i]? = some room)
      (hchild : child ∈ room.children) (hunder : Under rooms child.index d anchors) :
      Under rooms i d (anchors.from child.anchor)

/-- Where the extents end that were asked for on a context and on those inside it, seen from the
context. -/
def reserved (rooms : List Room) (i : Nat) (axis : Axis) : Set Int :=
  {n | ∃ d anchors room, Under rooms i d anchors ∧ rooms[d]? = some room ∧
    ∃ e ∈ room.extents, e.axis = axis ∧ n = axis.position anchors + e.stop}

theorem Axis.position_from (axis : Axis) (c anchors : Cell) :
    axis.position (c.from anchors) = axis.position anchors + axis.position c := by
  cases axis <;> rfl

/-! ## Sizes -/

namespace Canvas

/-- The size of a context in cells along an axis. -/
def sizeAlong (c : Canvas α) (i : Nat) (axis : Axis) : Int :=
  axis.position ⟨(c.sizeInCells i).1, (c.sizeInCells i).2⟩

end Canvas

omit [Scalar α] in
theorem sizesFrom_drop (contexts : List (Context α)) (base k : Nat) :
    (Canvas.sizesFrom base contexts).drop k = Canvas.sizesFrom (base + k) (contexts.drop k) := by
  induction k generalizing base contexts with
  | zero => rfl
  | succ k ih =>
      cases contexts with
      | nil => rfl
      | cons c rest =>
          rw [Canvas.sizesFrom, List.drop_succ_cons, List.drop_succ_cons, ih,
            Nat.add_right_comm base 1 k]
          rfl

namespace Canvas

variable {c : Canvas α} {i : Nat}

omit [Scalar α] in
/-- Looking up a context inside finds its size. -/
theorem later?_sizes {index : Nat} (hi : i < index) (hindex : index < c.contexts.size) :
    later? i index (sizesFrom (i + 1) (c.contexts.toList.drop (i + 1))) =
      some (c.sizeInCells index) := by
  have hdrop := sizesFrom_drop c.contexts.toList 0 (i + 1)
  rw [Nat.zero_add] at hdrop
  have hlength : index < (sizesFrom 0 c.contexts.toList).length := by
    rwa [length_sizesFrom, Array.length_toList]
  have hback : i + 1 + (index - i - 1) = index := by omega
  rw [← hdrop, later?, if_pos hi, List.getElem?_drop, hback, sizeInCells,
    List.getElem?_eq_getElem hlength, Option.getD_some]

omit [Scalar α] in
theorem sizeInCells_eq {context : Context α} (hcontext : c.context? i = some context) :
    c.sizeInCells i = context.children.toList.foldl
      (fun (size : Int × Int) (child : Child) =>
        match later? i child.index (sizesFrom (i + 1) (c.contexts.toList.drop (i + 1))) with
        | some inner => (max size.1 (child.x + inner.1), max size.2 (child.y + inner.2))
        | none => size) (context.width, context.height) := by
  have hget : c.contexts.toList[i]? = some context := by
    rwa [Array.getElem?_toList]
  obtain ⟨hi, hget⟩ := List.getElem?_eq_some_iff.1 hget
  have hdrop := sizesFrom_drop c.contexts.toList 0 i
  rw [Nat.zero_add, List.drop_eq_getElem_cons hi, hget, sizesFrom] at hdrop
  have hfirst : (sizesFrom 0 c.contexts.toList)[i]? =
      ((sizesFrom 0 c.contexts.toList).drop i)[0]? := by
    rw [List.getElem?_drop, Nat.add_zero]
  rw [sizeInCells, hfirst, hdrop]
  rfl

omit [Scalar α] in
/-- The size of a context is that of its own room and of the contexts inside it, each moved by its
anchor. -/
theorem sizeAlong_eq {context : Context α} (hcontext : c.context? i = some context)
    (hlater : ∀ child ∈ context.children.toList,
      i < child.index ∧ child.index < c.contexts.size) (axis : Axis) :
    c.sizeAlong i axis = (context.children.toList.map fun child =>
      axis.position child.anchor + c.sizeAlong child.index axis).foldl max (context.room axis) := by
  rw [sizeAlong, sizeInCells_eq hcontext, Context.room]
  generalize context.width = width, context.height = height
  generalize context.children.toList = children at hlater ⊢
  induction children generalizing width height with
  | nil => rfl
  | cons child rest ih =>
      obtain ⟨hi, hindex⟩ := hlater child List.mem_cons_self
      rw [List.foldl_cons, later?_sizes hi hindex]
      refine (ih _ _ fun other hother => hlater other (List.mem_cons_of_mem child hother)).trans ?_
      cases axis <;> rfl

omit [Scalar α] in
theorem sizeAlong_of_none (hcontext : c.context? i = none) (axis : Axis) :
    c.sizeAlong i axis = 0 := by
  have hnone : (sizesFrom 0 c.contexts.toList)[i]? = none := by
    rw [List.getElem?_eq_none_iff, length_sizesFrom, Array.length_toList]
    exact Array.getElem?_eq_none_iff.1 hcontext
  rw [sizeAlong, sizeInCells, hnone]
  cases axis <;> rfl

end Canvas

/-! ## The largest extent -/

theorem Room.mem_stops {room : Room} {axis : Axis} {n : Int} :
    n ∈ room.stops axis ↔ ∃ e ∈ room.extents, e.axis = axis ∧ n = e.stop := by
  simp [stops, and_assoc, eq_comm]

theorem mem_reserved_iff {rooms : List Room} {i : Nat} {room : Room} {axis : Axis}
    (hroom : rooms[i]? = some room) {n : Int} :
    n ∈ reserved rooms i axis ↔ n ∈ room.stops axis ∨
      ∃ child ∈ room.children, ∃ m ∈ reserved rooms child.index axis,
        n = axis.position child.anchor + m := by
  constructor
  · rintro ⟨d, anchors, found, hunder, hfound, e, he, haxis, rfl⟩
    cases hunder with
    | self =>
        rw [hroom, Option.some.injEq] at hfound
        subst hfound
        refine Or.inl (Room.mem_stops.2 ⟨e, he, haxis, ?_⟩)
        cases axis <;> exact Int.zero_add _
    | @child _ _ outer child anchors houter hchild hinner =>
        rw [hroom, Option.some.injEq] at houter
        subst houter
        refine Or.inr ⟨child, hchild, _, ⟨d, anchors, found, hinner, hfound, e, he, haxis, rfl⟩, ?_⟩
        rw [Axis.position_from, Int.add_assoc]
  · rintro (hstop | ⟨child, hchild, m, ⟨d, anchors, found, hinner, hfound, e, he, haxis, rfl⟩, rfl⟩)
    · obtain ⟨e, he, haxis, rfl⟩ := Room.mem_stops.1 hstop
      refine ⟨i, ⟨0, 0⟩, room, .self i, hroom, e, he, haxis, ?_⟩
      cases axis <;> exact (Int.zero_add _).symm
    · refine ⟨d, _, found, .child hroom hchild hinner, hfound, e, he, haxis, ?_⟩
      rw [Axis.position_from, Int.add_assoc]

theorem reserved_eq_empty {rooms : List Room} {i : Nat} (hroom : rooms[i]? = none) (axis : Axis) :
    reserved rooms i axis = ∅ := by
  refine Set.eq_empty_of_forall_notMem ?_
  rintro n ⟨d, anchors, found, hunder, hfound, -⟩
  cases hunder with
  | self =>
      rw [hroom] at hfound
      cases hfound
  | child houter =>
      rw [hroom] at houter
      cases houter

/-- The largest of the room of a context and of the sizes of those inside it, each moved by its
anchor, if these are the largest of what was reserved there. -/
theorem isGreatest_reserved {rooms : List Room} {i : Nat} {room : Room} {axis : Axis} {own : Int}
    (size : Nat → Int) (hroom : rooms[i]? = some room)
    (hown : IsGreatest {n | n = 0 ∨ n ∈ room.stops axis} own)
    (hanchored : ∀ child ∈ room.children, axis.position child.anchor ≤ own)
    (hinner : ∀ child ∈ room.children,
      IsGreatest (insert 0 (reserved rooms child.index axis)) (size child.index)) :
    IsGreatest (insert 0 (reserved rooms i axis))
      ((room.children.map fun child =>
        axis.position child.anchor + size child.index).foldl max own) := by
  obtain ⟨hchoice, hbound⟩ := isGreatest_foldl_max own
    (room.children.map fun child => axis.position child.anchor + size child.index)
  generalize List.foldl max own _ = greatest at hchoice hbound ⊢
  have hle : own ≤ greatest := hbound (Or.inl rfl)
  have hmem : own ∈ insert 0 (reserved rooms i axis) :=
    hown.1.imp id fun hstop => (mem_reserved_iff hroom).2 (Or.inl hstop)
  constructor
  · rcases hchoice with heq | hchild
    · rwa [heq]
    · obtain ⟨child, hchild, heq⟩ := List.mem_map.1 hchild
      rcases (hinner child hchild).1 with hzero | hreserved
      · -- a context without room adds nothing to the room around its anchor
        have hanchor := hanchored child hchild
        have hgreatest : greatest = own := by omega
        rwa [hgreatest]
      · exact Or.inr ((mem_reserved_iff hroom).2 (Or.inr ⟨child, hchild, _, hreserved, heq.symm⟩))
  · rintro n (rfl | hn)
    · exact (hown.2 (Or.inl rfl)).trans hle
    · rcases (mem_reserved_iff hroom).1 hn with hstop | ⟨child, hchild, m, hm, rfl⟩
      · exact (hown.2 (Or.inr hstop)).trans hle
      · have hsize := (hinner child hchild).2 (Or.inr hm)
        have hgreatest := hbound (Or.inr (List.mem_map.2 ⟨child, hchild, rfl⟩))
        omega

omit [Scalar α] in
/-- The size of a context is the largest of nothing at all and of what was reserved on it and on the
contexts inside it. -/
theorem Keeps.isGreatest_sizeAlong {rooms : List Room} {c : Canvas α} (K : Keeps rooms c)
    (axis : Axis) (i : Nat) :
    IsGreatest (insert 0 (reserved rooms i axis)) (c.sizeAlong i axis) := by
  rcases K.cases i with ⟨hroom, hcontext⟩ | ⟨room, context, hroom, hcontext, M⟩
  · rw [reserved_eq_empty hroom, Canvas.sizeAlong_of_none hcontext]
    simp
  · have hlater : ∀ child ∈ room.children, i < child.index ∧ child.index < c.contexts.size := by
      intro child hchild
      have hlength : rooms.length = c.contexts.size := List.Forall₂.length_eq K.measures
      exact hlength ▸ K.later i room hroom child hchild
    -- contexts inside come later, so their sizes may be taken as known
    have hinner (child : Child) (hchild : child ∈ room.children) :
        IsGreatest (insert 0 (reserved rooms child.index axis)) (c.sizeAlong child.index axis) :=
      have hi := (hlater child hchild).1
      K.isGreatest_sizeAlong axis child.index
    have hown := isGreatest_foldl_max 0 (room.stops axis)
    rw [← M.size] at hown
    rw [Canvas.sizeAlong_eq hcontext (by rwa [M.children]), M.children]
    exact isGreatest_reserved (c.sizeAlong · axis) hroom hown (M.anchored axis) hinner
termination_by rooms.length - i
decreasing_by
  have hlength := K.later i room hroom child hchild
  omega

/-! ## One more operation -/

/-- Records that were only added to. -/
def Grows (rooms rooms' : List Room) : Prop :=
  ∀ (i : Nat) (room : Room), rooms[i]? = some room →
    ∃ room', rooms'[i]? = some room' ∧ room.extents ⊆ room'.extents ∧
      room.children ⊆ room'.children

theorem Under.mono {rooms rooms' : List Room}
    (h : ∀ (i : Nat) (room : Room), rooms[i]? = some room →
      ∃ room', rooms'[i]? = some room' ∧ room.children ⊆ room'.children)
    {i d : Nat} {anchors : Cell} (hunder : Under rooms i d anchors) : Under rooms' i d anchors := by
  induction hunder with
  | self i => exact .self i
  | child hroom hchild _ ih =>
      obtain ⟨room', hroom', hchildren⟩ := h _ _ hroom
      exact .child hroom' (hchildren hchild) ih

theorem Grows.under {rooms rooms' : List Room} (h : Grows rooms rooms') {i d : Nat} {anchors : Cell}
    (hunder : Under rooms i d anchors) : Under rooms' i d anchors := by
  refine hunder.mono fun i room hroom => ?_
  obtain ⟨room', hroom', -, hchildren⟩ := h i room hroom
  exact ⟨room', hroom', hchildren⟩

theorem reserved_mono {rooms rooms' : List Room} (h : Grows rooms rooms') (i : Nat) (axis : Axis) :
    reserved rooms i axis ⊆ reserved rooms' i axis := by
  rintro n ⟨d, anchors, room, hunder, hroom, e, he, haxis, rfl⟩
  obtain ⟨room', hroom', hextents, -⟩ := h d room hroom
  exact ⟨d, anchors, room', h.under hunder, hroom', e, hextents he, haxis, rfl⟩

theorem Room.extents_work (c : Context α) (room : Room) (w : Work α) :
    room.extents ⊆ (room.work c w).extents := by
  cases w with
  | translate | draw | setSize => exact List.subset_append_left _ _
  | setStroke | setFill | setFont | setDebug => exact List.Subset.refl _

theorem Grows.set {rooms : List Room} {i : Nat} {room room' : Room} (hroom : rooms[i]? = some room)
    (hextents : room.extents ⊆ room'.extents) (hchildren : room.children ⊆ room'.children) :
    Grows rooms (rooms.set i room') := by
  intro j found hfound
  rw [List.getElem?_set]
  split
  · rename_i hij
    subst hij
    rw [hroom, Option.some.injEq] at hfound
    subst hfound
    rw [if_pos (List.getElem?_eq_some_iff.1 hroom).1]
    exact ⟨room', rfl, hextents, hchildren⟩
  · exact ⟨found, hfound, List.Subset.refl _, List.Subset.refl _⟩

theorem grows_perform (c : Canvas α) (rooms : List Room) (op : Op α) :
    Grows rooms (Rooms.perform c rooms op) := by
  have hrefl : Grows rooms rooms := fun _ room hroom =>
    ⟨room, hroom, List.Subset.refl _, List.Subset.refl _⟩
  cases op with
  | addContext i =>
      unfold Rooms.perform
      dsimp only
      cases hroom : rooms[i]? with
      | none => exact hrefl
      | some room =>
          have hgrows : Grows rooms (rooms.set i { room with
              children := room.children ++ [⟨room.origin.x, room.origin.y, rooms.length⟩] }) :=
            Grows.set hroom (List.Subset.refl _) (List.subset_append_left _ _)
          intro j found hfound
          obtain ⟨room', hroom', hgrown⟩ := hgrows j found hfound
          refine ⟨room', ?_, hgrown⟩
          rw [List.getElem?_append_left (List.getElem?_eq_some_iff.1 hroom').1]
          exact hroom'
  | work i w =>
      unfold Rooms.perform
      dsimp only
      split
      · rename_i context room _ hroom
        exact Grows.set hroom (Room.extents_work context room w)
          (by rw [Room.children_work]; exact List.Subset.refl _)
      · exact hrefl

/-- A translation asks for one cell at the new origin, wherever the context lies. -/
theorem mem_reserved_translate {rooms : List Room} {j : Nat} {room : Room}
    (hroom : rooms[j]? = some room) (c : Context α) (dx dy : Int) {i : Nat} {axis : Axis}
    {n : Int} :
    n ∈ reserved (rooms.set j (room.work c (.translate dx dy))) i axis ↔
      n ∈ reserved rooms i axis ∨ ∃ anchors, Under rooms i j anchors ∧
        n = axis.position anchors +
          (axis.position ⟨max 0 (room.origin.x + dx), max 0 (room.origin.y + dy)⟩ + 1) := by
  have hj := (List.getElem?_eq_some_iff.1 hroom).1
  have hset : (rooms.set j (room.work c (.translate dx dy)))[j]? =
      some (room.work c (.translate dx dy)) := List.getElem?_set_self hj
  have hgrows : Grows rooms (rooms.set j (room.work c (.translate dx dy))) :=
    Grows.set hroom (Room.extents_work _ _ _) (by rw [Room.children_work]; exact List.Subset.refl _)
  -- contexts stay inside of one another as they are
  have hunder {d : Nat} {anchors : Cell}
      (h : Under (rooms.set j (room.work c (.translate dx dy))) i d anchors) :
      Under rooms i d anchors := by
    refine h.mono fun k found hfound => ?_
    rw [List.getElem?_set] at hfound
    split at hfound
    · rename_i hjk
      subst hjk
      rw [Option.some.injEq] at hfound
      subst hfound
      exact ⟨room, hroom, by rw [Room.children_work]; exact List.Subset.refl _⟩
    · exact ⟨found, hfound, List.Subset.refl _⟩
  constructor
  · rintro ⟨d, anchors, found, hinside, hfound, e, he, haxis, rfl⟩
    by_cases hdj : d = j
    · subst hdj
      rw [hset, Option.some.injEq] at hfound
      subst hfound
      rcases List.mem_append.1 he with he | he
      · exact Or.inl ⟨d, anchors, room, hunder hinside, hroom, e, he, haxis, rfl⟩
      · refine Or.inr ⟨anchors, hunder hinside, ?_⟩
        subst haxis
        simp only [List.map_cons, List.map_nil, List.mem_cons, List.not_mem_nil, or_false] at he
        rcases he with rfl | rfl <;> simp [Extent.stop]
    · rw [List.getElem?_set_ne (Ne.symm hdj)] at hfound
      exact Or.inl ⟨d, anchors, found, hunder hinside, hfound, e, he, haxis, rfl⟩
  · rintro (hold | ⟨anchors, hinside, rfl⟩)
    · exact reserved_mono hgrows i axis hold
    · refine ⟨j, anchors, _, hgrows.under hinside, hset,
        ⟨axis, axis.position ⟨max 0 (room.origin.x + dx), max 0 (room.origin.y + dy)⟩, 0⟩, ?_, rfl,
        ?_⟩
      · refine List.mem_append_right _ ?_
        cases axis <;> simp
      · simp [Extent.stop]

/-! ## Whole programs -/

namespace Canvas

/-- What a program on an empty canvas comes to. -/
def after (styling : Styling) (cell : CellSize α) (style : Style α) (program : List (Op α)) :
    Canvas α :=
  (blank styling cell style).carryOn program

/-- The record of a program on an empty canvas. -/
def roomsAfter (styling : Styling) (cell : CellSize α) (style : Style α)
    (program : List (Op α)) : List Room :=
  (blank styling cell style).record [{}] program

end Canvas

section Programs

variable (styling : Styling) (cell : CellSize α) (style : Style α) (program : List (Op α))

theorem keeps_after : Keeps (Canvas.roomsAfter styling cell style program)
    (Canvas.after styling cell style program) :=
  (Keeps.blank styling cell style).carryOn program

theorem after_append (op : Op α) : Canvas.after styling cell style (program ++ [op]) =
    ((Canvas.after styling cell style program).perform op).state :=
  Canvas.carryOn_append _ _ _

theorem roomsAfter_append (op : Op α) : Canvas.roomsAfter styling cell style (program ++ [op]) =
    Rooms.perform (Canvas.after styling cell style program)
      (Canvas.roomsAfter styling cell style program) op :=
  Canvas.record_append _ _ _ _

theorem sizeAlong_le_append (op : Op α) (i : Nat) (axis : Axis) :
    (Canvas.after styling cell style program).sizeAlong i axis ≤
      (Canvas.after styling cell style (program ++ [op])).sizeAlong i axis := by
  have hbefore := (keeps_after styling cell style program).isGreatest_sizeAlong axis i
  have hafter := (keeps_after styling cell style (program ++ [op])).isGreatest_sizeAlong axis i
  rw [roomsAfter_append] at hafter
  exact hbefore.mono hafter (Set.insert_subset_insert (reserved_mono (grows_perform _ _ op) i axis))

/-- Work leaves every context anchored where it is. -/
theorem children_append_work (j : Nat) (w : Work α) (k : Nat) :
    ((Canvas.after styling cell style (program ++ [.work j w])).context? k).map (·.children) =
      ((Canvas.after styling cell style program).context? k).map (·.children) := by
  rw [after_append]
  unfold Canvas.perform Canvas.attempt
  dsimp only
  -- the context that is worked on keeps those inside it, and no other one is touched
  rcases (keeps_after styling cell style program).cases j with
    ⟨-, hcontext⟩ | ⟨room, context, -, hcontext, M⟩
  · rw [hcontext]
  · rw [hcontext]
    unfold Canvas.context? at hcontext ⊢
    dsimp only [Attempt.map]
    rw [Array.set!_eq_setIfInBounds, Array.getElem?_setIfInBounds]
    split
    · rename_i hjk
      subst hjk
      rw [if_pos (Array.getElem?_eq_some_iff.1 hcontext).1, hcontext, Option.map_some,
        Option.map_some, M.children_work]
    · rfl

/-- A translation asks for one cell at the new origin and changes no other size. -/
theorem isGreatest_append_translate (j : Nat) (dx dy : Int) (i : Nat) (axis : Axis) :
    IsGreatest
      (insert ((Canvas.after styling cell style program).sizeAlong i axis)
        {n | ∃ anchors room, Under (Canvas.roomsAfter styling cell style program) i j anchors ∧
          (Canvas.roomsAfter styling cell style program)[j]? = some room ∧
          n = axis.position anchors +
            (axis.position ⟨max 0 (room.origin.x + dx), max 0 (room.origin.y + dy)⟩ + 1)})
      ((Canvas.after styling cell style
        (program ++ [.work j (.translate dx dy)])).sizeAlong i axis) := by
  have K := keeps_after styling cell style program
  have hbefore := K.isGreatest_sizeAlong axis i
  have hafter := (keeps_after styling cell style
    (program ++ [.work j (.translate dx dy)])).isGreatest_sizeAlong axis i
  have hle := sizeAlong_le_append styling cell style program (.work j (.translate dx dy)) i axis
  rw [roomsAfter_append] at hafter
  generalize Canvas.roomsAfter styling cell style program = rooms at *
  generalize Canvas.after styling cell style program = c at *
  generalize Canvas.sizeAlong _ i axis = size at hafter hle ⊢
  have hrooms (n : Int) :
      n ∈ reserved (Rooms.perform c rooms (.work j (.translate dx dy))) i axis ↔
        n ∈ reserved rooms i axis ∨ ∃ anchors room, Under rooms i j anchors ∧
          rooms[j]? = some room ∧ n = axis.position anchors +
            (axis.position ⟨max 0 (room.origin.x + dx), max 0 (room.origin.y + dy)⟩ + 1) := by
    rcases K.cases j with ⟨hroom, hcontext⟩ | ⟨room, context, hroom, hcontext, -⟩
    · simp [Rooms.perform, hroom, hcontext]
    · simp only [Rooms.perform, hroom, hcontext, mem_reserved_translate hroom, Option.some.injEq]
      refine or_congr_right (exists_congr fun anchors => ?_)
      constructor
      · rintro ⟨hunder, hn⟩
        exact ⟨room, hunder, rfl, hn⟩
      · rintro ⟨_, hunder, rfl, hn⟩
        exact ⟨hunder, hn⟩
  constructor
  -- the new size was asked for before, so it is the old one, or by the translation
  · rcases hafter.1 with hzero | hmem
    · have hnonneg := hbefore.2 (Or.inl rfl)
      exact Or.inl (le_antisymm (hzero.le.trans hnonneg) hle)
    · rcases (hrooms size).1 hmem with hold | hnew
      · exact Or.inl (le_antisymm (hbefore.2 (Or.inr hold)) hle)
      · exact Or.inr hnew
  · rintro n (rfl | hn)
    · exact hle
    · exact hafter.2 (Or.inr ((hrooms n).2 (Or.inr hn)))

/-- The size of a context is exactly what was asked for on it and on the contexts inside it.  So it
never shrinks, and as contexts stay anchored where they are, a translation adds no more than one
cell at the new origin. -/
theorem sizeAlong_exact (i : Nat) (axis : Axis) :
    IsGreatest (insert 0 (reserved (Canvas.roomsAfter styling cell style program) i axis))
      ((Canvas.after styling cell style program).sizeAlong i axis) ∧
    (∀ op, (Canvas.after styling cell style program).sizeAlong i axis ≤
      (Canvas.after styling cell style (program ++ [op])).sizeAlong i axis) ∧
    (∀ j w k,
      ((Canvas.after styling cell style (program ++ [.work j w])).context? k).map (·.children) =
        ((Canvas.after styling cell style program).context? k).map (·.children)) ∧
    ∀ j dx dy, IsGreatest
      (insert ((Canvas.after styling cell style program).sizeAlong i axis)
        {n | ∃ anchors room, Under (Canvas.roomsAfter styling cell style program) i j anchors ∧
          (Canvas.roomsAfter styling cell style program)[j]? = some room ∧
          n = axis.position anchors +
            (axis.position ⟨max 0 (room.origin.x + dx), max 0 (room.origin.y + dy)⟩ + 1)})
      ((Canvas.after styling cell style
        (program ++ [.work j (.translate dx dy)])).sizeAlong i axis) :=
  ⟨(keeps_after styling cell style program).isGreatest_sizeAlong axis i,
    fun op => sizeAlong_le_append styling cell style program op i axis,
    fun j w k => children_append_work styling cell style program j w k,
    fun j dx dy => isGreatest_append_translate styling cell style program j dx dy i axis⟩

end Programs

end CellSketch
