import Mathlib.Order.Bounds.Basic
import CellSketch.Proofs.Canvas.Ledger

/-!
# Rooms — what room a program asks for

The room that a program asks for is written down in cells: for each context the origin of the
moment, every extent that was asked for with the origin it was counted from, and the contexts
created inside with the origin they were anchored at.  An operation that meets a fault has asked for
what it came to until then, and the program goes on.

* `Measures.work` — a context that measures up to its record goes on to do so;
* `Keeps.carryOn` — and so does a canvas, whatever is done with it;
* `run_eq_carryOn` — a run that stops at a fault is one of these.
-/

namespace CellSketch

open Number

variable {α : Type} [Scalar α]

/-! ## The record -/

/-- Room up to a whole column or row, counted from an origin. -/
structure Extent where
  axis : Axis
  origin : Int
  last : Int
  deriving DecidableEq, Repr

/-- Where an extent ends. -/
def Extent.stop (e : Extent) : Int := e.origin + e.last + 1

/-- What is known of the room of a context. -/
structure Room where
  origin : Cell := ⟨0, 0⟩
  extents : List Extent := []
  children : List Child := []
  deriving DecidableEq, Repr

namespace Room

/-- Asks for room along each of the axes. -/
def extend (room : Room) (lasts : List (Axis × Int)) : Room :=
  { room with
    extents := room.extents ++
      lasts.map fun last => ⟨last.1, last.1.position room.origin, last.2⟩ }

end Room

/-- The last column and row of a position, up to the first that is no number. -/
def lasts (p : Point α) : List (Axis × Int) :=
  match Scalar.ceil p.x with
  | .error _ => []
  | .ok column =>
      (.horizontal, column) ::
        match Scalar.ceil p.y with
        | .error _ => []
        | .ok row => [(.vertical, row)]

/-- The positions up to which room is reserved when primitives are drawn: those of every one up to
the first that fails. -/
def Context.reaches (c : Context α) : List (Primitive α) → List (Point α)
  | [] => []
  | p :: rest =>
      p.reach.toList ++
        match (c.draw p).fault with
        | none => (c.draw p).state.reaches rest
        | some _ => []

/-- Work on a context: its origin stops at the edges, and all that is asked for is written down with
the origin of the moment. -/
def Room.work (c : Context α) (room : Room) : Work α → Room
  | .translate dx dy =>
      { room with origin := ⟨max 0 (room.origin.x + dx), max 0 (room.origin.y + dy)⟩ }.extend
        [(.horizontal, 0), (.vertical, 0)]
  | .draw primitives => room.extend ((c.reaches primitives).flatMap lasts)
  | .setSize last => room.extend (lasts last)
  | .setStroke _ | .setFill _ | .setFont _ | .setDebug .. => room

namespace Rooms

/-- An operation on a canvas. -/
def perform (c : Canvas α) (rooms : List Room) : Op α → List Room
  | .addContext i =>
      match rooms[i]? with
      | none => rooms
      | some room =>
          rooms.set i { room with
            children := room.children ++ [⟨room.origin.x, room.origin.y, rooms.length⟩] } ++ [{}]
  | .work i w =>
      match c.context? i, rooms[i]? with
      | some context, some room => rooms.set i (room.work context w)
      | _, _ => rooms

end Rooms

namespace Canvas

/-- Performs all operations; one that fails leaves behind what was done until then. -/
def carryOn (c : Canvas α) : List (Op α) → Canvas α
  | [] => c
  | op :: rest => (c.perform op).state.carryOn rest

/-- The record of a program, going on from an earlier one. -/
def record (c : Canvas α) (rooms : List Room) : List (Op α) → List Room
  | [] => rooms
  | op :: rest => (c.perform op).state.record (Rooms.perform c rooms op) rest

theorem carryOn_append (c : Canvas α) (first second : List (Op α)) :
    c.carryOn (first ++ second) = (c.carryOn first).carryOn second := by
  induction first generalizing c with
  | nil => rfl
  | cons op rest ih => exact ih _

theorem record_append (c : Canvas α) (rooms : List Room) (first second : List (Op α)) :
    c.record rooms (first ++ second) = (c.carryOn first).record (c.record rooms first) second := by
  induction first generalizing c rooms with
  | nil => rfl
  | cons op rest ih => exact ih _ _

/-- A run up to the first fault is what a part of the program comes to. -/
theorem run_eq_carryOn (c : Canvas α) (program : List (Op α)) :
    ∃ done rest, program = done ++ rest ∧ (c.run program).state = c.carryOn done ∧
      ((c.run program).fault = none → rest = []) := by
  induction program generalizing c with
  | nil => exact ⟨[], [], rfl, rfl, fun _ => rfl⟩
  | cons op rest ih =>
      cases hfault : (c.perform op).fault with
      | some fault =>
          have hrun : c.run (op :: rest) = c.perform op := by
            rw [run, Attempt.each, Attempt.andThen, hfault]
          refine ⟨[op], rest, rfl, by rw [hrun]; rfl, fun hnone => ?_⟩
          rw [hrun, hfault] at hnone
          cases hnone
      | none =>
          have hrun : c.run (op :: rest) = (c.perform op).state.run rest := by
            rw [run, Attempt.each, Attempt.andThen, hfault]
            rfl
          obtain ⟨done, more, rfl, hstate, hall⟩ := ih (c.perform op).state
          refine ⟨op :: done, more, rfl, ?_, ?_⟩
          · rw [hrun, hstate]
            rfl
          · rwa [hrun]

end Canvas

/-! ## The largest of some numbers -/

theorem isGreatest_foldl_max (first : Int) (numbers : List Int) :
    IsGreatest {n | n = first ∨ n ∈ numbers} (numbers.foldl max first) := by
  induction numbers generalizing first with
  | nil =>
      refine ⟨Or.inl rfl, ?_⟩
      rintro n (rfl | hn)
      · exact le_rfl
      · cases hn
  | cons m rest ih =>
      obtain ⟨hmem, hle⟩ := ih (max first m)
      rw [List.foldl_cons]
      constructor
      · rcases hmem with heq | hrest
        · rw [heq]
          rcases max_choice first m with hfirst | hm
          · exact Or.inl hfirst
          · exact Or.inr (by rw [hm]; exact List.mem_cons_self)
        · exact Or.inr (List.mem_cons_of_mem m hrest)
      · have hmax : max first m ≤ rest.foldl max (max first m) := hle (Or.inl rfl)
        rintro n (rfl | hn)
        · exact (le_max_left n m).trans hmax
        · rcases List.mem_cons.1 hn with rfl | hrest
          · exact (le_max_right first n).trans hmax
          · exact hle (Or.inr hrest)

theorem le_foldl_max (first : Int) (numbers : List Int) : first ≤ numbers.foldl max first :=
  (isGreatest_foldl_max first numbers).2 (Or.inl rfl)

/-! ## Contexts and their records -/

/-- Where the origin of a context inside another one lies. -/
def Child.anchor (child : Child) : Cell := ⟨child.x, child.y⟩

namespace Context

/-- The room of a context itself along an axis. -/
def room (c : Context α) (axis : Axis) : Int := axis.position ⟨c.width, c.height⟩

/-- Reserves room up to and including columns and rows. -/
def extend (c : Context α) (lasts : List (Axis × Int)) : Context α :=
  lasts.foldl
    (fun c last => match last.1 with
      | .horizontal => c.widen last.2
      | .vertical => c.heighten last.2) c

omit [Scalar α] in
@[simp] theorem origin_extend (c : Context α) (lasts : List (Axis × Int)) :
    (c.extend lasts).origin = c.origin := by
  induction lasts generalizing c with
  | nil => rfl
  | cons last rest ih =>
      rw [extend, List.foldl_cons]
      refine (ih _).trans ?_
      split <;> rfl

omit [Scalar α] in
@[simp] theorem children_extend (c : Context α) (lasts : List (Axis × Int)) :
    (c.extend lasts).children = c.children := by
  induction lasts generalizing c with
  | nil => rfl
  | cons last rest ih =>
      rw [extend, List.foldl_cons]
      refine (ih _).trans ?_
      split <;> rfl

omit [Scalar α] in
theorem room_extend (c : Context α) (lasts : List (Axis × Int)) (axis : Axis) :
    (c.extend lasts).room axis = ((lasts.filter (·.1 = axis)).map fun last =>
      axis.position c.origin + last.2 + 1).foldl max (c.room axis) := by
  induction lasts generalizing c with
  | nil => rfl
  | cons last rest ih =>
      obtain ⟨axis', n⟩ := last
      rw [extend, List.foldl_cons]
      refine (ih _).trans ?_
      cases axis <;> cases axis' <;> rfl

omit [Scalar α] in
theorem room_le_extend (c : Context α) (lasts : List (Axis × Int)) (axis : Axis) :
    c.room axis ≤ (c.extend lasts).room axis := by
  rw [room_extend]
  exact le_foldl_max _ _

theorem state_setSize (c : Context α) (p : Point α) : (c.setSize p).state = c.extend (lasts p) := by
  unfold setSize lasts
  cases Scalar.ceil p.x with
  | error fault => rfl
  | ok column => cases Scalar.ceil p.y <;> rfl

end Context

namespace Room

/-- Where the extents along an axis end. -/
def stops (room : Room) (axis : Axis) : List Int :=
  (room.extents.filter (·.axis = axis)).map Extent.stop

theorem stops_extend (room : Room) (lasts : List (Axis × Int)) (axis : Axis) :
    (room.extend lasts).stops axis = room.stops axis ++
      (lasts.filter (·.1 = axis)).map fun last => axis.position room.origin + last.2 + 1 := by
  rw [stops, extend, List.filter_append, List.map_append, List.filter_map, List.map_map]
  refine congrArg _ (List.map_congr_left fun last hlast => ?_)
  obtain rfl : last.1 = axis := by simpa using (List.mem_filter.1 hlast).2
  rfl

theorem extend_extend (room : Room) (first second : List (Axis × Int)) :
    (room.extend first).extend second = room.extend (first ++ second) := by
  simp only [extend, List.map_append, List.append_assoc]

theorem extend_nil (room : Room) : room.extend [] = room := by
  simp [extend]

end Room

/-- Work on a context leaves the contexts inside it where they are. -/
theorem Room.children_work (c : Context α) (room : Room) (w : Work α) :
    (room.work c w).children = room.children := by
  cases w <;> rfl

/-- A context that measures up to its record. -/
structure Measures (room : Room) (c : Context α) : Prop where
  origin : c.origin = room.origin
  size : ∀ axis, c.room axis = (room.stops axis).foldl max 0
  children : c.children.toList = room.children
  /-- The origin and all anchors lie within the room. -/
  covers : ∀ axis, axis.position c.origin ≤ c.room axis
  anchored : ∀ axis, ∀ child ∈ room.children, axis.position child.anchor ≤ c.room axis

namespace Measures

variable {room : Room} {c : Context α}

omit [Scalar α] in
theorem extend (M : Measures room c) (lasts : List (Axis × Int)) :
    Measures (room.extend lasts) (c.extend lasts) where
  origin := by rw [c.origin_extend, M.origin, Room.extend]
  size axis := by
    rw [c.room_extend, room.stops_extend, List.foldl_append, M.size, M.origin]
  children := by rw [c.children_extend, M.children, Room.extend]
  covers axis := by
    rw [c.origin_extend]
    exact (M.covers axis).trans (c.room_le_extend lasts axis)
  anchored axis child hchild := (M.anchored axis child hchild).trans (c.room_le_extend lasts axis)

omit [Scalar α] in
/-- What is drawn or set takes no room. -/
theorem same (M : Measures room c) {c' : Context α} (horigin : c'.origin = c.origin)
    (hroom : c'.room = c.room) (hchildren : c'.children = c.children) : Measures room c' where
  origin := by rw [horigin, M.origin]
  size := by rw [hroom]; exact M.size
  children := by rw [hchildren, M.children]
  covers := by rw [horigin, hroom]; exact M.covers
  anchored := by rw [hroom]; exact M.anchored

theorem translate (M : Measures room c) (dx dy : Int) :
    Measures (room.work c (.translate dx dy)) (c.translate dx dy).state := by
  let origin : Cell := ⟨max 0 (c.origin.x + dx), max 0 (c.origin.y + dy)⟩
  -- the room for one cell at the new origin covers that origin
  have hmoved : Measures (room.work c (.translate dx dy))
      ({ c with origin := origin }.extend [(.horizontal, 0), (.vertical, 0)]) := by
    have hgrows (axis : Axis) : axis.position origin + 0 + 1 ≤
        ({ c with origin := origin }.extend [(.horizontal, 0), (.vertical, 0)]).room axis := by
      rw [Context.room_extend]
      refine (isGreatest_foldl_max _ _).2 (Or.inr ?_)
      cases axis <;> simp
    have hle (axis : Axis) := Context.room_le_extend { c with origin := origin }
      [(.horizontal, 0), (.vertical, 0)] axis
    refine ⟨?_, fun axis => ?_, ?_, fun axis => ?_, fun axis child hchild => ?_⟩
    · rw [Context.origin_extend, Room.work, Room.extend, ← M.origin]
    · rw [Context.room_extend, Room.work, Room.stops_extend, List.foldl_append, ← M.origin]
      exact congrArg (fun n => List.foldl max n _) (M.size axis)
    · rw [Context.children_extend]
      exact M.children
    · rw [Context.origin_extend]
      have := hgrows axis
      dsimp only
      omega
    · exact (M.anchored axis child hchild).trans (hle axis)
  unfold Context.translate
  dsimp only
  split
  · exact hmoved
  · exact Attempt.barring_preserves hmoved (hmoved.same rfl rfl rfl)

theorem draw (M : Measures room c) (p : Primitive α) :
    Measures (room.extend (p.reach.toList.flatMap lasts)) (c.draw p).state := by
  unfold Context.draw
  refine Attempt.andThen_preserves (P := Measures _) ?_ fun c M => ?_
  · cases p.reach with
    | none => simpa [Room.extend_nil] using M
    | some last =>
        dsimp only
        rw [c.state_setSize]
        simpa using M.extend (lasts last)
  · refine Attempt.barring_preserves (P := Measures _) M ?_
    refine Attempt.each_preserves (P := Measures _) (fun c s M => ?_) M _
    unfold Context.drawShape
    refine Attempt.barring_preserves (P := Measures _) M (Attempt.barring_preserves ?_ ?_)
    · split
      · exact M.same rfl rfl rfl
      · exact M
    · exact M.same rfl rfl rfl

theorem drawAll (M : Measures room c) (primitives : List (Primitive α)) :
    Measures (room.work c (.draw primitives)) (c.drawAll primitives).state := by
  unfold Room.work Context.drawAll
  dsimp only
  induction primitives generalizing room c with
  | nil => simpa [Attempt.each, Context.reaches, Room.extend_nil] using M
  | cons p rest ih =>
      have hfirst := M.draw p
      rw [Attempt.each, Attempt.andThen, Context.reaches, List.flatMap_append, ← Room.extend_extend]
      cases (c.draw p).fault with
      | none => exact ih hfirst
      | some fault => simpa [Room.extend_nil] using hfirst

theorem setting (M : Measures room c) {empty : Bool} {style : Style α} {change : Item α}
    (numbers : List α) :
    Measures room (if empty then (⟨c, none⟩ : Attempt (Context α))
      else { c with style := style }.note change numbers).state := by
  cases empty with
  | true => exact M
  | false => exact Attempt.barring_preserves (M.same rfl rfl rfl) (M.same rfl rfl rfl)

/-- Work on a context. -/
theorem work (M : Measures room c) (w : Work α) :
    Measures (room.work c w) (c.work w).state := by
  cases w with
  | translate dx dy => exact M.translate dx dy
  | draw primitives => exact M.drawAll primitives
  | setSize last =>
      rw [Context.work, c.state_setSize]
      exact M.extend (lasts last)
  | setStroke change => exact M.setting _
  | setFill change => exact M.setting _
  | setFont change => exact M.setting _
  | setDebug shown propagated => exact M.same rfl rfl rfl

/-- Work on a context leaves the contexts inside it where they are. -/
theorem children_work (M : Measures room c) (w : Work α) :
    (c.work w).state.children = c.children := by
  rw [← Array.toList_inj, (M.work w).children, Room.children_work, M.children]

/-- A context created inside starts without room. -/
theorem inner (c : Context α) : Measures {} c.inner where
  origin := rfl
  size axis := by cases axis <;> rfl
  children := rfl
  covers axis := by cases axis <;> exact Int.le_refl 0
  anchored axis child hchild := by cases hchild

omit [Scalar α] in
/-- Where a context is created, its anchor is put down. -/
theorem anchor (M : Measures room c) (index : Nat) (items : Array (Item α)) :
    Measures { room with children := room.children ++ [⟨room.origin.x, room.origin.y, index⟩] }
      { c with children := c.children.push ⟨c.origin.x, c.origin.y, index⟩, items := items } where
  origin := M.origin
  size := M.size
  children := by
    rw [Array.toList_push, M.children, M.origin]
  covers := M.covers
  anchored axis child hchild := by
    rcases List.mem_append.1 hchild with hchild | hchild
    · exact M.anchored axis child hchild
    · rw [List.mem_singleton.1 hchild, ← M.origin]
      exact M.covers axis

end Measures

/-! ## Canvases and their records -/

/-- A canvas of which every context measures up to its record, where contexts come after those
around them. -/
structure Keeps (rooms : List Room) (c : Canvas α) : Prop where
  measures : List.Forall₂ Measures rooms c.contexts.toList
  later : ∀ (i : Nat) (room : Room), rooms[i]? = some room → ∀ child ∈ room.children,
    i < child.index ∧ child.index < rooms.length

namespace Keeps

variable {rooms : List Room} {c : Canvas α}

omit [Scalar α] in
theorem blank (styling : Styling) (cell : CellSize α) (style : Style α) :
    Keeps [{}] (Canvas.blank styling cell style) where
  measures := .cons ⟨rfl, fun axis => by cases axis <;> rfl, rfl,
    fun axis => by cases axis <;> exact Int.le_refl 0, fun axis child hchild => by cases hchild⟩
    .nil
  later i room hroom child hchild := by
    rw [List.mem_singleton.1 (List.mem_of_getElem? hroom)] at hchild
    cases hchild

omit [Scalar α] in
/-- Every context has a record, and there are no other records. -/
theorem cases (K : Keeps rooms c) (i : Nat) :
    (rooms[i]? = none ∧ c.context? i = none) ∨
      ∃ room context, rooms[i]? = some room ∧ c.context? i = some context ∧
        Measures room context :=
  Canvas.context?_of_forall₂ K.measures i

theorem addContext (K : Keeps rooms c) (i : Nat) :
    Keeps (Rooms.perform c rooms (.addContext i)) (c.addContext i) := by
  unfold Canvas.addContext Rooms.perform
  dsimp only
  have hlength : rooms.length = c.contexts.size := List.Forall₂.length_eq K.measures
  rcases K.cases i with ⟨hroom, hcontext⟩ | ⟨room, context, hroom, hcontext, M⟩
  · rw [hroom, hcontext]
    exact K
  · rw [hroom, hcontext]
    dsimp only
    rw [hlength]
    constructor
    · dsimp only
      rw [Array.toList_push, Array.set!_eq_setIfInBounds, Array.toList_setIfInBounds]
      exact List.rel_append (forall₂_set K.measures (M.anchor _ _) i)
        (.cons (Measures.inner context) .nil)
    · obtain ⟨hi, -⟩ := List.getElem?_eq_some_iff.1 hroom
      intro j found hfound child hchild
      rw [List.length_append, List.length_set, List.length_singleton]
      rw [List.getElem?_append, List.length_set, List.getElem?_set] at hfound
      split at hfound
      · split at hfound
        · -- the record of the parent
          rename_i hij
          cases hfound
          rcases List.mem_append.1 hchild with hchild | hchild
          · have := K.later i room hroom child hchild
            omega
          · rw [List.mem_singleton.1 hchild]
            dsimp only
            omega
        · have := K.later j found hfound child hchild
          omega
      · -- the new record is empty
        rw [List.mem_singleton.1 (List.mem_of_getElem? hfound)] at hchild
        cases hchild

/-- One operation. -/
theorem perform (K : Keeps rooms c) (op : Op α) :
    Keeps (Rooms.perform c rooms op) (c.perform op).state := by
  cases op with
  | addContext i => exact K.addContext i
  | work i w =>
      unfold Canvas.perform Canvas.attempt Rooms.perform
      dsimp only
      rcases K.cases i with ⟨hroom, hcontext⟩ | ⟨room, context, hroom, hcontext, M⟩
      · rw [hroom, hcontext]
        exact K
      · rw [hroom, hcontext]
        dsimp only [Attempt.map]
        constructor
        · dsimp only
          rw [Array.set!_eq_setIfInBounds, Array.toList_setIfInBounds]
          exact forall₂_set K.measures (M.work w) i
        · intro j found hfound child hchild
          rw [List.length_set]
          rw [List.getElem?_set] at hfound
          split at hfound
          · split at hfound
            · rename_i hij _
              cases hfound
              refine hij ▸ K.later i room hroom child ?_
              rwa [Room.children_work] at hchild
            · cases hfound
          · exact K.later j found hfound child hchild

/-- A whole program. -/
theorem carryOn (K : Keeps rooms c) (program : List (Op α)) :
    Keeps (c.record rooms program) (c.carryOn program) := by
  induction program generalizing rooms c with
  | nil => exact K
  | cons op rest ih => exact ih (K.perform op)

end Keeps

end CellSketch
