import Mathlib.Algebra.BigOperators.Group.List.Lemmas
import Mathlib.Algebra.GroupWithZero.Nat
import CellSketch.Proofs.Canvas.Overlays
import CellSketch.Proofs.Scan.Painting

/-!
# Nesting — every context stands in one group

Whatever is done to a canvas, each of its contexts but the outermost one was created inside exactly
one other, which comes before it.  So anything that adds up over a context and those inside it
adds up, for the outermost context, over all of them.

* `Canvas.Nests.perform` — operations keep contexts nested;
* `Canvas.Nests.head?_weigh` — what adds up over contexts inside adds up over all contexts;
* `Canvas.Nests.mem_nested` — all contexts are inside the outermost one.
-/

namespace CellSketch

open Number

variable {α : Type}

/-! ## Contexts inside contexts -/

/-- The number of a context created here. -/
def Item.child? : Item α → Option Nat
  | .child index => some index
  | _ => none

/-- The numbers of the contexts created inside. -/
def Context.inside (c : Context α) : List Nat := c.children.toList.map Child.index

/-- Contexts created inside stand among the items, in the same order. -/
def Context.Lists (c : Context α) : Prop := c.items.toList.filterMap Item.child? = c.inside

/-- Every context is inside one that comes before it, except for the first. -/
structure Canvas.Nests (c : Canvas α) : Prop where
  nonempty : 0 < c.contexts.size
  lists : ∀ context ∈ c.contexts, context.Lists
  later : ∀ i context, c.context? i = some context → ∀ j ∈ context.inside, i < j
  once : (c.contexts.toList.flatMap Context.inside).Perm (List.range' 1 (c.contexts.size - 1))

namespace Context

theorem inside_congr {c c' : Context α} (h : c'.children = c.children) : c'.inside = c.inside := by
  rw [inside, h, inside]

theorem Lists.congr {c c' : Context α} (h : c.Lists) (hchildren : c'.children = c.children)
    (hitems : c'.items = c.items) : c'.Lists := by
  rw [Lists, hitems, inside_congr hchildren]
  exact h

theorem Lists.anchor {c : Context α} (h : c.Lists) (index : Nat) : (c.anchor index).Lists := by
  unfold Lists inside Context.anchor at *
  simp [h, Item.child?]

theorem inside_anchor (c : Context α) (index : Nat) :
    (c.anchor index).inside = c.inside ++ [index] := by
  simp [inside, Context.anchor]

variable [Scalar α]

theorem inside_work (c : Context α) (w : Work α) : (c.work w).state.inside = c.inside :=
  work_preserves (P := fun c' => c'.inside = c.inside)
    (fun _ _ hchildren _ _ h => (inside_congr hchildren).trans h) (fun _ _ _ h => h) rfl w

theorem inside_setCellSize (c : Context α) (width height : α) :
    (c.setCellSize width height).state.inside = c.inside :=
  setCellSize_preserves (P := fun c' => c'.inside = c.inside)
    (fun _ _ hchildren _ _ h => (inside_congr hchildren).trans h) rfl width height

theorem Lists.work {c : Context α} (h : c.Lists) (w : Work α) : (c.work w).state.Lists := by
  refine work_preserves (P := Lists) (fun _ _ hchildren hitems _ h => h.congr hchildren hitems)
    (fun c item hown h => ?_) h w
  have hnone : item.child? = none := by cases item <;> first | rfl | cases hown
  rw [Lists, push, Array.toList_push, List.filterMap_append, h]
  simp [hnone, inside]

theorem Lists.setCellSize {c : Context α} (h : c.Lists) (width height : α) :
    (c.setCellSize width height).state.Lists :=
  setCellSize_preserves (P := Lists) (fun _ _ hchildren hitems _ h => h.congr hchildren hitems) h
    width height

theorem lists_inner (c : Context α) : c.inner.Lists := rfl

end Context

namespace Canvas.Nests

variable {c : Canvas α}

theorem ofRoot {root : Context α} (hlists : root.Lists) (hinside : root.inside = []) :
    (Canvas.ofRoot root).Nests where
  nonempty := Nat.one_pos
  lists context hmem := by
    rw [List.mem_singleton.1 (Array.mem_toList_iff.2 hmem)]
    exact hlists
  later i context hcontext j hj := by
    have hmem : context ∈ [root] := Array.mem_toList_iff.2 (Array.mem_of_getElem? hcontext)
    rw [List.mem_singleton.1 hmem, hinside] at hj
    cases hj
  once := by simp [Canvas.ofRoot, hinside]

/-- Only what is inside the contexts matters. -/
theorem congr {c' : Canvas α} (h : c.Nests) (hlists : ∀ context ∈ c'.contexts, context.Lists)
    (hinside : ∀ i, (c'.context? i).map Context.inside = (c.context? i).map Context.inside) :
    c'.Nests := by
  have hmap : c'.contexts.toList.map Context.inside = c.contexts.toList.map Context.inside :=
    List.ext_getElem? fun i => by
      rw [List.getElem?_map, List.getElem?_map, Array.getElem?_toList, Array.getElem?_toList]
      exact hinside i
  have hsize : c'.contexts.size = c.contexts.size := by
    simpa using congrArg List.length hmap
  refine ⟨hsize ▸ h.nonempty, hlists, fun i context hcontext j hj => ?_, ?_⟩
  · have hsome := hinside i
    rw [hcontext, eq_comm] at hsome
    obtain ⟨found, hfound, heq⟩ := Option.map_eq_some_iff.1 hsome
    exact h.later i found hfound j (heq ▸ hj)
  · rw [hsize, List.flatMap_def, hmap, ← List.flatMap_def]
    exact h.once

theorem attempt (h : c.Nests) {f : Context α → Attempt (Context α)}
    (hlists : ∀ c : Context α, c.Lists → (f c).state.Lists)
    (hinside : ∀ c : Context α, (f c).state.inside = c.inside) (i : Nat) :
    (c.attempt i f).state.Nests :=
  h.congr (Canvas.forall_attempt hlists h.lists i) (Canvas.map_context?_attempt hinside c i)

variable [Scalar α]

/-- The number of a new context stands in its parent, and comes last in the range. -/
theorem once_addContext (h : c.Nests) {i : Nat} {parent : Context α}
    (hparent : c.context? i = some parent) :
    ((c.addContext i).contexts.toList.flatMap Context.inside).Perm
      (List.range' 1 c.contexts.size) := by
  have hlist : (c.addContext i).contexts.toList =
      (c.contexts.toList.modify i fun _ => parent.anchor c.contexts.size) ++ [parent.inner] := by
    rw [Canvas.addContext, hparent]
    simp [List.set_eq_modify, Context.anchor]
  have hget : c.contexts.toList[i]? = some parent := by
    rwa [Array.getElem?_toList]
  have hgrown := flatMap_modify_perm (f := fun _ => parent.anchor c.contexts.size) hget
    (parent.inside_anchor c.contexts.size)
  have hrange : List.range' 1 c.contexts.size =
      List.range' 1 (c.contexts.size - 1) ++ [c.contexts.size] := by
    have hnonempty := h.nonempty
    obtain ⟨n, hn⟩ : ∃ n, c.contexts.size = n + 1 := ⟨c.contexts.size - 1, by omega⟩
    rw [hn, List.range'_1_concat, Nat.add_sub_cancel, Nat.add_comm 1 n]
  have hinner : parent.inner.inside = [] := rfl
  rw [hlist, hrange, List.flatMap_append, List.flatMap_singleton, hinner, List.append_nil]
  exact hgrown.trans (h.once.append_right _)

theorem addContext (h : c.Nests) (i : Nat) : (c.addContext i).Nests := by
  cases hparent : c.context? i with
  | none =>
      rw [Canvas.addContext, hparent]
      exact h
  | some parent =>
      have hsize : (c.addContext i).contexts.size = c.contexts.size + 1 := by
        rw [Canvas.addContext, hparent]
        simp
      refine ⟨by omega, ?_, fun k context hcontext j hj => ?_, ?_⟩
      · exact Canvas.forall_perform (fun _ w hc => hc.work w) (fun _ index hc => hc.anchor index)
          (fun c _ => c.lists_inner) h.lists (.addContext i)
      · rw [Canvas.context?_addContext hparent] at hcontext
        split at hcontext
        · next hk =>
            cases hcontext
            rw [Context.inside_anchor, List.mem_append, List.mem_singleton] at hj
            rcases hj with hj | rfl
            · exact hk ▸ h.later i parent hparent j hj
            · exact hk ▸ (Array.getElem?_eq_some_iff.1 hparent).1
        · split at hcontext
          · cases hcontext
            cases hj
          · exact h.later k context hcontext j hj
      · rw [hsize, Nat.add_sub_cancel]
        exact h.once_addContext hparent

theorem perform (h : c.Nests) (op : Op α) : (c.perform op).state.Nests := by
  cases op with
  | addContext i => exact h.addContext i
  | work i w =>
      exact h.attempt (fun _ hc => hc.work w) (fun context => context.inside_work w) i

end Canvas.Nests

/-! ## Adding up -/

namespace Canvas

/-- What adds up over each of the contexts from number `base` on and over those inside it. -/
def weigh (own : Nat → Context α → Nat) (base : Nat) : List (Context α) → List Nat
  | [] => []
  | c :: rest =>
      let others := weigh own (base + 1) rest
      (own base c + (c.inside.map fun index => (later? base index others).getD 0).sum) :: others

theorem later?_map {β γ : Type} (f : β → γ) (base index : Nat) (values : List β) :
    later? base index (values.map f) = (later? base index values).map f := by
  unfold later?
  split
  · exact List.getElem?_map
  · rfl

theorem length_weigh (own : Nat → Context α → Nat) (base : Nat) (contexts : List (Context α)) :
    (weigh own base contexts).length = contexts.length := by
  induction contexts generalizing base with
  | nil => rfl
  | cons c rest ih => rw [weigh, List.length_cons, ih, List.length_cons]

/-- Together the contexts from number `base` on weigh what is their own, and once more what the
contexts inside them weigh. -/
theorem sum_weigh {own : Nat → Context α → Nat} {all : List Nat} {base : Nat}
    {contexts : List (Context α)} (hall : weigh own base contexts = all.drop base)
    (hlater : ∀ k context, contexts[k]? = some context → ∀ j ∈ context.inside, base + k < j) :
    (weigh own base contexts).sum =
      (contexts.mapIdx fun k => own (base + k)).sum +
        ((contexts.flatMap Context.inside).map fun j => all[j]?.getD 0).sum := by
  induction contexts generalizing base with
  | nil => rfl
  | cons c rest ih =>
      -- `all` holds the weights of all contexts, so those inside are found there, too
      rw [weigh] at hall ⊢
      have hrest : weigh own (base + 1) rest = all.drop (base + 1) := by
        rw [← List.drop_drop, ← hall, List.drop_one, List.tail_cons]
      have hinside : (c.inside.map fun index =>
          (later? base index (weigh own (base + 1) rest)).getD 0) =
          c.inside.map fun j => all[j]?.getD 0 := by
        refine List.map_congr_left fun j hj => ?_
        have hj : base < j := hlater 0 c rfl j hj
        rw [later?, if_pos hj, hrest, List.getElem?_drop]
        congr 2
        omega
      have hsum := ih hrest fun k context hcontext j hj => by
        have hk := hlater (k + 1) context hcontext j hj
        omega
      simp only [List.sum_cons, hinside, hsum, List.mapIdx_cons, List.flatMap_cons, List.map_append,
        List.sum_append, Nat.add_assoc, Nat.add_zero, Nat.add_comm 1]
      omega

/-- What adds up over contexts inside adds up, for the outermost context, over all of them. -/
theorem Nests.head?_weigh {c : Canvas α} (h : c.Nests) (own : Nat → Context α → Nat) :
    (weigh own 0 c.contexts.toList).head? = some (c.contexts.toList.mapIdx own).sum := by
  have hlater (k : Nat) (context : Context α) (hcontext : c.contexts.toList[k]? = some context)
      (j : Nat) (hj : j ∈ context.inside) : 0 + k < j := by
    rw [Nat.zero_add]
    exact h.later k context (by rwa [Array.getElem?_toList] at hcontext) j hj
  have hdrop : weigh own 0 c.contexts.toList = (weigh own 0 c.contexts.toList).drop 0 := rfl
  have hsum := sum_weigh hdrop hlater
  have hlength : (weigh own 0 c.contexts.toList).length = c.contexts.size := by
    rw [length_weigh, Array.length_toList]
  have hnonempty := h.nonempty
  rw [(h.once.map _).sum_nat] at hsum
  generalize weigh own 0 c.contexts.toList = all at hsum hlength ⊢
  cases all with
  | nil =>
      rw [List.length_nil] at hlength
      omega
  | cons first others =>
      -- all but the first are counted once among the contexts inside others
      have hothers : ((List.range' 1 (c.contexts.size - 1)).map fun j =>
          (first :: others)[j]?.getD 0) = others := by
        rw [← hlength, List.length_cons, Nat.add_sub_cancel]
        refine List.ext_getElem (by simp) fun k hk hk' => ?_
        simp [Nat.add_comm 1 k, hk']
      rw [hothers, List.sum_cons] at hsum
      simp only [Nat.zero_add] at hsum
      rw [List.head?_cons, Nat.add_right_cancel hsum]

/-- How often each number stands among the contexts from number `base` on and those inside. -/
theorem count_nestedFrom (k base : Nat) (contexts : List (Context α)) :
    (nestedFrom base contexts).map (List.count k) =
      weigh (fun i _ => if i = k then 1 else 0) base contexts := by
  induction contexts generalizing base with
  | nil => rfl
  | cons c rest ih =>
      have hinside : ∀ child : Child,
          ((later? base child.index (nestedFrom (base + 1) rest)).getD []).count k =
            (later? base child.index (weigh _ (base + 1) rest)).getD 0 := fun child => by
        rw [← ih, later?_map]
        cases later? base child.index (nestedFrom (base + 1) rest) <;> rfl
      rw [nestedFrom, weigh, List.map_cons, ih, List.count_cons, List.count_flatMap, Context.inside,
        List.map_map, Nat.add_comm]
      congr 2
      · simp
      · exact congrArg List.sum (List.map_congr_left fun child _ => hinside child)

/-- All contexts are inside the outermost one. -/
theorem Nests.mem_nested {c : Canvas α} (h : c.Nests) {i : Nat} (hi : i < c.contexts.size) :
    i ∈ c.nested := by
  have hhead := h.head?_weigh fun j _ => if j = i then 1 else 0
  rw [← count_nestedFrom, List.head?_map] at hhead
  obtain ⟨numbers, hnumbers, hcount⟩ := Option.map_eq_some_iff.1 hhead
  rw [nested, hnumbers, Option.getD_some, ← List.count_pos_iff, hcount]
  -- the context itself is counted
  have hown : (c.contexts.toList.mapIdx fun j _ => if j = i then 1 else 0)[i]? = some 1 := by
    simp [hi]
  exact List.sum_pos_iff_exists_pos_nat.2 ⟨1, List.mem_of_getElem? hown, Nat.one_pos⟩

end Canvas

end CellSketch
