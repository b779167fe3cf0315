import CellSketch.Proofs.Canvas.Ledger

/-!
# StyleHistory — the styles behind the items of a context

A context starts with the style that its parent had when it was created, and its items change that
style on the way: each figure was drawn in the style of the moment, and each context inside was
created with it.  After a run without faults this holds of every context of a canvas.

* `Wears` — items that lead from one style to another;
* `Styled.work` — work on a context keeps its history;
* `Dressed.run` — so does a program.
-/

namespace CellSketch

open Number

variable {α : Type} [Scalar α]

/-! ## Items and styles -/

/-- Items that lead from one style to another in cells of a height, where `born?` gives the styles
that contexts are created with.  If fonts are `plain`, no size is zero. -/
inductive Wears (plain : Prop) (height : α) (born? : Nat → Option (Style α)) :
    Style α → List (Item α) → Style α → Prop where
  | nil {s : Style α} : Wears plain height born? s [] s
  | figure {s t : Style α} {items : List (Item α)} (shape : Shape α)
      (h : Wears plain height born? s items t) :
      Wears plain height born? s (.figure ⟨shape, s.look height⟩ :: items) t
  | shift {s t : Style α} {items : List (Item α)} (dx dy : α)
      (h : Wears plain height born? s items t) :
      Wears plain height born? s (.shift dx dy :: items) t
  | child {s t : Style α} {items : List (Item α)} {index : Nat} (hborn : born? index = some s)
      (h : Wears plain height born? s items t) :
      Wears plain height born? s (.child index :: items) t
  | stroke {s t : Style α} {items : List (Item α)} (change : StrokeChange α)
      (h : Wears plain height born? { s with stroke := change.apply s.stroke } items t) :
      Wears plain height born? s (.stroke change :: items) t
  | fill {s t : Style α} {items : List (Item α)} (change : FillChange α)
      (h : Wears plain height born? { s with fill := change.apply s.fill } items t) :
      Wears plain height born? s (.fill change :: items) t
  | font {s t : Style α} {items : List (Item α)} (change : FontChange α)
      (hsize : plain → ∀ size, change.size = some size → (size == Scalar.whole 0) = false)
      (h : Wears plain height born? { s with font := change.apply s.font } items t) :
      Wears plain height born? s (.font change :: items) t

namespace Wears

variable {plain : Prop} {height : α} {born? : Nat → Option (Style α)} {s t u : Style α}
  {items more : List (Item α)}

theorem append (h : Wears plain height born? s items t) (h' : Wears plain height born? t more u) :
    Wears plain height born? s (items ++ more) u := by
  induction h with
  | nil => exact h'
  | figure shape _ ih => exact .figure shape (ih h')
  | shift dx dy _ ih => exact .shift dx dy (ih h')
  | child hborn _ ih => exact .child hborn (ih h')
  | stroke change _ ih => exact .stroke change (ih h')
  | fill change _ ih => exact .fill change (ih h')
  | font change hsize _ ih => exact .font change hsize (ih h')

/-- Contexts that are created later do not matter. -/
theorem mono (h : Wears plain height born? s items t) {born?' : Nat → Option (Style α)}
    (hborn : ∀ index style, born? index = some style → born?' index = some style) :
    Wears plain height born?' s items t := by
  induction h with
  | nil => exact .nil
  | figure shape _ ih => exact .figure shape ih
  | shift dx dy _ ih => exact .shift dx dy ih
  | child hindex _ ih => exact .child (hborn _ _ hindex) ih
  | stroke change _ ih => exact .stroke change ih
  | fill change _ ih => exact .fill change ih
  | font change hsize _ ih => exact .font change hsize ih

end Wears

/-! ## Work without a fault -/

namespace Attempt

variable {σ γ : Type}

/-- What every step that succeeds preserves, all of them preserve. -/
theorem each_reaches {P : σ → Prop} {step : σ → γ → Attempt σ}
    (hstep : ∀ s b, P s → (step s b).fault = none → P (step s b).state) {s : σ} (h : P s)
    (bs : List γ) (hfault : (each step s bs).fault = none) : P (each step s bs).state := by
  induction bs generalizing s with
  | nil => exact h
  | cons b rest ih =>
      rw [each] at hfault ⊢
      obtain ⟨hfirst, hrest, hstate⟩ := fault_andThen hfault
      rw [hstate]
      exact ih (hstep s b h hfirst) hrest

end Attempt

/-- A context whose items lead from the style it was created with to the one it has. -/
structure Styled (plain : Prop) (height : α) (born? : Nat → Option (Style α)) (born : Style α)
    (c : Context α) : Prop where
  cell : c.cell.height = height
  debug : c.debug = .off
  leftovers : c.leftovers = #[]
  wears : Wears plain height born? born c.items.toList c.style

/-- Work that sets no font size to zero. -/
def Work.PlainFont : Work α → Prop
  | .setFont change => ∀ size, change.size = some size → (size == Scalar.whole 0) = false
  | _ => True

namespace Styled

variable {plain : Prop} {height : α} {born? : Nat → Option (Style α)} {born : Style α}
  {c : Context α}

/-- What is added leads from the present style to the new one. -/
theorem extend (S : Styled plain height born? born c) {c' : Context α} {more : List (Item α)}
    (hcell : c'.cell = c.cell) (hdebug : c'.debug = c.debug)
    (hleftovers : c'.leftovers = c.leftovers)
    (hitems : c'.items.toList = c.items.toList ++ more)
    (hmore : Wears plain height born? c.style more c'.style) :
    Styled plain height born? born c' where
  cell := by rw [hcell, S.cell]
  debug := by rw [hdebug, S.debug]
  leftovers := by rw [hleftovers, S.leftovers]
  wears := by
    rw [hitems]
    exact S.wears.append hmore

theorem setSize (S : Styled plain height born? born c) (p : Point α) :
    Styled plain height born? born (c.setSize p).state := by
  unfold Context.setSize
  split
  · exact S
  · split
    · exact S.extend rfl rfl rfl (List.append_nil _).symm .nil
    · exact S.extend rfl rfl rfl (List.append_nil _).symm .nil

theorem drawShape (S : Styled plain height born? born c) (s : Shape α)
    (hfault : (c.drawShape s).fault = none) :
    Styled plain height born? born (c.drawShape s).state := by
  unfold Context.drawShape at hfault ⊢
  dsimp only at hfault ⊢
  -- neither the shape nor its look kept it from being drawn
  obtain ⟨-, hdrawn⟩ := Attempt.fault_barring hfault
  rw [hdrawn] at hfault ⊢
  obtain ⟨-, hdrawn⟩ := Attempt.fault_barring hfault
  rw [hdrawn]
  refine S.extend rfl rfl rfl Array.toList_push ?_
  rw [S.cell]
  exact .figure s .nil

theorem draw (S : Styled plain height born? born c) (p : Primitive α)
    (hfault : (c.draw p).fault = none) : Styled plain height born? born (c.draw p).state := by
  unfold Context.draw at hfault ⊢
  obtain ⟨-, hrest, hstate⟩ := Attempt.fault_andThen hfault
  rw [hstate]
  obtain ⟨-, hdrawn⟩ := Attempt.fault_barring hrest
  rw [hdrawn] at hrest ⊢
  refine Attempt.each_reaches (fun _ s S => S.drawShape s) ?_ _ hrest
  cases p.reach with
  | none => exact S
  | some last => exact S.setSize last

/-- A change of settings is noted, unless it is empty. -/
theorem setting (S : Styled plain height born? born c) {empty : Bool} {style : Style α}
    {change : Item α} {numbers : List α} (hempty : empty = true → style = c.style)
    (hchange : Wears plain height born? c.style [change] style)
    (hfault : (if empty then (⟨c, none⟩ : Attempt (Context α))
      else { c with style := style }.note change numbers).fault = none) :
    Styled plain height born? born (if empty then (⟨c, none⟩ : Attempt (Context α))
      else { c with style := style }.note change numbers).state := by
  cases empty with
  | true => exact S
  | false =>
      rw [if_neg Bool.false_ne_true, Context.note] at hfault ⊢
      rw [(Attempt.fault_barring hfault).2]
      exact S.extend rfl rfl rfl Array.toList_push hchange

theorem work (S : Styled plain height born? born c) {w : Work α}
    (hdebug : ∀ shown propagated, w ≠ .setDebug shown propagated) (hplain : plain → w.PlainFont)
    (hfault : (c.work w).fault = none) : Styled plain height born? born (c.work w).state := by
  cases w with
  | translate dx dy =>
      unfold Context.work Context.translate
      dsimp only
      -- an origin that stays where it is is not noted
      split
      · exact S.extend rfl rfl rfl (List.append_nil _).symm .nil
      · refine Attempt.barring_preserves ?_ ?_
        · exact S.extend rfl rfl rfl (List.append_nil _).symm .nil
        · exact S.extend rfl rfl rfl Array.toList_push (.shift _ _ .nil)
  | draw primitives => exact Attempt.each_reaches (fun _ p S => S.draw p) S primitives hfault
  | setSize last => exact S.setSize last
  | setStroke change =>
      refine S.setting (fun hempty => ?_) (.stroke change .nil) hfault
      rw [StrokeChange.apply_of_isEmpty hempty]
  | setFill change =>
      refine S.setting (fun hempty => ?_) (.fill change .nil) hfault
      rw [FillChange.apply_of_isEmpty hempty]
  | setFont change =>
      refine S.setting (fun hempty => ?_) (.font change hplain .nil) hfault
      rw [FontChange.apply_of_isEmpty hempty]
  | setDebug shown propagated => exact absurd rfl (hdebug shown propagated)

end Styled

/-! ## Canvases -/

theorem getElem?_of_prefix {γ : Type} {first second : List γ} (h : first <+: second) {i : Nat}
    {x : γ} (hx : first[i]? = some x) : second[i]? = some x := by
  obtain ⟨more, rfl⟩ := h
  rw [List.getElem?_append_left (List.getElem?_eq_some_iff.1 hx).1, hx]

theorem forall₂_set_right {γ δ : Type} {R : γ → δ → Prop} {xs : List γ} {ys : List δ} {x : γ}
    {y : δ} (h : List.Forall₂ R xs ys) {i : Nat} (hx : xs[i]? = some x) (hxy : R x y) :
    List.Forall₂ R xs (ys.set i y) := by
  obtain ⟨hi, rfl⟩ := List.getElem?_eq_some_iff.1 hx
  have hset := forall₂_set h hxy i
  rwa [List.set_getElem_self] at hset

/-- A canvas of which every context has the history of the style it was created with; if fonts are
`plain`, these styles have the font that contexts start with. -/
structure Dressed (plain : Prop) (height : α) (borns : List (Style α)) (c : Canvas α) : Prop where
  contexts : List.Forall₂ (Styled plain height (borns[·]?)) borns c.contexts.toList
  fonts : plain → ∀ born ∈ borns, born.font = ⟨defaultFamily, none⟩

namespace Canvas

/-- An operation that sets no font size to zero and creates contexts only in those that have the
font contexts start with. -/
def PlainFont (c : Canvas α) : Op α → Prop
  | .addContext i =>
      ∀ context, c.context? i = some context → context.style.font = ⟨defaultFamily, none⟩
  | .work _ w => w.PlainFont

/-- A program of such operations. -/
def PlainFonts (c : Canvas α) : List (Op α) → Prop
  | [] => True
  | op :: rest => c.PlainFont op ∧ (c.perform op).state.PlainFonts rest

end Canvas

namespace Dressed

variable {plain : Prop} {height : α} {borns : List (Style α)} {c : Canvas α}

theorem addContext (D : Dressed plain height borns c) (i : Nat)
    (hplain : plain → c.PlainFont (.addContext i)) :
    ∃ borns', borns <+: borns' ∧ Dressed plain height borns' (c.addContext i) := by
  unfold Canvas.addContext
  have hlength : borns.length = c.contexts.size := List.Forall₂.length_eq D.contexts
  rcases Canvas.context?_of_forall₂ D.contexts i with
    ⟨-, hcontext⟩ | ⟨born, parent, hborn, hcontext, S⟩
  · rw [hcontext]
    exact ⟨borns, List.prefix_rfl, D⟩
  · rw [hcontext]
    dsimp only
    have hgrown : borns <+: borns ++ [parent.style] := List.prefix_append _ _
    -- what was created before is looked up as before
    have hlater {born : Style α} {context : Context α}
        (S : Styled plain height (borns[·]?) born context) :
        Styled plain height ((borns ++ [parent.style])[·]?) born context :=
      ⟨S.cell, S.debug, S.leftovers, S.wears.mono fun _ _ => getElem?_of_prefix hgrown⟩
    refine ⟨borns ++ [parent.style], hgrown, ?_, fun hfonts born hmem => ?_⟩
    · dsimp only
      rw [Array.toList_push, Array.set!_eq_setIfInBounds, Array.toList_setIfInBounds]
      refine List.rel_append ?_ (.cons ⟨S.cell, ?_, rfl, .nil⟩ .nil)
      · refine forall₂_set_right (D.contexts.imp fun _ _ => hlater) hborn ?_
        refine (hlater S).extend rfl rfl rfl Array.toList_push (.child ?_ .nil)
        rw [← hlength, List.getElem?_concat_length]
      · rw [Context.inner, S.debug]
        rfl
    · rcases List.mem_append.1 hmem with hmem | hmem
      · exact D.fonts hfonts born hmem
      · rw [List.mem_singleton.1 hmem]
        exact hplain hfonts parent hcontext

theorem perform (D : Dressed plain height borns c) {op : Op α}
    (hdebug : ∀ i shown propagated, op ≠ .work i (.setDebug shown propagated))
    (hplain : plain → c.PlainFont op) (hfault : (c.perform op).fault = none) :
    ∃ borns', borns <+: borns' ∧ Dressed plain height borns' (c.perform op).state := by
  cases op with
  | addContext i => exact D.addContext i hplain
  | work i w =>
      refine ⟨borns, List.prefix_rfl, ?_, D.fonts⟩
      unfold Canvas.perform Canvas.attempt at hfault ⊢
      dsimp only at hfault ⊢
      rcases Canvas.context?_of_forall₂ D.contexts i with
        ⟨-, hcontext⟩ | ⟨born, context, hborn, hcontext, S⟩
      · rw [hcontext]
        exact D.contexts
      · rw [hcontext] at hfault ⊢
        dsimp only [Attempt.map]
        rw [Array.set!_eq_setIfInBounds, Array.toList_setIfInBounds]
        refine forall₂_set_right D.contexts hborn (S.work ?_ hplain hfault)
        exact fun shown propagated heq => hdebug i shown propagated (heq ▸ rfl)

/-- A program without a fault. -/
theorem run (D : Dressed plain height borns c) {program : List (Op α)}
    (hdebug : ∀ i shown propagated, Op.work i (.setDebug shown propagated) ∉ program)
    (hplain : plain → c.PlainFonts program) (hfault : (c.run program).fault = none) :
    ∃ borns', borns <+: borns' ∧ Dressed plain height borns' (c.run program).state := by
  unfold Canvas.run at hfault ⊢
  -- each operation may add a style at the end, and the ones before keep their numbers
  induction program generalizing borns c with
  | nil => exact ⟨borns, List.prefix_rfl, D⟩
  | cons op rest ih =>
      rw [Attempt.each] at hfault ⊢
      obtain ⟨hfirst, hrest, hstate⟩ := Attempt.fault_andThen hfault
      rw [hstate]
      obtain ⟨grown, hgrown, D'⟩ := D.perform
        (fun i shown propagated heq => hdebug i shown propagated (heq ▸ List.mem_cons_self))
        (fun hp => (hplain hp).1) hfirst
      obtain ⟨borns', hborns', D''⟩ := ih D'
        (fun i shown propagated hmem => hdebug i shown propagated (List.mem_cons_of_mem op hmem))
        (fun hp => (hplain hp).2) hrest
      exact ⟨borns', hgrown.trans hborns', D''⟩

end Dressed

end CellSketch
