import CellSketch.Proofs.Canvas.Backends
import CellSketch.Proofs.Canvas.StyleHistory

/-!
# Looks — both documents show shapes in the same looks

Commands are read with a stack of looks: a change of settings changes the look of the moment, a push
saves it and a pop brings it back.  Elements carry the looks that their shapes were drawn in.

* `Mvg.carries_ofItems` — items are read in the looks of the figures among them;
* `Mvg.dresses_contextsFrom`, `Svg.figures_contextsFrom` — and so are the contexts of a canvas;
* `styles_agree` — strokes and fills are the same in both documents, and so are fonts that are not
  handed down.
-/

namespace CellSketch

open Number

variable {α : Type} [Scalar α]

/-! ## Reading looks -/

namespace Look

def stroked (look : Look α) (change : StrokeChange α) : Look α :=
  { look with
    strokeColor := change.color.getD look.strokeColor
    strokeWidth := change.width.getD look.strokeWidth
    strokeOpacity := change.opacity.getD look.strokeOpacity }

def filled (look : Look α) (change : FillChange α) : Look α :=
  { look with
    fillColor := change.color.getD look.fillColor
    fillOpacity := change.opacity.getD look.fillOpacity }

def lettered (look : Look α) (change : FontChange α) : Look α :=
  { look with
    family := change.family.getD look.family
    fontSize := change.size.getD look.fontSize }

/-- The look in which a shape is drawn, and which it leaves behind. -/
def shaped (look : Look α) (s : Shape α) : Look α :=
  { look with fillColor := s.ownFill.getD look.fillColor }

end Look

/-- Reads commands in a look, with the looks that were saved before.  There is no reading if a pop
finds nothing saved, or if something saved is left. -/
def Mvg.looks : List (Mvg.Command α) → Look α → List (Look α) → Option (List (Shape α × Look α))
  | [], _, [] => some []
  | [], _, _ :: _ => none
  | .push :: rest, look, saved => Mvg.looks rest look (look :: saved)
  | .pop :: rest, _, before :: saved => Mvg.looks rest before saved
  | .pop :: _, _, [] => none
  | .translate _ _ :: rest, look, saved => Mvg.looks rest look saved
  -- a fill of its own is set with the shape and stays in force until the next pop
  | .shape s :: rest, look, saved =>
      (Mvg.looks rest (look.shaped s) saved).map ((s, look.shaped s) :: ·)
  | .frame width height :: rest, look, saved =>
      (Mvg.looks rest look saved).map
        ((.rectangle ⟨Scalar.whole 0, Scalar.whole 0⟩ width height none, look) :: ·)
  | .stroke change :: rest, look, saved => Mvg.looks rest (look.stroked change) saved
  | .fill change :: rest, look, saved => Mvg.looks rest (look.filled change) saved
  | .font change :: rest, look, saved => Mvg.looks rest (look.lettered change) saved
  | .raw _ :: rest, look, saved => Mvg.looks rest look saved

mutual
/-- The figures of an element in document order. -/
def Svg.Element.figures : Svg.Element α → List (Figure α)
  | .group _ children => Svg.figuresAll children
  | .overlay figures => figures
  | .figure f => [f]

def Svg.figuresAll : List (Svg.Element α) → List (Figure α)
  | [] => []
  | e :: rest => e.figures ++ Svg.figuresAll rest
end

/-- The fill that a figure carries: its own, unless that is empty. -/
def Figure.carriedFill (f : Figure α) : String :=
  match f.shape.ownFill with
  | some own => if own.isEmpty then f.look.fillColor else own
  | none => f.look.fillColor

/-- This is the fill that is written. -/
theorem Svg.styleText_eq (f : Figure Measure) :
    Svg.styleText f.shape f.look =
      ("style", "fill: " ++ f.carriedFill ++ "; fill-opacity: " ++ f.look.fillOpacity.trimmedText ++
        "; stroke: " ++ f.look.strokeColor ++ "; stroke-opacity: " ++
        f.look.strokeOpacity.trimmedText ++ "; stroke-width: " ++
        f.look.strokeWidth.trimmedText ++ ";") := rfl

/-- A shape that was read from commands and a figure are the same shape, stroked and filled alike.
An empty fill of its own counts for commands alone. -/
structure SameInk (drawn : Shape α × Look α) (f : Figure α) : Prop where
  shape : drawn.1 = f.shape
  strokeColor : drawn.2.strokeColor = f.look.strokeColor
  strokeWidth : drawn.2.strokeWidth = f.look.strokeWidth
  strokeOpacity : drawn.2.strokeOpacity = f.look.strokeOpacity
  fillColor : f.shape.ownFill ≠ some "" → drawn.2.fillColor = f.carriedFill
  fillOpacity : drawn.2.fillOpacity = f.look.fillOpacity

/-- They are lettered alike. -/
structure SameFont (drawn : Shape α × Look α) (f : Figure α) : Prop where
  family : drawn.2.family = f.look.family
  fontSize : drawn.2.fontSize = f.look.fontSize

/-- The same ink, and the same font if fonts are `plain`. -/
def Agrees (plain : Prop) (drawn : Shape α × Look α) (f : Figure α) : Prop :=
  SameInk drawn f ∧ (plain → SameFont drawn f)

/-! ## Looks in force -/

/-- Looks that are equal, in their fonts only if fonts are `plain`. -/
structure Look.Alike (plain : Prop) (a b : Look α) : Prop where
  strokeColor : a.strokeColor = b.strokeColor
  strokeWidth : a.strokeWidth = b.strokeWidth
  strokeOpacity : a.strokeOpacity = b.strokeOpacity
  fillColor : a.fillColor = b.fillColor
  fillOpacity : a.fillOpacity = b.fillOpacity
  family : plain → a.family = b.family
  fontSize : plain → a.fontSize = b.fontSize

namespace Look.Alike

variable {plain : Prop} {look : Look α} {s : Style α} {height : α}

theorem stroked (h : look.Alike plain (s.look height)) (change : StrokeChange α) :
    (look.stroked change).Alike plain
      (Style.look { s with stroke := change.apply s.stroke } height) where
  strokeColor := congrArg change.color.getD h.strokeColor
  strokeWidth := congrArg change.width.getD h.strokeWidth
  strokeOpacity := congrArg change.opacity.getD h.strokeOpacity
  fillColor := h.fillColor
  fillOpacity := h.fillOpacity
  family := h.family
  fontSize := h.fontSize

theorem filled (h : look.Alike plain (s.look height)) (change : FillChange α) :
    (look.filled change).Alike plain
      (Style.look { s with fill := change.apply s.fill } height) where
  strokeColor := h.strokeColor
  strokeWidth := h.strokeWidth
  strokeOpacity := h.strokeOpacity
  fillColor := congrArg change.color.getD h.fillColor
  fillOpacity := congrArg change.opacity.getD h.fillOpacity
  family := h.family
  fontSize := h.fontSize

theorem lettered (h : look.Alike plain (s.look height)) {change : FontChange α}
    (hsize : plain → ∀ size, change.size = some size → (size == Scalar.whole 0) = false) :
    (look.lettered change).Alike plain
      (Style.look { s with font := change.apply s.font } height) where
  strokeColor := h.strokeColor
  strokeWidth := h.strokeWidth
  strokeOpacity := h.strokeOpacity
  fillColor := h.fillColor
  fillOpacity := h.fillOpacity
  family hplain := congrArg change.family.getD (h.family hplain)
  fontSize hplain := by
    -- a size of zero would be written by commands, while a style takes it for none
    have hbefore := h.fontSize hplain
    have hsize := hsize hplain
    cases hchange : change.size with
    | none => simpa [Look.lettered, Style.look, FontChange.apply, hchange] using hbefore
    | some size =>
        simp [Look.lettered, Style.look, FontChange.apply, hchange, hsize size hchange]

/-- The font of its cells, with which every context starts. -/
theorem prologue (h : look.Alike False (s.look height))
    (hfont : plain → s.font = ⟨defaultFamily, none⟩) :
    ((look.lettered { family := some defaultFamily }).lettered { size := some height }).Alike plain
      (s.look height) where
  strokeColor := h.strokeColor
  strokeWidth := h.strokeWidth
  strokeOpacity := h.strokeOpacity
  fillColor := h.fillColor
  fillOpacity := h.fillOpacity
  family hplain := by
    simp [Look.lettered, Style.look, hfont hplain]
  fontSize hplain := by
    simp [Look.lettered, Style.look, hfont hplain]

omit [Scalar α] in
theorem weaken {a b : Look α} (h : a.Alike plain b) : a.Alike False b :=
  ⟨h.strokeColor, h.strokeWidth, h.strokeOpacity, h.fillColor, h.fillOpacity, False.elim,
    False.elim⟩

omit [Scalar α] in
/-- A shape drawn in a look is the figure that keeps that look. -/
theorem agrees {a b : Look α} (h : a.Alike plain b) (shape : Shape α) :
    Agrees plain (shape, a.shaped shape) ⟨shape, b⟩ := by
  refine ⟨⟨rfl, h.strokeColor, h.strokeWidth, h.strokeOpacity, fun hown => ?_, h.fillOpacity⟩,
    fun hplain => ⟨h.family hplain, h.fontSize hplain⟩⟩
  unfold Figure.carriedFill Look.shaped
  dsimp only
  -- only a fill of its own differs from the look that the figure keeps
  cases hfill : shape.ownFill with
  | none => exact h.fillColor
  | some own =>
      have hne : own.isEmpty = false := by
        rw [String.isEmpty_eq_false_iff]
        rintro rfl
        exact hown hfill
      simp [hne]

end Look.Alike

/-! ## The figures of contexts -/

/-- The figures of an item, given the contexts after this one with the styles they were created
with. -/
def Item.figures (base : Nat) (others : List (Style α × List (Figure α))) :
    Item α → List (Figure α)
  | .figure f => [f]
  | .child index =>
      match Canvas.later? base index others with
      | some entry => entry.2
      | none => []
  | _ => []

/-- For each of the contexts from number `base` on, the style it was created with and its
figures. -/
def portraits (base : Nat) :
    List (Style α) → List (List (Item α)) → List (Style α × List (Figure α))
  | born :: borns, items :: rest =>
      let others := portraits (base + 1) borns rest
      (born, items.flatMap (Item.figures base others)) :: others
  | _, _ => []

omit [Scalar α] in
theorem getElem?_portraits {base : Nat} {borns : List (Style α)} {items : List (List (Item α))}
    {k : Nat} {entry : Style α × List (Figure α)}
    (h : (portraits base borns items)[k]? = some entry) : borns[k]? = some entry.1 := by
  induction borns generalizing base items k with
  | nil => simp [portraits] at h
  | cons born borns ih =>
      cases items with
      | nil => simp [portraits] at h
      | cons first rest =>
          rw [portraits] at h
          cases k with
          | zero =>
              cases h
              rfl
          | succ k => exact ih h

/-! ## Commands -/

namespace Mvg

variable {plain : Prop} {height : α}

/-- Commands that are read as shapes that agree with figures, and lead from one look to another. -/
def Reads (plain : Prop) (list : List (Command α)) (look after : Look α)
    (figures : List (Figure α)) : Prop :=
  ∃ drawn, List.Forall₂ (Agrees plain) drawn figures ∧ ∀ saved tail,
    looks (list ++ tail) look saved = (looks tail after saved).map (drawn ++ ·)

namespace Reads

theorem nil (look : Look α) : Reads plain [] look look [] :=
  ⟨[], .nil, fun _ _ => Option.map_id'.symm⟩

theorem append {first second : List (Command α)} {look middle after : Look α}
    {figures more : List (Figure α)} (h : Reads plain first look middle figures)
    (h' : Reads plain second middle after more) :
    Reads plain (first ++ second) look after (figures ++ more) := by
  obtain ⟨drawn, hagree, hread⟩ := h
  obtain ⟨drawn', hagree', hread'⟩ := h'
  refine ⟨drawn ++ drawn', List.rel_append hagree hagree', fun saved tail => ?_⟩
  rw [List.append_assoc, hread, hread', Option.map_map]
  simp only [Function.comp_def, List.append_assoc]

/-- A command that shows nothing. -/
theorem change {command : Command α} {look after : Look α}
    (h : ∀ saved tail, looks (command :: tail) look saved = looks tail after saved) :
    Reads plain [command] look after [] :=
  ⟨[], .nil, fun saved tail => (h saved tail).trans Option.map_id'.symm⟩

/-- A shape, which leaves the look as it was even if it has a fill of its own. -/
theorem shape {look b : Look α} (h : look.Alike plain b) (s : Shape α) :
    Reads plain (ofShape s) look look [⟨s, b⟩] := by
  refine ⟨[(s, look.shaped s)], .cons (h.agrees s) .nil, fun saved tail => ?_⟩
  unfold ofShape
  cases hown : s.ownFill with
  | some own => rfl
  | none =>
      have hlook : look.shaped s = look := by rw [Look.shaped, hown, Option.getD_none]
      simp only [List.singleton_append, looks, hlook]

end Reads

/-- Commands that show the figures of a context in any look alike to the style it was created with,
whatever fonts are in force there. -/
def Dresses (plain : Prop) (height : α) (commands : Except Fault (List (Command α)))
    (entry : Style α × List (Figure α)) : Prop :=
  ∃ list, commands = .ok (.push :: list) ∧
    ∀ look : Look α, look.Alike False (entry.1.look height) →
      ∃ drawn, List.Forall₂ (Agrees plain) drawn entry.2 ∧ ∀ before saved tail,
        looks (list ++ tail) look (before :: saved) =
          (looks tail before saved).map (drawn ++ ·)

omit [Scalar α] in
theorem ofItems_cons {base : Nat} {others : List (Except Fault (List (Command α)))}
    {items : List (Item α)} {list : List (Command α)} (h : ofItems base others items = .ok list)
    {item : Item α} (hitem : ∀ index, item ≠ .child index) :
    ofItems base others (item :: items) = .ok (ofOwn item ++ list) := by
  cases item with
  | child index => exact absurd rfl (hitem index)
  | _ =>
      rw [ofItems, h]
      · rfl
      · exact hitem

/-- Items that are read as figures in any look alike to a style. -/
def Carries (plain : Prop) (height : α) (base : Nat)
    (others : List (Except Fault (List (Command α)))) (inner : List (Style α × List (Figure α)))
    (s : Style α) (items : List (Item α)) : Prop :=
  ∃ list, ofItems base others items = .ok list ∧
    ∀ look : Look α, look.Alike plain (s.look height) →
      ∃ after, Reads plain list look after (items.flatMap (Item.figures base inner))

section Items

variable {base : Nat} {others : List (Except Fault (List (Command α)))}
  {inner : List (Style α × List (Figure α))}

/-- An item that leads from one style to another before more items. -/
theorem Carries.cons {s t : Style α} {items : List (Item α)}
    (h : Carries plain height base others inner t items) {item : Item α}
    (hitem : ∀ index, item ≠ .child index)
    (hread : ∀ look : Look α, look.Alike plain (s.look height) → ∃ middle : Look α,
      middle.Alike plain (t.look height) ∧
        Reads plain (ofOwn item) look middle (Item.figures base inner item)) :
    Carries plain height base others inner s (item :: items) := by
  obtain ⟨list, hlist, hreads⟩ := h
  refine ⟨ofOwn item ++ list, ofItems_cons hlist hitem, fun look hlook => ?_⟩
  obtain ⟨middle, hmiddle, hfirst⟩ := hread look hlook
  obtain ⟨after, hrest⟩ := hreads middle hmiddle
  exact ⟨after, hfirst.append hrest⟩

/-- A context inside is read in the look of the moment, which it leaves as it was. -/
theorem Carries.child (hothers : List.Forall₂ (Dresses plain height) others inner)
    {s : Style α} {items : List (Item α)} (h : Carries plain height base others inner s items)
    {index : Nat}
    (hborn : ∀ entry, Canvas.later? base index inner = some entry → entry.1 = s) :
    Carries plain height base others inner s (.child index :: items) := by
  obtain ⟨list, hlist, hreads⟩ := h
  rcases later?_of_forall₂ hothers base index with
    ⟨hnone, hinner⟩ | ⟨commands, entry, hcommands, hinner, own, rfl, hdresses⟩
  · -- a number that no later context has stands for nothing
    refine ⟨list, by rw [ofItems, hnone, hlist]; rfl, fun look hlook => ?_⟩
    rw [List.flatMap_cons, Item.figures, hinner]
    exact hreads look hlook
  · refine ⟨.push :: own ++ list, by rw [ofItems, hcommands, hlist]; rfl, fun look hlook => ?_⟩
    obtain ⟨after, hrest⟩ := hreads look hlook
    obtain ⟨drawn, hagree, hread⟩ := hdresses look (hborn entry hinner ▸ hlook.weaken)
    rw [List.flatMap_cons, Item.figures, hinner]
    exact ⟨after, Reads.append ⟨drawn, hagree, hread look⟩ hrest⟩

/-- Items are read as the figures among them and those of the contexts inside. -/
theorem carries_ofItems {born? : Nat → Option (Style α)}
    (hothers : List.Forall₂ (Dresses plain height) others inner)
    (hborn : ∀ index entry, Canvas.later? base index inner = some entry →
      born? index = some entry.1)
    {s t : Style α} {items : List (Item α)} (h : Wears plain height born? s items t) :
    Carries plain height base others inner s items := by
  induction h with
  | nil => exact ⟨[], rfl, fun look _ => ⟨look, .nil look⟩⟩
  | figure shape _ ih =>
      exact ih.cons (fun _ => nofun) fun look hlook => ⟨look, hlook, .shape hlook shape⟩
  | shift dx dy _ ih =>
      exact ih.cons (fun _ => nofun) fun look hlook => ⟨look, hlook, .change fun _ _ => rfl⟩
  | child hindex _ ih =>
      -- the context was created with the style that is in force here
      exact ih.child hothers fun entry hentry =>
        Option.some.inj ((hborn _ entry hentry).symm.trans hindex)
  | stroke change _ ih =>
      exact ih.cons (fun _ => nofun) fun look hlook =>
        ⟨_, hlook.stroked change, .change fun _ _ => rfl⟩
  | fill change _ ih =>
      exact ih.cons (fun _ => nofun) fun look hlook =>
        ⟨_, hlook.filled change, .change fun _ _ => rfl⟩
  | font change hsize _ ih =>
      exact ih.cons (fun _ => nofun) fun look hlook =>
        ⟨_, hlook.lettered hsize, .change fun _ _ => rfl⟩

theorem dresses_ofContext {born? : Nat → Option (Style α)}
    (hothers : List.Forall₂ (Dresses plain height) others inner)
    (hborn : ∀ index entry, Canvas.later? base index inner = some entry →
      born? index = some entry.1)
    {born : Style α} {c : Context α} (S : Styled plain height born? born c)
    (hfont : plain → born.font = ⟨defaultFamily, none⟩) (size : Int × Int) :
    Dresses plain height (ofContext base c size others)
      (born, c.items.toList.flatMap (Item.figures base inner)) := by
  obtain ⟨list, hlist, hreads⟩ := carries_ofItems hothers hborn S.wears
  refine ⟨.font { family := some defaultFamily } :: .font { size := some height } ::
    (list ++ [.pop]), ?_, fun look hlook => ?_⟩
  · simp [ofContext, hlist, S.debug, S.cell, bind, Except.bind]
  · obtain ⟨after, drawn, hagree, hread⟩ := hreads _ (hlook.prologue hfont)
    refine ⟨drawn, hagree, fun before saved tail => ?_⟩
    -- the pop forgets the look that the items lead to
    rw [List.cons_append, List.cons_append, List.append_assoc, looks, looks, hread]
    rfl

end Items

end Mvg

omit [Scalar α] in
/-- The style a later context was created with is noted in its portrait. -/
theorem later?_portraits {base : Nat} {borns : List (Style α)} {items : List (List (Item α))}
    {born? : Nat → Option (Style α)} (hborn : ∀ k, born? (base + 1 + k) = borns[k]?) {index : Nat}
    {entry : Style α × List (Figure α)}
    (h : Canvas.later? base index (portraits (base + 1) borns items) = some entry) :
    born? index = some entry.1 := by
  unfold Canvas.later? at h
  split at h
  · have hindex := hborn (index - base - 1)
    rw [getElem?_portraits h] at hindex
    rw [← hindex]
    congr 1
    omega
  · cases h

theorem Mvg.dresses_contextsFrom {plain : Prop} {height : α} {born? : Nat → Option (Style α)}
    {borns : List (Style α)} {contexts : List (Context α)}
    (h : List.Forall₂ (Styled plain height born?) borns contexts)
    (hfonts : plain → ∀ born ∈ borns, born.font = ⟨defaultFamily, none⟩) (base : Nat)
    (hborn : ∀ k, born? (base + k) = borns[k]?) {sizes : List (Int × Int)}
    (hsizes : sizes.length = contexts.length) :
    List.Forall₂ (Dresses plain height) (contextsFrom base contexts sizes)
      (portraits base borns (contexts.map (·.items.toList))) := by
  -- contexts inside a context come after it, so they are dealt with before it
  induction h generalizing base sizes with
  | nil => exact .nil
  | @cons born c borns contexts S _ ih =>
      obtain _ | ⟨size, sizes⟩ := sizes
      · cases hsizes
      · have hlater (k : Nat) : born? (base + 1 + k) = borns[k]? := by
          rw [Nat.add_assoc, hborn, Nat.add_comm 1 k, List.getElem?_cons_succ]
        have hothers := ih (fun hp d hd => hfonts hp d (List.mem_cons_of_mem born hd)) (base + 1)
          hlater (Nat.succ.inj hsizes)
        exact .cons (dresses_ofContext hothers (fun _ _ => later?_portraits hlater) S
          (fun hp => hfonts hp born List.mem_cons_self) size) hothers

/-! ## Elements -/

namespace Svg

variable {plain : Prop} {height : α} {born? : Nat → Option (Style α)}

omit [Scalar α] in
theorem figuresAll_append (first second : List (Element α)) :
    figuresAll (first ++ second) = figuresAll first ++ figuresAll second := by
  induction first with
  | nil => rfl
  | cons e rest ih => rw [List.cons_append, figuresAll, figuresAll, ih, List.append_assoc]

theorem figures_ofItems {base : Nat} {others : List (Element α)}
    {inner : List (Style α × List (Figure α))}
    (hothers : List.Forall₂ (fun e entry => e.figures = entry.2) others inner) {s t : Style α}
    {items : List (Item α)} (h : Wears plain height born? s items t) :
    figuresAll (ofItems base others items) = items.flatMap (Item.figures base inner) := by
  induction h with
  | nil => rfl
  | figure shape _ ih => rw [ofItems, figuresAll, ih]; rfl
  | shift dx dy _ ih =>
      -- the group that takes everything drawn from here on
      rw [ofItems, figuresAll, figuresAll, List.append_nil, Element.figures, ih]
      rfl
  | @child _ _ _ index _ _ ih =>
      rw [ofItems, figuresAll_append, ih, List.flatMap_cons]
      congr 1
      rcases later?_of_forall₂ hothers base index with
        ⟨hnone, hinner⟩ | ⟨e, entry, he, hinner, hfigures⟩
      · simp [hnone, Item.figures, hinner, figuresAll]
      · simp [he, Item.figures, hinner, figuresAll, hfigures]
  | stroke change _ ih => exact ih
  | fill change _ ih => exact ih
  | font change _ _ ih => exact ih

theorem figures_ofContext {base : Nat} {others : List (Element α)}
    {inner : List (Style α × List (Figure α))}
    (hothers : List.Forall₂ (fun e entry => e.figures = entry.2) others inner) {born : Style α}
    {c : Context α} (S : Styled plain height born? born c) (size : Int × Int)
    (shift : Option (α × α)) :
    (ofContext base c size shift others).figures =
      c.items.toList.flatMap (Item.figures base inner) := by
  rw [ofContext, Element.figures, trace, if_pos S.debug, S.leftovers]
  simp [figures_ofItems hothers S.wears]

theorem figures_contextsFrom {borns : List (Style α)} {contexts : List (Context α)}
    (h : List.Forall₂ (Styled plain height born?) borns contexts) (base : Nat)
    (shift : Option (α × α)) {sizes : List (Int × Int)}
    (hsizes : sizes.length = contexts.length) :
    List.Forall₂ (fun e entry => e.figures = entry.2) (contextsFrom base shift contexts sizes)
      (portraits base borns (contexts.map (·.items.toList))) := by
  induction h generalizing base shift sizes with
  | nil => exact .nil
  | cons S _ ih =>
      obtain _ | ⟨size, sizes⟩ := sizes
      · cases hsizes
      · have hothers := ih (base + 1) none (Nat.succ.inj hsizes)
        exact .cons (figures_ofContext hothers S size shift) hothers

theorem contextsFrom_perShape (base : Nat) (shift : Option (α × α)) (contexts : List (Context α))
    (sizes : List (Int × Int)) :
    contextsFrom base shift (contexts.map Context.perShape) sizes =
      contextsFrom base shift contexts sizes := by
  induction contexts generalizing base shift sizes with
  | nil => rfl
  | cons c rest ih =>
      cases sizes with
      | nil => rfl
      | cons size sizes =>
          simp only [List.map_cons, contextsFrom, ih]
          rfl

theorem root?_perShape (c : Canvas α) (shift : Option (α × α)) :
    root? c.perShape shift = root? c shift := by
  unfold root? Canvas.perShape
  simp only [Array.toList_map, Canvas.sizesFrom_perShape, contextsFrom_perShape]

end Svg

/-! ## Both documents -/

/-- Both documents of a canvas show the same figures, if the commands are read in a look that is
alike to the style of the first context once the colours are set. -/
theorem Dressed.documents {plain : Prop} {height : α} {style : Style α} {borns : List (Style α)}
    {c : Canvas α} (D : Dressed plain height (style :: borns) c) {start : Look α}
    {foreground fill : String}
    (hstart : ((start.stroked { color := some foreground }).filled { color := some fill }).Alike
      False (style.look height)) (shift : Option (α × α)) :
    ∃ commands root drawn, Mvg.document c foreground fill = .ok commands ∧
      Svg.root? c shift = some root ∧ Mvg.looks commands start [] = some drawn ∧
      List.Forall₂ (Agrees plain) drawn root.figures := by
  have hsizes := Canvas.length_sizesFrom c.contexts.toList 0
  have hdresses := Mvg.dresses_contextsFrom D.contexts D.fonts 0 (fun k => by rw [Nat.zero_add])
    hsizes
  have hfigures := Svg.figures_contextsFrom D.contexts 0 shift hsizes
  unfold Mvg.document Mvg.commands Svg.root?
  dsimp only
  generalize Canvas.sizesFrom 0 c.contexts.toList = sizes at *
  -- the first portrait is that of the outermost context
  cases hcontexts : c.contexts.toList with
  | nil => exact absurd D.contexts (by rw [hcontexts]; exact nofun)
  | cons first rest =>
      obtain _ | ⟨size, sizes⟩ := sizes
      · rw [hcontexts] at hsizes
        cases hsizes
      · rw [hcontexts, List.map_cons, portraits] at hdresses hfigures
        obtain ⟨⟨list, hlist, hread⟩, -⟩ := List.forall₂_cons.1 hdresses
        obtain ⟨hroot, -⟩ := List.forall₂_cons.1 hfigures
        obtain ⟨drawn, hagree, hread⟩ := hread _ hstart
        refine ⟨Mvg.withColors foreground fill (.push :: list), _, drawn, ?_, rfl, ?_,
          hroot ▸ hagree⟩
        · rw [Mvg.contextsFrom, List.getElem?_cons_zero, Option.getD_some, hlist]
          rfl
        · have hdrawn := hread start [] []
          rw [List.append_nil] at hdrawn
          rw [Mvg.withColors, Mvg.looks, Mvg.looks, Mvg.looks, hdrawn]
          simp [Mvg.looks]

theorem Dressed.blank (plain : Prop) (cell : CellSize α) (background foreground fill : String) :
    Dressed plain cell.height [.ofColors background foreground fill]
      (Canvas.blank .perChange cell (.ofColors background foreground fill)) where
  contexts := .cons ⟨rfl, rfl, rfl, .nil⟩ .nil
  fonts _ born hborn := by
    rw [List.mem_singleton.1 hborn]
    rfl

/-- Both documents of a program without a fault show the same figures with the same strokes and
fills, those of the style that their context had from its own changes and from what its parent had
when it was created.  So it is with fonts if no size is zero and no context is created where the
font was changed; a context that is starts with another font in the commands. -/
theorem styles_agree {cell : CellSize α} {background foreground fill : String}
    {program : List (Op α)} {mvg svg : Canvas α}
    (hdebug : ∀ i shown propagated, Op.work i (.setDebug shown propagated) ∉ program)
    (hmvg : (Canvas.blank .perChange cell (.ofColors background foreground fill)).run program =
      ⟨mvg, none⟩)
    (hsvg : (Canvas.blank .perShape cell (.ofColors background foreground fill)).run program =
      ⟨svg, none⟩)
    {start : Look α} (hwidth : start.strokeWidth = Scalar.whole 1)
    (hstroke : start.strokeOpacity = Scalar.measured 1)
    (hfill : start.fillOpacity = Scalar.measured 1) (shift : Option (α × α)) :
    let plain :=
      (Canvas.blank .perChange cell (.ofColors background foreground fill)).PlainFonts program
    ∃ borns commands root drawn,
      Dressed plain cell.height (.ofColors background foreground fill :: borns) mvg ∧
      Mvg.document mvg foreground fill = .ok commands ∧ Svg.root? svg shift = some root ∧
      Mvg.looks commands start [] = some drawn ∧ List.Forall₂ SameInk drawn root.figures ∧
      (plain → List.Forall₂ SameFont drawn root.figures) := by
  intro plain
  -- the canvas has its history from the empty one on
  have hrun := (Dressed.blank plain cell background foreground fill).run hdebug id (by rw [hmvg])
  rw [hmvg] at hrun
  obtain ⟨_, ⟨borns, rfl⟩, D⟩ := hrun
  have hstart : ((start.stroked { color := some foreground }).filled { color := some fill }).Alike
      False (Style.look (.ofColors background foreground fill) cell.height) :=
    ⟨rfl, hwidth, hstroke, rfl, hfill, False.elim, False.elim⟩
  obtain ⟨commands, root, drawn, hcommands, hroot, hread, hagrees⟩ := D.documents hstart shift
  -- the other run ends in the same contexts, which is all that its document is made of
  rw [← Svg.root?_perShape, ← Canvas.eq_perShape hmvg hsvg] at hroot
  exact ⟨borns, commands, root, drawn, D, hcommands, hroot, hread,
    hagrees.imp fun _ _ h => h.1, fun hplain => hagrees.imp fun _ _ h => h.2 hplain⟩

/-! ### Programs on two contexts -/

/-- A look as it is where nothing was set. -/
def Look.unset : Look Rat where
  strokeColor := "none"
  strokeWidth := Scalar.whole 1
  strokeOpacity := Scalar.measured 1
  fillColor := "black"
  fillOpacity := Scalar.measured 1
  family := ""
  fontSize := 12

/-- A context is created between two changes of the stroke, filled and lettered, and drawn on after
the second change. -/
def recoloredProgram : List (Op Rat) :=
  [.work 0 (.setStroke { color := some "red", width := some 2 }), .addContext 0,
    .work 0 (.setStroke { color := some "green", opacity := some (1 / 2) }),
    .work 1 (.setFill { color := some "blue" }),
    .work 1 (.setFont { family := some "Arial", size := some 20 }),
    .work 1 (.draw [.text ⟨0, 0⟩ "hi", .rectangle ⟨0, 0⟩ ⟨3, 2⟩ false]),
    .work 0 (.translate 1 0), .work 0 (.draw [.marker ⟨0, 0⟩ .circle {}])]

theorem styles_agree_recolored :
    let blank := fun styling =>
      Canvas.blank styling (.of 8 15) (.ofColors "white" "black" "none" : Style Rat)
    (∀ i shown propagated, Op.work i (.setDebug shown propagated) ∉ recoloredProgram) ∧
    Look.unset.strokeWidth = Scalar.whole 1 ∧ Look.unset.strokeOpacity = Scalar.measured 1 ∧
    Look.unset.fillOpacity = Scalar.measured 1 ∧ (blank .perChange).PlainFonts recoloredProgram ∧
    ∃ mvg svg borns commands root drawn, (blank .perChange).run recoloredProgram = ⟨mvg, none⟩ ∧
      (blank .perShape).run recoloredProgram = ⟨svg, none⟩ ∧
      Dressed ((blank .perChange).PlainFonts recoloredProgram) 15
        (.ofColors "white" "black" "none" :: borns) mvg ∧
      Mvg.document mvg "black" "none" = .ok commands ∧ Svg.root? svg none = some root ∧
      Mvg.looks commands Look.unset [] = some drawn ∧ List.Forall₂ SameInk drawn root.figures ∧
      List.Forall₂ SameFont drawn root.figures := by
  intro blank
  have hdebug : ∀ i shown propagated,
      Op.work i (.setDebug shown propagated) ∉ recoloredProgram := by
    simp [recoloredProgram]
  have hplain : (blank .perChange).PlainFonts recoloredProgram := by
    refine ⟨trivial, ?_, trivial, trivial, ?_, trivial, trivial, trivial, trivial⟩
    · rintro context hcontext
      cases hcontext
      rfl
    · rintro size hsize
      cases hsize
      rfl
  obtain ⟨mvg, hmvg, -⟩ := (Canvas.Follows.blank .perChange _).run recoloredProgram
  obtain ⟨svg, hsvg, -⟩ := (Canvas.Follows.blank .perShape _).run recoloredProgram
  have hwidth : Look.unset.strokeWidth = Scalar.whole 1 := rfl
  obtain ⟨borns, commands, root, drawn, D, hcommands, hroot, hread, hink, hfont⟩ :=
    styles_agree hdebug hmvg hsvg hwidth rfl rfl none
  exact ⟨hdebug, hwidth, rfl, rfl, hplain, mvg, svg, borns, commands, root, drawn, hmvg, hsvg, D,
    hcommands, hroot, hread, hink, hfont hplain⟩

/-- A context is created where the font was changed, and text is drawn on it. -/
def letteredProgram : List (Op Rat) :=
  [.work 0 (.setFont { family := some "Arial", size := some 20 }), .addContext 0,
    .work 1 (.draw [.text ⟨0, 0⟩ "hi"])]

/-- The font of a context is not handed down to one inside, though its elements carry it. -/
theorem not_sameFont_lettered :
    let blank := fun styling =>
      Canvas.blank styling (.of 8 15) (.ofColors "white" "black" "none" : Style Rat)
    ((blank .perChange).run letteredProgram).fault = none ∧
    ((blank .perShape).run letteredProgram).fault = none ∧
    ∃ commands root drawn,
      Mvg.document ((blank .perChange).run letteredProgram).state "black" "none" = .ok commands ∧
      Svg.root? ((blank .perShape).run letteredProgram).state none = some root ∧
      Mvg.looks commands Look.unset [] = some drawn ∧
      drawn.map (·.2.family) = ["Courier"] ∧ root.figures.map (·.look.family) = ["Arial"] ∧
      ¬ List.Forall₂ SameFont drawn root.figures := by
  refine ⟨rfl, rfl, _, _, _, rfl, rfl, rfl, rfl, rfl, ?_⟩
  -- the only text is read in the family that its context starts with
  intro h
  obtain ⟨hfirst, -⟩ := List.forall₂_cons.1 h
  exact absurd hfirst.family (by decide)

end CellSketch
