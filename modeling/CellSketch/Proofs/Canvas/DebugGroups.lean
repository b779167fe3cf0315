import CellSketch.Proofs.Canvas.Backends
import CellSketch.Proofs.Canvas.Nesting

/-!
# DebugGroups — the overlays of a document

A document that can be written has one overlay for each context that shows its cells, as the last
thing in the group of that context, and no other.

* `Svg.grouped_contextsFrom` — this is so for the groups of every canvas;
* `Xml.debugGroups_page` — the groups of a document that are marked as overlays are these.
-/

namespace CellSketch

open Number

variable {α : Type}

namespace Svg

/-! ## Counting overlays -/

mutual
/-- How many overlays an element holds. -/
def Element.overlays : Element α → Nat
  | .group _ children => overlaysAll children
  | .overlay _ => 1
  | .figure _ => 0

def overlaysAll : List (Element α) → Nat
  | [] => 0
  | e :: rest => e.overlays + overlaysAll rest
end

theorem overlaysAll_append (first second : List (Element α)) :
    overlaysAll (first ++ second) = overlaysAll first + overlaysAll second := by
  induction first with
  | nil => rw [List.nil_append, overlaysAll, Nat.zero_add]
  | cons e rest ih => rw [List.cons_append, overlaysAll, overlaysAll, ih, Nat.add_assoc]

theorem overlaysAll_map_overlay (overlays : List (List (Figure α))) :
    overlaysAll (overlays.map Element.overlay) = overlays.length := by
  induction overlays with
  | nil => rfl
  | cons figures rest ih =>
      rw [List.map_cons, overlaysAll, ih, Element.overlays, List.length_cons, Nat.add_comm]

/-- Items without unfinished overlays hold those of the contexts created among them. -/
theorem overlaysAll_ofItems {base : Nat} {others : List (Element α)} {items : List (Item α)}
    (hfinished : ∀ figures, Item.unfinished figures ∉ items) :
    overlaysAll (ofItems base others items) =
      ((items.filterMap Item.child?).map fun index =>
        (Canvas.later? base index (others.map Element.overlays)).getD 0).sum := by
  induction items with
  | nil => rfl
  | cons item rest ih =>
      have hrest := ih fun figures h => hfinished figures (List.mem_cons_of_mem item h)
      cases item with
      | unfinished figures => exact absurd List.mem_cons_self (hfinished figures)
      | child index =>
          have hchild : (Item.child index :: rest).filterMap Item.child? =
              index :: rest.filterMap Item.child? := rfl
          rw [ofItems, overlaysAll_append, hrest, hchild, List.map_cons, List.sum_cons,
            Canvas.later?_map]
          cases Canvas.later? base index others <;> rfl
      | _ =>
          simp [ofItems, overlaysAll, Element.overlays, hrest, List.filterMap_cons, Item.child?]

variable [Scalar α]

/-- An overlay that meets no fault is there as a whole, if cells are shown. -/
theorem figures_trace {c : Context α} {size : Int × Int} (h : (trace c size).fault = none) :
    (c.debug = .off ∧ (trace c size).figures = none) ∨
      (c.debug ≠ .off ∧ ∃ figures, overlayFigures c size = .ok figures ∧
        (trace c size).figures = some figures) := by
  unfold trace at h ⊢
  by_cases hdebug : c.debug = .off
  · exact .inl ⟨hdebug, by rw [if_pos hdebug]⟩
  · rw [if_neg hdebug] at h ⊢
    cases hfigures : overlayFigures c size with
    | error fault =>
        rw [hfigures] at h
        cases h
    | ok figures =>
        rw [hfigures] at h
        refine .inr ⟨hdebug, figures, rfl, congrArg some ?_⟩
        refine List.takeWhile_eq_self_iff.2 fun f hf => ?_
        rw [List.findSome?_eq_none_iff.1 h f hf]
        rfl

/-- One overlay for a context that shows its cells. -/
def ownOverlays (c : Context α) : Nat := if c.debug = .off then 0 else 1

omit [Scalar α] in
theorem sum_ownOverlays (contexts : List (Context α)) :
    (contexts.mapIdx fun _ => ownOverlays).sum =
      contexts.countP fun context => context.debug != .off := by
  induction contexts with
  | nil => rfl
  | cons c rest ih =>
      rw [List.mapIdx_cons, List.sum_cons, ih, List.countP_cons, ownOverlays, Nat.add_comm]
      by_cases hdebug : c.debug = .off <;> simp [hdebug]

theorem overlays_contextsFrom {contexts : List (Context α)} {sizes : List (Int × Int)}
    (hlists : ∀ c ∈ contexts, c.Lists) (hlength : sizes.length = contexts.length)
    (hfinished : ∀ p ∈ contexts.zip sizes, Finished p.1 p.2) (base : Nat)
    (shift : Option (α × α)) :
    (contextsFrom base shift contexts sizes).map Element.overlays =
      Canvas.weigh (fun _ => ownOverlays) base contexts := by
  induction contexts generalizing base shift sizes with
  | nil => rfl
  | cons c rest ih =>
      cases sizes with
      | nil => cases hlength
      | cons size sizes =>
          rw [List.zip_cons_cons] at hfinished
          have hrest := ih (fun d hd => hlists d (List.mem_cons_of_mem c hd))
            (Nat.succ.inj hlength) (fun p hp => hfinished p (List.mem_cons_of_mem _ hp)) (base + 1)
            none
          have hc := hfinished _ List.mem_cons_self
          have hown : (trace c size).figures.toList.length = ownOverlays c := by
            unfold ownOverlays
            rcases figures_trace hc.overlay with ⟨hdebug, hnone⟩ | ⟨hdebug, figures, -, hsome⟩
            · rw [hnone, if_pos hdebug]
              rfl
            · rw [hsome, if_neg hdebug]
              rfl
          rw [contextsFrom, Canvas.weigh, List.map_cons, hrest]
          congr 1
          rw [ofContext, Element.overlays, overlaysAll_append, overlaysAll_append,
            overlaysAll_map_overlay, overlaysAll_map_overlay, overlaysAll_ofItems hc.items,
            hc.leftovers, hown, hlists c List.mem_cons_self, hrest]
          simp [Nat.add_comm]

/-! ## Groups of a canvas -/

/-- What stands on a context, and then its overlay, if its cells are shown. -/
structure OwnGroup (c : Canvas α) (groups : List (Element α)) (i : Nat) (context : Context α)
    (group : Element α) : Prop where
  /-- Nothing drawn on the context is an overlay. -/
  finished : ∀ figures, Item.unfinished figures ∉ context.items
  eq : ∃ shift overlay,
    group = .group shift (ofItems i (groups.drop (i + 1)) context.items.toList ++ overlay) ∧
    ((context.debug = .off ∧ overlay = []) ∨
      (context.debug ≠ .off ∧ ∃ figures, overlayFigures context (c.sizeInCells i) = .ok figures ∧
        overlay = [.overlay figures]))

/-- Groups for the contexts of a canvas, with one overlay for each that shows its cells. -/
structure Grouped (c : Canvas α) (groups : List (Element α)) : Prop where
  length : groups.length = c.contexts.size
  own : ∀ i context group, c.context? i = some context → groups[i]? = some group →
    OwnGroup c groups i context group
  total : ∀ root, groups.head? = some root →
    root.overlays = c.contexts.toList.countP fun context => context.debug != .off

theorem getElem?_contextsFrom {contexts : List (Context α)} {sizes : List (Int × Int)} {i : Nat}
    {context : Context α} {size : Int × Int} (hcontext : contexts[i]? = some context)
    (hsize : sizes[i]? = some size) (base : Nat) (shift : Option (α × α)) :
    ∃ shift', (contextsFrom base shift contexts sizes)[i]? =
      some (ofContext (base + i) context size shift'
        ((contextsFrom base shift contexts sizes).drop (i + 1))) := by
  induction contexts generalizing base shift sizes i with
  | nil => cases hcontext
  | cons c rest ih =>
      cases sizes with
      | nil => cases hsize
      | cons first sizes =>
          cases i with
          | zero =>
              cases hcontext
              cases hsize
              exact ⟨shift, rfl⟩
          | succ i =>
              obtain ⟨shift', h⟩ := ih hcontext hsize (base + 1) none
              refine ⟨shift', ?_⟩
              rw [contextsFrom, List.getElem?_cons_succ, h, List.drop_succ_cons,
                Nat.add_right_comm, Nat.add_assoc]

/-- If all contexts are nested, what can be written as a document can be traced as a whole. -/
theorem traced_of_stopped? {c : Canvas α} (h : c.Nests) (hstopped : stopped? c = none) :
    Traced c := by
  intro p hp
  obtain ⟨i, hi⟩ := List.mem_iff_getElem?.1 hp
  obtain ⟨hcontext, hsize⟩ := List.getElem?_zip_eq_some.1 hi
  rw [Array.getElem?_toList] at hcontext
  have hmem := h.mem_nested (Array.getElem?_eq_some_iff.1 hcontext).1
  rw [stopped?_eq] at hstopped
  have hfault := List.findSome?_eq_none_iff.1 hstopped i hmem
  have htrace : traceAt c i = trace p.1 p.2 := by
    rw [traceAt, Canvas.context?, hcontext, Canvas.sizeInCells, hsize]
    rfl
  rwa [Option.map_eq_none_iff, htrace] at hfault

/-- The groups of a canvas that can be written as a document. -/
theorem grouped_contextsFrom {c : Canvas α} (h : c.Nests) (htidy : c.Tidy)
    (hstopped : stopped? c = none) (shift : Option (α × α)) :
    Grouped c (contextsFrom 0 shift c.contexts.toList
      (Canvas.sizesFrom 0 c.contexts.toList)) := by
  have hfinished := (traced_of_stopped? h hstopped).finished htidy
  have hlength : (Canvas.sizesFrom 0 c.contexts.toList).length = c.contexts.toList.length :=
    Canvas.length_sizesFrom _ 0
  have hoverlays := overlays_contextsFrom
    (fun c hc => h.lists c (Array.mem_toList_iff.1 hc)) hlength hfinished 0 shift
  refine ⟨?_, fun i context group hcontext hgroup => ?_, fun root hroot => ?_⟩
  · have hcount := congrArg List.length hoverlays
    rwa [List.length_map, Canvas.length_weigh, Array.length_toList] at hcount
  · have hi := (Array.getElem?_eq_some_iff.1 hcontext).1
    have hsize : (Canvas.sizesFrom 0 c.contexts.toList)[i]? = some (c.sizeInCells i) := by
      rw [Canvas.sizeInCells, List.getElem?_eq_getElem (by rwa [hlength, Array.length_toList])]
      rfl
    have hlist : c.contexts.toList[i]? = some context := by rwa [Array.getElem?_toList]
    obtain ⟨shift', heq⟩ := getElem?_contextsFrom hlist hsize 0 shift
    have hown := hfinished (context, c.sizeInCells i)
      (List.mem_of_getElem? (List.getElem?_zip_eq_some.2 ⟨hlist, hsize⟩))
    rw [hgroup, Option.some.injEq, ofContext, hown.leftovers, Nat.zero_add] at heq
    refine ⟨fun figures hmem => hown.items figures (Array.mem_toList_iff.2 hmem), shift',
      (trace context (c.sizeInCells i)).figures.toList.map .overlay, ?_, ?_⟩
    · simpa using heq
    · rcases figures_trace hown.overlay with ⟨hdebug, hnone⟩ | ⟨hdebug, figures, hok, hsome⟩
      · exact .inl ⟨hdebug, by rw [hnone]; rfl⟩
      · exact .inr ⟨hdebug, figures, hok, by rw [hsome]; rfl⟩
  · have hhead := h.head?_weigh fun _ => ownOverlays
    rw [← hoverlays, List.head?_map, hroot, sum_ownOverlays] at hhead
    exact Option.some.inj hhead

end Svg

/-! ## Groups that are marked as overlays -/

namespace Xml

mutual
/-- How many groups are marked as overlays. -/
def debugGroups : Xml → Nat
  | element name attributes _ children =>
      (if name = "g" ∧ ("class", "debug") ∈ attributes then 1 else 0) + debugGroupsAll children

def debugGroupsAll : List Xml → Nat
  | [] => 0
  | x :: rest => x.debugGroups + debugGroupsAll rest
end

/-- A shape is no overlay, and there is none in it. -/
theorem debugGroups_shapeXml (s : Shape Measure) (look : Look Measure) :
    (Svg.shapeXml s look).debugGroups = 0 := by
  cases s <;>
    simp [Svg.shapeXml, Svg.pathOf, Svg.leaf, debugGroups, debugGroupsAll]

theorem debugGroupsAll_shapes (figures : List (Figure Measure)) :
    debugGroupsAll (figures.map fun f => Svg.shapeXml f.shape f.look) = 0 := by
  induction figures with
  | nil => rfl
  | cons f rest ih => rw [List.map_cons, debugGroupsAll, ih, debugGroups_shapeXml]

mutual
/-- The groups of an element that are marked as overlays are its overlays. -/
theorem debugGroups_xml : ∀ e : Svg.Element Measure, e.xml.debugGroups = e.overlays
  | .group shift children => by
      rcases shift with _ | ⟨dx, dy⟩ <;>
        simp [Svg.Element.xml, debugGroups, Svg.Element.overlays, debugGroupsAll_xmlAll children]
  | .overlay figures => by
      rw [Svg.Element.xml, debugGroups, debugGroupsAll_shapes, Svg.Element.overlays]
      simp
  | .figure f => by rw [Svg.Element.xml, debugGroups_shapeXml, Svg.Element.overlays]

theorem debugGroupsAll_xmlAll :
    ∀ es : List (Svg.Element Measure), debugGroupsAll (Svg.xmlAll es) = Svg.overlaysAll es
  | [] => rfl
  | e :: rest => by
      rw [Svg.xmlAll, debugGroupsAll, debugGroups_xml e, debugGroupsAll_xmlAll rest,
        Svg.overlaysAll]
end

/-- The overlays of a document are those of its outermost group. -/
theorem debugGroups_page (root : Svg.Element Measure) (width height : Int) :
    (Svg.page (some root) width height).debugGroups = root.overlays := by
  simp [Svg.page, debugGroups, debugGroupsAll, debugGroups_xml]

end Xml
end CellSketch
