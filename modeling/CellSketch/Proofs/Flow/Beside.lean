import Mathlib.Order.Bounds.Defs
import CellSketch.Proofs.Flow.BoxesApart

/-!
# Beside — the boxes of two graphs side by side

Two graphs without a common node make one graph, with the nodes and the edges of the first before
those of the second.  No edge leads from one to the other, so each component stays what it was, and
the components of the second graph come to stand to the right of all boxes of the first.

* `Graph.Separate.joined` — the components of both graphs;
* `Graph.Separate.network`, `Graph.Separate.network_right` — each is drawn as in its own graph;
* `Graph.Separate.drawnBy` — so both graphs are drawn if each is;
* `placeComponents_append`, `placeComponents_add` — components after others, and moved to the right;
* `Graph.Separate.boxesOf` — the boxes of both graphs, those of the second moved to the right;
* `Graph.isGreatest_leftAfter` — how far: past all boxes of the first graph.
-/

namespace CellSketch
namespace Flow

open Number

/-! ## Components -/

theorem find?_contains_eq_none {ds : List Component} {v : Nat} (h : ∀ d ∈ ds, v ∉ d) :
    ds.find? (·.contains v) = none :=
  List.find?_eq_none.2 fun d hd => by simpa using h d hd

section Joining

variable {cs ds : List Component} {e : Nat × Nat}

theorem filter_map_of_forall (h : ∀ d ∈ ds, e.1 ∉ d ∧ e.2 ∉ d) (b : Component) :
    ((ds.filter fun c => !c.contains e.2).map fun c => if c.contains e.1 then c ++ b else c) =
      ds := by
  rw [List.filter_eq_self.2 fun d hd => by simpa using (h d hd).2]
  refine (List.map_congr_left fun d hd => ?_).trans (List.map_id ds)
  rw [if_neg (by simpa using (h d hd).1), id]

/-- An edge that has no end in some components joins only the others. -/
theorem joinComponents_append (h : ∀ d ∈ ds, e.1 ∉ d ∧ e.2 ∉ d) :
    joinComponents (cs ++ ds) e = joinComponents cs e ++ ds := by
  simp only [joinComponents, List.find?_append,
    find?_contains_eq_none fun d hd => (h d hd).1, find?_contains_eq_none fun d hd => (h d hd).2,
    Option.or_none]
  split
  · split
    · rfl
    · rw [List.filter_append, List.map_append, filter_map_of_forall h]
  · rfl

theorem joinComponents_append_right (h : ∀ c ∈ cs, e.1 ∉ c ∧ e.2 ∉ c) :
    joinComponents (cs ++ ds) e = cs ++ joinComponents ds e := by
  simp only [joinComponents, List.find?_append,
    find?_contains_eq_none fun c hc => (h c hc).1, find?_contains_eq_none fun c hc => (h c hc).2,
    Option.none_or]
  split
  · split
    · rfl
    · rw [List.filter_append, List.map_append, filter_map_of_forall h]
  · rfl

/-- The vertices may have other numbers. -/
theorem joinComponents_map {f : Nat → Nat} (hf : Function.Injective f) :
    joinComponents (cs.map (·.map f)) (f e.1, f e.2) = (joinComponents cs e).map (·.map f) := by
  have hmem (v : Nat) (c : Component) : (c.map f).contains (f v) = c.contains v := by
    rw [Bool.eq_iff_iff, List.contains_iff_mem, List.contains_iff_mem, List.mem_map_of_injective hf]
  have hcomp (v : Nat) : (fun c : Component => c.contains (f v)) ∘ List.map f =
      fun c => c.contains v := funext (hmem v)
  simp only [joinComponents, List.find?_map, hcomp]
  cases cs.find? (·.contains e.1) with
  | none => rfl
  | some a =>
      cases cs.find? (·.contains e.2) with
      | none => rfl
      | some b =>
          simp only [Option.map_some, hmem]
          split
          · rfl
          · rw [List.filter_map, List.map_map, List.map_map]
            simp only [Function.comp_def, hmem]
            refine List.map_congr_left fun c _ => ?_
            split
            · exact List.map_append.symm
            · rfl

/-! ### All edges -/

variable {edges : List (Nat × Nat)}

theorem foldl_joinComponents_append (h : ∀ e ∈ edges, ∀ d ∈ ds, e.1 ∉ d ∧ e.2 ∉ d) :
    edges.foldl joinComponents (cs ++ ds) = edges.foldl joinComponents cs ++ ds := by
  induction edges generalizing cs with
  | nil => rfl
  | cons e rest ih =>
      rw [List.foldl_cons, List.foldl_cons, joinComponents_append (h e List.mem_cons_self),
        ih fun f hf => h f (List.mem_cons_of_mem e hf)]

theorem foldl_joinComponents_append_right (h : ∀ e ∈ edges, ∀ c ∈ cs, e.1 ∉ c ∧ e.2 ∉ c) :
    edges.foldl joinComponents (cs ++ ds) = cs ++ edges.foldl joinComponents ds := by
  induction edges generalizing ds with
  | nil => rfl
  | cons e rest ih =>
      rw [List.foldl_cons, List.foldl_cons, joinComponents_append_right (h e List.mem_cons_self),
        ih fun f hf => h f (List.mem_cons_of_mem e hf)]

theorem foldl_joinComponents_map {f : Nat → Nat} (hf : Function.Injective f) :
    (edges.map (Prod.map f f)).foldl joinComponents (cs.map (·.map f)) =
      (edges.foldl joinComponents cs).map (·.map f) := by
  induction edges generalizing cs with
  | nil => rfl
  | cons e rest ih =>
      rw [List.map_cons, List.foldl_cons, List.foldl_cons, ← ih, ← joinComponents_map hf]
      rfl

end Joining

/-! ## Two graphs -/

namespace Graph

/-- Two graphs as one. -/
def beside (g h : Graph) : Graph := ⟨g.nodes ++ h.nodes, g.edges ++ h.edges⟩

def ids (g : Graph) : List Id := g.nodes.map Node.id

/-- Edges lead between nodes of the graph. -/
def Closed (g : Graph) : Prop := ∀ e ∈ g.edges, e.source ∈ g.ids ∧ e.target ∈ g.ids

/-- Graphs without a common node, and no edge that leads out of one of them. -/
structure Separate (g h : Graph) : Prop where
  left : g.Closed
  right : h.Closed
  apart : ∀ id ∈ h.ids, id ∉ g.ids

/-- The index that a node of a second graph has beside a first one. -/
def past (g : Graph) (i : Nat) : Nat := g.nodes.length + i

theorem past_injective (g : Graph) : Function.Injective g.past := fun _ _ => Nat.add_left_cancel

theorem le_past (g : Graph) (i : Nat) : g.nodes.length ≤ g.past i := Nat.le_add_right _ _

variable {g h : Graph}

theorem isSome_indexOf? {id : Id} (hid : id ∈ g.ids) : ∃ i, g.indexOf? id = some i := by
  obtain ⟨n, hn, rfl⟩ := List.mem_map.1 hid
  rw [indexOf?, ← Option.isSome_iff_exists, List.findIdx?_isSome, List.any_eq_true]
  exact ⟨n, hn, beq_self_eq_true _⟩

theorem indexOf?_beside {id : Id} (hid : id ∈ g.ids) :
    (g.beside h).indexOf? id = g.indexOf? id := by
  obtain ⟨i, hi⟩ := isSome_indexOf? hid
  rw [indexOf?, beside, List.findIdx?_append, ← indexOf?, hi]
  rfl

theorem indexOf?_beside_right {id : Id} (hid : id ∉ g.ids) :
    (g.beside h).indexOf? id = (h.indexOf? id).map g.past := by
  have hnone : g.nodes.findIdx? (·.id == id) = none := by
    rw [List.findIdx?_eq_none_iff]
    intro n hn
    simpa using fun heq => hid (List.mem_map.2 ⟨n, hn, heq⟩)
  rw [indexOf?, beside, List.findIdx?_append, hnone, Option.none_or, indexOf?]
  exact congrArg (Option.map · _) (funext fun i => Nat.add_comm i g.nodes.length)

/-- Edges keep their ends. -/
theorem Separate.indexedEdges (S : Separate g h) :
    (g.beside h).indexedEdges = g.indexedEdges ++ h.indexedEdges.map (Prod.map g.past g.past) := by
  rw [Graph.indexedEdges, beside, List.filterMap_append, Graph.indexedEdges, Graph.indexedEdges,
    List.map_filterMap]
  congr 1
  · refine List.filterMap_congr fun e he => ?_
    rw [← beside, indexOf?_beside (S.left e he).1, indexOf?_beside (S.left e he).2]
  · refine List.filterMap_congr fun e he => ?_
    rw [← beside, indexOf?_beside_right (S.apart _ (S.right e he).1),
      indexOf?_beside_right (S.apart _ (S.right e he).2)]
    cases h.indexOf? e.source <;> cases h.indexOf? e.target <;> rfl

/-- The components of two graphs without a common node are those of both. -/
theorem Separate.joined (S : Separate g h) :
    joined (g.beside h).nodes.length (g.beside h).indexedEdges =
      joined g.nodes.length g.indexedEdges ++
        (joined h.nodes.length h.indexedEdges).map (·.map g.past) := by
  have hrange : (List.range (g.beside h).nodes.length).map ([·]) =
      (List.range g.nodes.length).map ([·]) ++
        ((List.range h.nodes.length).map ([·])).map (·.map g.past) := by
    rw [beside, List.length_append, List.range_add, List.map_append, List.map_map, List.map_map]
    rfl
  rw [Flow.joined, S.indexedEdges, hrange, List.foldl_append,
    foldl_joinComponents_append, foldl_joinComponents_append_right, foldl_joinComponents_map]
  · rfl
  · exact g.past_injective
  · -- the edges of the second graph have no end in the first
    intro e he c hc
    obtain ⟨e, -, rfl⟩ := List.mem_map.1 he
    have hlt {i : Nat} (hi : g.past i ∈ c) : False :=
      absurd ((shared_joined _ _).lt_of_mem hc hi) (not_lt.2 (g.le_past i))
    exact ⟨hlt, hlt⟩
  · intro e he d hd
    obtain ⟨c, hc, rfl⟩ := List.mem_map.1 hd
    obtain ⟨v, -, rfl⟩ := List.mem_map.1 hc
    obtain ⟨h₁, h₂⟩ := lt_of_mem_indexedEdges he
    have hle := g.le_past v
    constructor <;> rw [List.map_singleton, List.mem_singleton] <;> omega

/-! ### Networks -/

/-- An edge in the numbers of a component, if both of its ends are there. -/
def edgeIn (c : Component) (e : Nat × Nat) : Option (Nat × Nat) := do
  let i ← c.findIdx? (· == e.1)
  let j ← c.findIdx? (· == e.2)
  some (i, j)

theorem edgeIn_eq_none {c : Component} {e : Nat × Nat} (he : e.1 ∉ c) : edgeIn c e = none := by
  have hnone : c.findIdx? (· == e.1) = none := by
    rw [List.findIdx?_eq_none_iff]
    exact fun v hv => beq_eq_false_iff_ne.2 fun heq => he (heq ▸ hv)
  rw [edgeIn, hnone]
  rfl

theorem edgeIn_map {f : Nat → Nat} (hf : Function.Injective f) (c : Component) (e : Nat × Nat) :
    edgeIn (c.map f) (e.map f f) = edgeIn c e := by
  have hfind (a : Nat) : (c.map f).findIdx? (· == f a) = c.findIdx? (· == a) := by
    rw [List.findIdx?_map]
    congr 1
    funext v
    rw [Function.comp_apply, Bool.eq_iff_iff, beq_iff_eq, beq_iff_eq, hf.eq_iff]
  rw [edgeIn, Prod.map_fst, Prod.map_snd, hfind, hfind, edgeIn]

theorem edges_network (g : Graph) (c : Component) :
    (g.network c).edges = (g.indexedEdges.filterMap (edgeIn c)).toArray := rfl

/-- A component of the first graph is drawn as before. -/
theorem Separate.network (S : Separate g h) {c : Component} (hc : ∀ v ∈ c, v < g.nodes.length) :
    (g.beside h).network c = g.network c := by
  have hright : (h.indexedEdges.map (Prod.map g.past g.past)).filterMap (edgeIn c) = [] := by
    refine List.filterMap_eq_nil_iff.2 fun e he => ?_
    obtain ⟨e, -, rfl⟩ := List.mem_map.1 he
    exact edgeIn_eq_none fun hmem => absurd (hc _ hmem) (not_lt.2 (g.le_past _))
  rw [Network.mk.injEq]
  constructor
  · refine congrArg List.toArray (List.filterMap_congr fun v hv => ?_)
    rw [beside, List.getElem?_append_left (hc v hv)]
  · rw [edges_network, edges_network, S.indexedEdges, List.filterMap_append,
      hright, List.append_nil]

/-- A component of the second graph is drawn as before, with other numbers for its nodes. -/
theorem Separate.network_right (S : Separate g h) (c : Component) :
    (g.beside h).network (c.map g.past) = h.network c := by
  have hleft : g.indexedEdges.filterMap (edgeIn (c.map g.past)) = [] := by
    refine List.filterMap_eq_nil_iff.2 fun e he => edgeIn_eq_none fun hmem => ?_
    obtain ⟨w, -, hw⟩ := List.mem_map.1 hmem
    exact absurd (hw ▸ g.le_past w) (not_le.2 (lt_of_mem_indexedEdges he).1)
  rw [Network.mk.injEq]
  constructor
  · refine congrArg List.toArray ?_
    rw [List.filterMap_map]
    refine List.filterMap_congr fun v _ => ?_
    rw [Function.comp_apply, beside, List.getElem?_append_right (g.le_past v), past,
      Nat.add_sub_cancel_left]
  · rw [edges_network, edges_network, S.indexedEdges, List.filterMap_append,
      hleft, List.nil_append, List.filterMap_map]
    exact congrArg List.toArray
      (List.filterMap_congr fun e _ => edgeIn_map g.past_injective c e)

/-! ### Drawings -/

/-- The components of both graphs, the nodes of the second with other numbers. -/
def drawnBeside (g : Graph) (first second : List (Component × List Cell)) :
    List (Component × List Cell) :=
  first ++ second.map (Prod.map (·.map g.past) id)

/-- Both graphs are drawn if each is: the components of the first, then those of the second with
other numbers for their nodes. -/
theorem Separate.drawnBy {α : Type} [Scalar α] {engine : Engine α} (S : Separate g h)
    (hjoined : engine.components = Flow.joined) {first second : List (Component × List Cell)}
    (hg : g.drawnBy engine = .ok first) (hh : h.drawnBy engine = .ok second) :
    (g.beside h).drawnBy engine = .ok (g.drawnBeside first second) := by
  have D := drawn_of_drawnBy hg
  rw [drawnBy_eq_ok_iff] at hg hh ⊢
  obtain ⟨hgmap, hgcorners⟩ := hg
  obtain ⟨hhmap, hhcorners⟩ := hh
  constructor
  · rw [components, hjoined, S.joined, ← hjoined]
    change _ = g.components engine ++ (h.components engine).map _
    rw [← hgmap, ← hhmap, drawnBeside, List.map_append, List.map_map, List.map_map]
    rfl
  · rw [drawnBeside, List.forall_mem_append, List.forall_mem_map]
    refine ⟨fun d hd => ?_, fun d hd => ?_⟩
    · rw [S.network fun v hv => D.lt_of_mem hd hv]
      exact hgcorners d hd
    · rw [Prod.map_fst, S.network_right]
      exact hhcorners d hd

end Graph

/-! ## Places -/

/-- Moves what stands at a place to the right. -/
def moveRight (d : Int) (entry : Nat × Cell) : Nat × Cell :=
  (entry.1, ⟨entry.2.x + d, entry.2.y⟩)

theorem shiftTo_add (left d : Int) (cells : List Cell) :
    shiftTo (left + d) cells = (shiftTo left cells).map fun p => ⟨p.x + d, p.y⟩ := by
  rw [shiftTo, shiftTo, List.map_map]
  refine List.map_congr_left fun c _ => ?_
  rw [Function.comp_apply, Cell.mk.injEq]
  dsimp only
  exact ⟨by omega, rfl⟩

/-- A component takes up as many columns wherever it starts. -/
theorem columnsOf_add (left d : Int) (cells : List Cell) (widths : List Nat) :
    columnsOf (left + d) cells widths = columnsOf left cells widths := by
  rw [columnsOf, shiftTo_add, List.zip_map_left, List.map_map, columnsOf]
  refine congrArg extent (List.map_congr_left fun p _ => ?_)
  dsimp only [Function.comp_apply, Prod.map, id]
  omega

section Place

variable {widths widths' : Component → List Nat} {ds es : List (Component × List Cell)} {left : Int}

/-- The column where the next component would start. -/
def leftAfter (widths : Component → List Nat) :
    (left : Int) → List (Component × List Cell) → Int
  | left, [] => left
  | left, d :: rest =>
      leftAfter widths (left + columnsOf left d.2 (widths d.1) + componentSpacing) rest

theorem placeComponents_append : placeComponents widths left (ds ++ es) =
    placeComponents widths left ds ++ placeComponents widths (leftAfter widths left ds) es := by
  induction ds generalizing left with
  | nil => rfl
  | cons d rest ih =>
      rw [List.cons_append, placeComponents_cons, placeComponents_cons, ih, leftAfter,
        List.append_assoc]

theorem placeComponents_add (d : Int) : placeComponents widths (left + d) ds =
    (placeComponents widths left ds).map (moveRight d) := by
  induction ds generalizing left with
  | nil => rfl
  | cons c rest ih =>
      rw [placeComponents_cons, placeComponents_cons, List.map_append, ← ih, columnsOf_add,
        shiftTo_add, List.zip_map_right]
      congr 1
      · congr 1
        omega

/-- Components that are drawn in the same way come to stand at the same places. -/
theorem placeComponents_map {f : Nat → Nat} (hwidths : ∀ d ∈ ds, widths' (d.1.map f) = widths d.1) :
    placeComponents widths' left (ds.map (Prod.map (·.map f) id)) =
      (placeComponents widths left ds).map (Prod.map f id) := by
  induction ds generalizing left with
  | nil => rfl
  | cons d rest ih =>
      rw [List.map_cons, placeComponents_cons, placeComponents_cons, List.map_append, Prod.map_fst,
        Prod.map_snd, id, hwidths d List.mem_cons_self, List.zip_map_left,
        ih fun e he => hwidths e (List.mem_cons_of_mem d he)]

theorem placeComponents_congr (hwidths : ∀ d ∈ ds, widths' d.1 = widths d.1) :
    placeComponents widths' left ds = placeComponents widths left ds := by
  induction ds generalizing left with
  | nil => rfl
  | cons d rest ih =>
      rw [placeComponents_cons, placeComponents_cons, hwidths d List.mem_cons_self,
        ih fun e he => hwidths e (List.mem_cons_of_mem d he)]

theorem leftAfter_congr (hwidths : ∀ d ∈ ds, widths' d.1 = widths d.1) :
    leftAfter widths' left ds = leftAfter widths left ds := by
  induction ds generalizing left with
  | nil => rfl
  | cons d rest ih =>
      rw [leftAfter, leftAfter, hwidths d List.mem_cons_self,
        ih fun e he => hwidths e (List.mem_cons_of_mem d he)]

/-! ### The last column -/

variable {width : Nat → Nat} {c : Component} {cells : List Cell}

theorem columnsOf_eq : columnsOf left cells (c.map width) =
    extent ((c.zip (shiftTo left cells)).map fun entry => entry.2.x - left + width entry.1) := by
  rw [columnsOf, List.map_zip_eq_zipWith, List.zipWith_map_right, List.zipWith_comm,
    List.map_zip_eq_zipWith]
  rfl

theorem le_columnsOf {i : Nat} {p : Cell} (h : (i, p) ∈ c.zip (shiftTo left cells)) :
    p.x - left + width i ≤ columnsOf left cells (c.map width) := by
  rw [columnsOf_eq]
  exact le_extent
    (List.mem_map_of_mem (f := fun entry => entry.2.x - left + (width entry.1 : Int)) h)

/-- A component has a box that ends in its last column. -/
theorem exists_columnsOf_eq (left : Int) (hwide : ∀ i ∈ c, 0 < width i)
    (hlength : cells.length = c.length) (hne : c ≠ []) :
    ∃ i p, (i, p) ∈ c.zip (shiftTo left cells) ∧
      p.x - left + width i = columnsOf left cells (c.map width) := by
  have hzip : c.zip (shiftTo left cells) ≠ [] := by
    rwa [← List.length_pos_iff, List.length_zip, length_shiftTo, hlength, Nat.min_self,
      List.length_pos_iff]
  obtain ⟨⟨i, p⟩, hmem⟩ := List.exists_mem_of_ne_nil _ hzip
  have hleft := (le_of_mem_shiftTo (List.of_mem_zip hmem).2).1
  have hwidth := hwide i (List.of_mem_zip hmem).1
  have hlow : p.x - left + width i ≤ columnsOf left cells (c.map width) := le_columnsOf hmem
  rw [columnsOf_eq] at hlow ⊢
  rcases extent_eq_zero_or_mem
    ((c.zip (shiftTo left cells)).map fun entry => entry.2.x - left + (width entry.1 : Int))
    with h | h
  · omega
  · obtain ⟨⟨j, q⟩, hq, heq⟩ := List.mem_map.1 h
    exact ⟨j, q, hq, heq⟩

theorem le_leftAfter : left ≤ leftAfter widths left ds := by
  induction ds generalizing left with
  | nil => exact le_rfl
  | cons d rest ih =>
      have hcolumns : 0 ≤ columnsOf left d.2 (widths d.1) := extent_nonneg _
      rw [leftAfter]
      exact le_trans (by omega) ih

/-- A component whose boxes all have a corner and a width. -/
structure Cornered (widths : Component → List Nat) (width : Nat → Nat)
    (d : Component × List Cell) : Prop where
  inhabited : d.1 ≠ []
  length_eq : d.2.length = d.1.length
  widths_eq : widths d.1 = d.1.map width
  wide : ∀ i ∈ d.1, 0 < width i

/-- No box reaches over the last column. -/
theorem le_leftAfter_of_mem (h : ∀ d ∈ ds, Cornered widths width d) {i : Nat} {p : Cell}
    (hmem : (i, p) ∈ placeComponents widths left ds) :
    p.x + width i + componentSpacing ≤ leftAfter widths left ds := by
  induction ds generalizing left with
  | nil => cases hmem
  | cons d rest ih =>
      rw [placeComponents_cons, List.mem_append] at hmem
      rw [leftAfter]
      rcases hmem with hmem | hmem
      · have hcolumns : p.x - left + width i ≤ columnsOf left d.2 (widths d.1) := by
          rw [(h d List.mem_cons_self).widths_eq]
          exact le_columnsOf hmem
        exact le_trans (by omega) le_leftAfter
      · exact ih (fun e he => h e (List.mem_cons_of_mem d he)) hmem

/-- The last component has a box that ends in the last column. -/
theorem exists_leftAfter_eq (left : Int) (h : ∀ d ∈ ds, Cornered widths width d) (hne : ds ≠ []) :
    ∃ i p, (i, p) ∈ placeComponents widths left ds ∧
      p.x + width i + componentSpacing = leftAfter widths left ds := by
  induction ds generalizing left with
  | nil => exact absurd rfl hne
  | cons d rest ih =>
      rw [leftAfter]
      simp only [placeComponents_cons, List.mem_append]
      by_cases hrest : rest = []
      · have hd := h d List.mem_cons_self
        obtain ⟨i, p, hmem, heq⟩ :=
          exists_columnsOf_eq left hd.wide hd.length_eq hd.inhabited
        refine ⟨i, p, .inl hmem, ?_⟩
        rw [hrest, leftAfter, hd.widths_eq, ← heq]
        omega
      · obtain ⟨i, p, hmem, heq⟩ := ih _ (fun e he => h e (List.mem_cons_of_mem d he)) hrest
        exact ⟨i, p, .inr hmem, heq⟩

end Place

/-! ## Boxes -/

/-- A box moved to the right. -/
def Box.moveRight (d : Int) (b : Box) : Box := { b with x := b.x + d }

namespace Graph

variable {g h : Graph} {first second drawn : List (Component × List Cell)}

def widthsOf (g : Graph) (c : Component) : List Nat := (g.network c).widths.toList

theorem placed_def : g.placed drawn = placeComponents g.widthsOf 0 drawn := rfl

/-- The first column that is free for the components of another graph. -/
def leftAfter (g : Graph) (drawn : List (Component × List Cell)) : Int :=
  Flow.leftAfter g.widthsOf 0 drawn

/-- Where the boxes of both graphs stand. -/
theorem Separate.placed (S : Separate g h) (D : g.Drawn first)
    (second : List (Component × List Cell)) :
    (g.beside h).placed (g.drawnBeside first second) = g.placed first ++
      ((h.placed second).map (Flow.moveRight (g.leftAfter first))).map (Prod.map g.past id) := by
  have hwidths : ∀ d ∈ first, (g.beside h).widthsOf d.1 = g.widthsOf d.1 := fun d hd =>
    congrArg (·.widths.toList) (S.network fun v hv => D.lt_of_mem hd hv)
  have hwidths' : ∀ d ∈ second, (g.beside h).widthsOf (d.1.map g.past) = h.widthsOf d.1 :=
    fun d _ => congrArg (·.widths.toList) (S.network_right d.1)
  rw [placed_def, drawnBeside, placeComponents_append, placeComponents_congr hwidths,
    leftAfter_congr hwidths, placeComponents_map hwidths', ← leftAfter,
    ← Int.zero_add (g.leftAfter first), placeComponents_add, Int.zero_add, ← placed_def,
    ← placed_def]

theorem Separate.find?_placed (S : Separate g h) (D : g.Drawn first)
    (second : List (Component × List Cell)) {i : Nat} (hi : i < g.nodes.length) :
    ((g.beside h).placed (g.drawnBeside first second)).find? (·.1 == i) =
      (g.placed first).find? (·.1 == i) := by
  have hnone : (((h.placed second).map (Flow.moveRight (g.leftAfter first))).map
      (Prod.map g.past id)).find? (·.1 == i) = none := by
    refine List.find?_eq_none.2 fun e he => ?_
    obtain ⟨e, -, rfl⟩ := List.mem_map.1 he
    have hle := g.le_past e.1
    simp only [Prod.map_fst, beq_iff_eq]
    omega
  rw [S.placed D, List.find?_append, hnone, Option.or_none]

theorem Separate.find?_placed_right (S : Separate g h) (D : g.Drawn first)
    (second : List (Component × List Cell)) (i : Nat) :
    ((g.beside h).placed (g.drawnBeside first second)).find? (·.1 == g.past i) =
      ((h.placed second).find? (·.1 == i)).map fun e =>
        (g.past e.1, ⟨e.2.x + g.leftAfter first, e.2.y⟩) := by
  have hnone : (g.placed first).find? (·.1 == g.past i) = none := by
    refine List.find?_eq_none.2 fun e he => ?_
    have hlt := D.lt_of_mem_placed (i := e.1) (p := e.2) he
    have hle := g.le_past i
    simp only [beq_iff_eq]
    omega
  have hsame : ((·.1 == g.past i) ∘ Prod.map g.past id) ∘ Flow.moveRight (g.leftAfter first) =
      fun e => e.1 == i := by
    funext e
    rw [Function.comp_apply, Function.comp_apply, Bool.eq_iff_iff, beq_iff_eq, beq_iff_eq]
    exact g.past_injective.eq_iff
  rw [S.placed D, List.find?_append, hnone, Option.none_or, List.find?_map, List.find?_map, hsame,
    Option.map_map]
  rfl

/-- The boxes of both graphs: those of the second one stand to the right of the first. -/
theorem Separate.boxesOf (S : Separate g h) (D : g.Drawn first)
    (second : List (Component × List Cell)) :
    (g.beside h).boxesOf (g.drawnBeside first second) = g.boxesOf first ++
      (h.boxesOf second).map (Box.moveRight (g.leftAfter first)) := by
  have hdef (g : Graph) (drawn : List (Component × List Cell)) :
      g.boxesOf drawn = g.nodes.zipIdx.filterMap fun entry =>
        ((g.placed drawn).find? (·.1 == entry.2)).map fun e => boxAt entry.1 e.2 := rfl
  have hnodes : (g.beside h).nodes.zipIdx =
      g.nodes.zipIdx ++ h.nodes.zipIdx.map fun entry => (entry.1, g.past entry.2) := by
    rw [beside, List.zipIdx_append, List.zipIdx_eq_map_add (l := h.nodes)]
    simp only [past, Nat.zero_add]
  rw [hdef, hdef g, hdef h, hnodes, List.filterMap_append, List.filterMap_map, List.map_filterMap]
  congr 1
  · refine List.filterMap_congr fun entry hmem => ?_
    rw [S.find?_placed D second (List.snd_lt_of_mem_zipIdx hmem)]
  · refine List.filterMap_congr fun entry _ => ?_
    rw [Function.comp_apply, S.find?_placed_right D, Option.map_map, Option.map_map]
    rfl

/-! ### Past all boxes -/

theorem widthAt_pos {i : Nat} (hi : i < g.nodes.length) : 0 < g.widthAt i := by
  rw [widthAt, List.getElem?_eq_getElem hi]
  exact Nat.succ_pos _

theorem Drawn.cornered (D : g.Drawn drawn) {d : Component × List Cell} (hd : d ∈ drawn) :
    Cornered g.widthsOf g.widthAt d where
  inhabited := D.shared.inhabited _ (List.mem_map_of_mem hd)
  length_eq := D.length_eq d hd
  widths_eq := D.widths_eq hd
  wide _ hi := widthAt_pos (D.lt_of_mem hd hi)

/-- The free columns start past the box that reaches the furthest. -/
theorem isGreatest_leftAfter (D : g.Drawn drawn) (hne : g.nodes ≠ []) :
    IsGreatest {right | ∃ b ∈ g.boxesOf drawn, b.x + b.width = right}
      (g.leftAfter drawn - componentSpacing) := by
  obtain ⟨spot, hspot, hboxes⟩ := D.exists_boxesOf_eq
  rw [hboxes]
  constructor
  · have hdrawn : drawn ≠ [] := by
      rintro rfl
      obtain ⟨c, hc, -⟩ := D.shared.exists_mem (List.length_pos_iff.2 hne)
      cases hc
    obtain ⟨i, p, hp, heq⟩ := exists_leftAfter_eq 0 (fun d hd => D.cornered hd) hdrawn
    have hi := D.lt_of_mem_placed hp
    obtain rfl := placeComponents_unique D.shared.nodup hp (hspot i hi)
    have hbox := getElem?_boxesAt_of_lt spot hi
    obtain ⟨-, hx, -, hwidth, -⟩ := getElem?_boxesAt hbox
    refine ⟨_, List.mem_of_getElem? hbox, ?_⟩
    rw [hx, hwidth, leftAfter]
    omega
  · rintro right ⟨b, hb, rfl⟩
    obtain ⟨i, hi⟩ := List.mem_iff_getElem?.1 hb
    obtain ⟨hlt, hx, -, hwidth, -⟩ := getElem?_boxesAt hi
    have hle := le_leftAfter_of_mem (fun d hd => D.cornered hd) (hspot i hlt)
    rw [hx, hwidth, leftAfter]
    omega

end Graph

end Flow
end CellSketch
