import CellSketch.Proofs.Flow.JoinedTexts

/-!
# Tokens — the graph that the nodes and operators of a text tell of

A flow text that is accepted is a list of chains, and the graph that is read from it is given by the
nodes and operators of these chains in reading order.  Nodes come in the order of first mention; a
node is called by the last label that is given to it anywhere, or by its id.  Every operator between
different nodes is an edge, and every other one is noticed and left out.

* `lastLabel`, `nodesOf`, `edgesOf` — the nodes and edges that mentions and joins tell of;
* `nodes_mention` — one more mention, which may be new, name a known node or say nothing;
* `foldl_addStatement` — chain after chain, the graph stays the one that was told of so far;
* `Says` — the chains of a text with the numbers of their lines;
* `parse_tells` — the graph of a text, what is noticed, and that a layout finds all of its nodes.
-/

namespace CellSketch
namespace Flow

open Number

/-! ## What is told -/

/-- What a node is called: the last label that is given to it, or its id if there is none. -/
def lastLabel (references : List Reference) (id : Id) : List Char :=
  ((references.filter fun r => r.id = id ∧ r.label ≠ []).getLast?).elim id (·.label)

/-- The nodes that are mentioned, each where it is mentioned first. -/
def nodesOf (references : List Reference) : List Node :=
  (references.map (·.id)).eraseDups.map fun id => ⟨id, lastLabel references id⟩

/-- The edges of joins between different nodes. -/
def edgesOf (joins : List (Operator × Id × Id)) : List Edge :=
  (joins.filter fun join => join.2.1 ≠ join.2.2).map fun join => join.1.edge join.2.1 join.2.2

section Mentions

variable {references : List Reference} {r : Reference} {g : Graph}

/-- A later label takes the place of earlier ones, unless it is empty. -/
theorem lastLabel_concat (references : List Reference) (r : Reference) (id : Id) :
    lastLabel (references ++ [r]) id =
      if r.id = id ∧ r.label ≠ [] then r.label else lastLabel references id := by
  unfold lastLabel
  rw [List.filter_append, List.filter_singleton]
  by_cases hlabel : r.id = id ∧ r.label ≠ []
  · simp [hlabel]
  · simp [hlabel]

theorem lastLabel_of_not_mem {id : Id} (h : id ∉ references.map (·.id)) :
    lastLabel references id = id := by
  have hnone : references.filter (fun r => r.id = id ∧ r.label ≠ []) = [] := by
    rw [List.filter_eq_nil_iff]
    intro r hr hlabel
    have hid : r.id = id := (of_decide_eq_true hlabel).1
    exact h (hid ▸ List.mem_map_of_mem hr)
  rw [lastLabel, hnone]
  rfl

/-- No node is called by the empty text. -/
theorem lastLabel_ne_nil {id : Id} (hid : id ≠ []) : lastLabel references id ≠ [] := by
  rw [lastLabel]
  cases hlast : (references.filter fun r => r.id = id ∧ r.label ≠ []).getLast? with
  | none => exact hid
  | some r =>
      have hmem := List.mem_filter.1 (List.mem_of_getLast? hlast)
      exact (of_decide_eq_true hmem.2).2

theorem eraseDups_concat {α : Type} [BEq α] [LawfulBEq α] (l : List α) (a : α) [Decidable (a ∈ l)] :
    (l ++ [a]).eraseDups = if a ∈ l then l.eraseDups else l.eraseDups ++ [a] := by
  rw [List.eraseDups_append]
  split
  · rename_i hmem
    simp [List.removeAll, hmem]
  · rename_i hmem
    simp [List.removeAll, hmem, List.eraseDups_cons]

theorem mem_ids_nodesOf {id : Id} (hg : g.nodes = nodesOf references) :
    id ∈ g.ids ↔ id ∈ references.map (·.id) := by
  rw [Graph.ids, hg, nodesOf, List.map_map, ← List.mem_eraseDups]
  simp [Function.comp_def]

/-- A known node may be called by another label from now on. -/
theorem nodesOf_concat_of_mem (h : r.id ∈ references.map (·.id)) :
    nodesOf (references ++ [r]) = (nodesOf references).map fun n =>
      if n.id = r.id ∧ r.label ≠ [] then { n with label := r.label } else n := by
  have hids := eraseDups_concat (references.map (·.id)) r.id
  rw [nodesOf, List.map_append, List.map_singleton, hids, if_pos h, nodesOf, List.map_map]
  refine List.map_congr_left ?_
  intro id _
  have hsame : id = r.id ∧ r.label ≠ [] ↔ r.id = id ∧ r.label ≠ [] := by rw [eq_comm]
  simp only [Function.comp_apply, hsame, lastLabel_concat]
  split <;> rfl

/-- No label was given to a new node before. -/
theorem nodesOf_concat_of_not_mem (h : r.id ∉ references.map (·.id)) :
    nodesOf (references ++ [r]) =
      nodesOf references ++ [⟨r.id, if r.label.isEmpty then r.id else r.label⟩] := by
  have hids := eraseDups_concat (references.map (·.id)) r.id
  have hold : ∀ id ∈ (references.map (·.id)).eraseDups,
      lastLabel (references ++ [r]) id = lastLabel references id := by
    intro id hid
    have hne : r.id ≠ id := by
      rintro rfl
      exact h (List.mem_eraseDups.1 hid)
    rw [lastLabel_concat, if_neg fun hlabel => hne hlabel.1]
  have hnew : lastLabel (references ++ [r]) r.id = if r.label.isEmpty then r.id else r.label := by
    rw [lastLabel_concat, lastLabel_of_not_mem h]
    by_cases hlabel : r.label = [] <;> simp [hlabel]
  rw [nodesOf, List.map_append, List.map_singleton, hids, if_neg h, List.map_append,
    List.map_singleton, hnew, nodesOf]
  congr 1
  refine List.map_congr_left ?_
  intro id hid
  rw [hold id hid]

/-- One more mention of a node. -/
theorem nodes_mention (hg : g.nodes = nodesOf references) (r : Reference) :
    (g.mention r.id r.label).nodes = nodesOf (references ++ [r]) := by
  have hknown : g.hasNode r.id ↔ r.id ∈ references.map (·.id) :=
    Graph.hasNode_iff_mem_ids.trans (mem_ids_nodesOf hg)
  rw [Graph.mention]
  by_cases hmem : r.id ∈ references.map (·.id)
  · rw [if_pos (hknown.2 hmem), nodesOf_concat_of_mem hmem, ← hg]
    by_cases hlabel : r.label = []
    · simp [hlabel]
    · simp [hlabel]
  · rw [if_neg fun hnode => hmem (hknown.1 hnode), nodesOf_concat_of_not_mem hmem, ← hg]

theorem nodes_foldl_mention (hg : g.nodes = nodesOf references) (more : List Reference) :
    (more.foldl (fun g r => g.mention r.id r.label) g).nodes = nodesOf (references ++ more) := by
  induction more generalizing g references with
  | nil => rw [List.append_nil, List.foldl_nil, hg]
  | cons r more ih =>
      rw [List.foldl_cons, ih (nodes_mention hg r), List.append_assoc, List.singleton_append]

end Mentions

/-! ## Chains -/

section Chains

variable {g : Graph}

/-- Joins add their edges and leave out those of a node to itself. -/
theorem edges_foldl_addJoin (joins : List (Operator × Id × Id)) (g : Graph) :
    (joins.foldl Graph.addJoin g).edges = g.edges ++ edgesOf joins := by
  induction joins generalizing g with
  | nil => exact (List.append_nil _).symm
  | cons join rest ih =>
      rw [List.foldl_cons, ih, Graph.addJoin]
      by_cases hsame : join.2.1 = join.2.2
      · simp [edgesOf, hsame]
      · simp [edgesOf, hsame, Graph.addEdge]

/-- After each chain the graph is the one that was told of so far. -/
theorem foldl_addStatement {references : List Reference} (hg : g.nodes = nodesOf references)
    (statements : List Statement) :
    (statements.foldl Graph.addStatement g).nodes =
        nodesOf (references ++ statements.flatMap (·.references)) ∧
      (statements.foldl Graph.addStatement g).edges =
        g.edges ++ statements.flatMap (edgesOf ·.joins) := by
  induction statements generalizing g references with
  | nil => simp [hg]
  | cons s rest ih =>
      have hnodes : (g.addStatement s).nodes = nodesOf (references ++ s.references) := by
        rw [Graph.addStatement_def, Graph.nodes_foldl_addJoin]
        exact nodes_foldl_mention hg s.references
      have hedges : (g.addStatement s).edges = g.edges ++ edgesOf s.joins := by
        rw [Graph.addStatement_def, edges_foldl_addJoin, Graph.edges_foldl_mention]
      obtain ⟨hrest, hmore⟩ := ih hnodes
      constructor
      · rw [List.foldl_cons, hrest, List.flatMap_cons, List.append_assoc]
      · rw [List.foldl_cons, hmore, hedges, List.flatMap_cons, List.append_assoc]

end Chains

/-! ## Texts -/

/-- Lines that are written as chains, and these chains with the numbers of their lines. -/
def Says (lines : List (Nat × List Char)) (said : List (Nat × Statement)) : Prop :=
  List.Forall₂ (fun line s => line.1 = s.1 ∧ s.2.Written line.2 ∧ s.2.LabelsFree) lines said

/-- A graph that chains tell of, and what is noticed at the same time. -/
structure Tells (said : List (Nat × Statement)) (g : Graph) (notices : List Notice) : Prop where
  /-- Each id is a node where it is mentioned first. -/
  ids : g.ids = ((said.flatMap (·.2.references)).map (·.id)).eraseDups
  /-- The last label counts, and none is empty. -/
  labels : ∀ n ∈ g.nodes, n.label = lastLabel (said.flatMap (·.2.references)) n.id ∧ n.label ≠ []
  /-- Operators between different nodes are edges. -/
  edges : g.edges = said.flatMap fun s => edgesOf s.2.joins
  /-- All other operators are noticed. -/
  notices : notices = said.flatMap fun s =>
    (s.2.joins.filter fun join => join.2.1 = join.2.2).map fun join => .selfLoop s.1 join.2.1
  /-- Edges join two different nodes of the graph. -/
  ends : ∀ e ∈ g.edges, e.source ≠ e.target ∧ e.source ∈ g.ids ∧ e.target ∈ g.ids

/-- A graph whose nodes are all found when it is laid out, whatever the engine: the ends of its
edges among its nodes, a box for each node, and the boxes at both ends of each edge. -/
structure Found (g : Graph) : Prop where
  vertices : g.indexedEdges.map (Prod.map some some) =
    g.edges.map fun e => (g.indexOf? e.source, g.indexOf? e.target)
  boxes : ∀ {α : Type} [Scalar α] (engine : Engine α) l, (layoutWith engine g).result = .ok l →
    l.boxes.map (·.id) = g.ids
  ways : ∀ {α : Type} [Scalar α] (engine : Engine α) l, (layoutWith engine g).result = .ok l →
    l.edges.map (fun e => (e.source, e.target, e.arrow)) =
      g.edges.map fun e => (e.source, e.target, e.arrow)

section Texts

variable {lines : List (Nat × List Char)} {said : List (Nat × Statement)} {g : Graph}

theorem exists_says (h : ∀ line ∈ lines, ∃ s, Statement.parse line.2 = .ok s) :
    ∃ said, Says lines said := by
  induction lines with
  | nil => exact ⟨[], .nil⟩
  | cons line rest ih =>
      obtain ⟨⟨s, hs⟩, hrest⟩ := List.forall_mem_cons.1 h
      obtain ⟨said, hsaid⟩ := ih hrest
      exact ⟨(line.1, s) :: said, .cons ⟨rfl, Statement.parse_eq_ok_iff.1 hs⟩ hsaid⟩

/-- Lines say one thing only. -/
theorem Says.unique {other : List (Nat × Statement)} (h : Says lines said)
    (hother : Says lines other) : other = said := by
  induction h generalizing other with
  | nil =>
      cases hother
      rfl
  | @cons line s lines said hline _ ih =>
      obtain ⟨s', other, ⟨hnumber', hwritten'⟩, hrest, rfl⟩ := List.forall₂_cons_left_iff.1 hother
      obtain ⟨hnumber, hwritten⟩ := hline
      have hparse := (Statement.parse_eq_ok_iff.2 hwritten').symm.trans
        (Statement.parse_eq_ok_iff.2 hwritten)
      rw [ih hrest, Prod.ext (hnumber'.symm.trans hnumber) (Except.ok.inj hparse)]

/-- Chains are added line after line, and what is noticed is kept. -/
theorem addLines_of_says (h : Says lines said) (g : Graph) :
    addLines g lines = ⟨said.flatMap fun s => s.2.selfLoops s.1,
      .ok ((said.map (·.2)).foldl Graph.addStatement g)⟩ := by
  induction h generalizing g with
  | nil => rfl
  | @cons line s lines said hline _ ih =>
      obtain ⟨hnumber, hwritten⟩ := hline
      rw [addLines, Statement.parse_eq_ok_iff.2 hwritten, hnumber]
      dsimp only
      rw [ih (g.addStatement s.2)]
      rfl

theorem Reference.Written.id_ne_nil {r : Reference} {cs : List Char} (h : r.Written cs) :
    r.id ≠ [] := by
  cases h with
  | bare hne _ => exact hne
  | labelled hne _ _ => exact hne

/-- A node that is mentioned has an id. -/
theorem Says.id_ne_nil (h : Says lines said) {r : Reference}
    (hr : r ∈ said.flatMap (·.2.references)) : r.id ≠ [] := by
  induction h with
  | nil => cases hr
  | @cons line s lines said hline _ ih =>
      rw [List.flatMap_cons, List.mem_append] at hr
      rcases hr with hr | hr
      · obtain ⟨piece, hpiece, -⟩ := hline.2.1.exists_piece hr
        exact hpiece.id_ne_nil
      · exact ih hr

theorem source_ne_target_of_mem_edgesOf {joins : List (Operator × Id × Id)} {e : Edge}
    (h : e ∈ edgesOf joins) : e.source ≠ e.target := by
  obtain ⟨⟨op, left, right⟩, hjoin, rfl⟩ := List.mem_map.1 h
  have hne : left ≠ right := of_decide_eq_true (List.mem_filter.1 hjoin).2
  cases op
  · exact hne
  · exact hne.symm
  · exact hne
  · exact hne

/-- The graph of lines that say something. -/
theorem Says.tells (h : Says lines said) :
    Tells said ((said.map (·.2)).foldl Graph.addStatement {})
      (said.flatMap fun s => s.2.selfLoops s.1) := by
  generalize hg : (said.map (·.2)).foldl Graph.addStatement {} = g
  have hclosed : g.Closed := by
    rw [← hg]
    exact Graph.closed_foldl _ fun e he => by cases he
  have hempty : ({} : Graph).nodes = nodesOf [] := rfl
  obtain ⟨hnodes, hedges⟩ := foldl_addStatement hempty (said.map (·.2))
  rw [hg, List.nil_append, List.flatMap_map] at hnodes
  rw [hg, List.nil_append, List.flatMap_map] at hedges
  have hids : g.ids = ((said.flatMap (·.2.references)).map (·.id)).eraseDups := by
    rw [Graph.ids, hnodes, nodesOf, List.map_map]
    exact List.map_id' _
  have hlabels : ∀ n ∈ g.nodes,
      n.label = lastLabel (said.flatMap (·.2.references)) n.id ∧ n.label ≠ [] := by
    intro n hn
    rw [hnodes] at hn
    obtain ⟨id, hid, rfl⟩ := List.mem_map.1 hn
    obtain ⟨r, hr, rfl⟩ := List.mem_map.1 (List.mem_eraseDups.1 hid)
    exact ⟨rfl, lastLabel_ne_nil (h.id_ne_nil hr)⟩
  have hends : ∀ e ∈ g.edges, e.source ≠ e.target ∧ e.source ∈ g.ids ∧ e.target ∈ g.ids := by
    intro e he
    refine ⟨?_, hclosed e he⟩
    rw [hedges] at he
    obtain ⟨s, -, he⟩ := List.mem_flatMap.1 he
    exact source_ne_target_of_mem_edgesOf he
  refine ⟨hids, hlabels, hedges, ?_, hends⟩
  refine List.flatMap_congr ?_
  intro s _
  simp only [Statement.selfLoops, Bool.beq_eq_decide_eq]

/-- Each node has a box where the engine draws the graph. -/
theorem Graph.Drawn.map_id_boxesOf {drawn : List (Component × List Cell)} (D : g.Drawn drawn) :
    (g.boxesOf drawn).map (·.id) = g.ids := by
  obtain ⟨spot, -, hspot⟩ := D.exists_boxesOf_eq
  have hids := congrArg (List.map (·.1)) (Graph.map_boxesAt (g := g) spot)
  rw [List.map_map, List.map_map] at hids
  rw [hspot]
  exact hids

/-- Where edges lead between nodes of the graph, a layout finds both ends of each. -/
theorem Graph.Closed.found (h : g.Closed) : Found g := by
  refine ⟨?_, fun engine l hl => ?_, fun engine l hl => ?_⟩
  · rw [Graph.indexedEdges, List.map_filterMap, ← List.filterMap_eq_map]
    refine List.filterMap_congr ?_
    intro e he
    obtain ⟨i, hi⟩ := Graph.isSome_indexOf? (h e he).1
    obtain ⟨j, hj⟩ := Graph.isSome_indexOf? (h e he).2
    simp [hi, hj]
  · obtain ⟨drawn, hdrawn, rfl⟩ := exists_drawnBy hl
    exact (Graph.drawn_of_drawnBy hdrawn).map_id_boxesOf
  · obtain ⟨drawn, hdrawn, rfl⟩ := exists_drawnBy hl
    have hboxes := (Graph.drawn_of_drawnBy hdrawn).map_id_boxesOf
    have hbox : ∀ id ∈ g.ids, ∃ b, (g.boxesOf drawn).find? (·.id == id) = some b := by
      intro id hid
      rw [← hboxes] at hid
      obtain ⟨b, hb, rfl⟩ := List.mem_map.1 hid
      exact Option.isSome_iff_exists.1 (List.find?_isSome.2 ⟨b, hb, beq_self_eq_true _⟩)
    rw [Graph.layoutOf]
    dsimp only
    rw [List.map_map, List.map_filterMap, ← List.filterMap_eq_map]
    refine List.filterMap_congr ?_
    intro e he
    obtain ⟨b, hb⟩ := hbox e.source (h e he).1
    obtain ⟨c, hc⟩ := hbox e.target (h e he).2
    simp [routeEdge, hb, hc]

theorem parse_of_addLines {text : List Char} {notices : List Notice} {g' : Graph}
    (hlines : addLines {} (numberedLines text) = ⟨notices, .ok g'⟩)
    (h : (parse text).result = .ok g) : g' = g ∧ (parse text).notices = notices := by
  rw [parse_def, hlines, Report.bind] at h ⊢
  dsimp only at h ⊢
  split at h
  · cases h
  · rename_i hnodes
    rw [if_neg hnodes]
    exact ⟨Except.ok.inj h, List.append_nil notices⟩

/-- The graph of a text is the one that its chains tell of. -/
theorem parse_tells {text : List Char} (h : (parse text).result = .ok g) :
    ∃ said, (∀ other, Says (numberedLines text) other ↔ other = said) ∧
      Tells said g (parse text).notices ∧ Found g := by
  obtain ⟨said, hsaid⟩ := exists_says ((accepts_reads text).ok.1 ⟨g, h⟩).2
  have htells := hsaid.tells
  have hlines := addLines_of_says hsaid {}
  obtain ⟨hg, hnotices⟩ := parse_of_addLines hlines h
  rw [hg] at htells
  rw [hnotices]
  refine ⟨said, fun other => ⟨hsaid.unique, ?_⟩, htells, ?_⟩
  · rintro rfl
    exact hsaid
  · exact Graph.Closed.found fun e he => (htells.ends e he).2

end Texts

/-- Two boxes, of which one is called by the last label that it is given, even after an edge that
leads to it. -/
def relabelled : Graph where
  nodes := [⟨['a'], ['a']⟩, ⟨['b'], ['y', ' ', 'z']⟩, ⟨['c'], ['c']⟩]
  edges := [⟨['a'], ['b'], .forward⟩, ⟨['c'], ['b'], .forward⟩]

theorem relabelled_tells :
    (parse "a -> a -> b[x]\nb <- c[]\nb[y z]".toList).result = .ok relabelled ∧
    (parse "a -> a -> b[x]\nb <- c[]\nb[y z]".toList).notices = [.selfLoop 1 ['a']] ∧
    ∃ said, (∀ other, Says (numberedLines "a -> a -> b[x]\nb <- c[]\nb[y z]".toList) other ↔
        other = said) ∧
      Tells said relabelled (parse "a -> a -> b[x]\nb <- c[]\nb[y z]".toList).notices ∧
      Found relabelled := by
  have hparse : (parse "a -> a -> b[x]\nb <- c[]\nb[y z]".toList).result = .ok relabelled := by
    decide +kernel
  exact ⟨hparse, by decide +kernel, parse_tells hparse⟩

end Flow
end CellSketch
