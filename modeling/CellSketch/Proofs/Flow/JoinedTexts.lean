import CellSketch.Proofs.Flow.Beside
import CellSketch.Proofs.Flow.RoundTrip
import CellSketch.Proofs.Text.LineBreaks

/-!
# JoinedTexts — flow texts one after the other

Two flow texts with a line feed in between have the lines of both, and so the statements of both.
If they mention no common node, the second text leaves alone what the first one built: their graphs
stand beside each other, and so do their boxes.

* `sayings_append` — the lines of both texts;
* `result_parse_eq_ok_iff` — a graph is put together from statements;
* `Graph.foldl_beside` — statements about other nodes leave a graph as it is;
* `parse_beside` — the graph of both texts;
* `layout_beside` — the boxes of both texts, which do not move each other.
-/

namespace CellSketch

namespace Flow

open Number

/-! ## Lines -/

/-- The lines that say something. -/
def sayings (text : List Char) : List (List Char) :=
  (Text.lines text).filterMap fun raw =>
    let line := Text.strip (stripComment raw)
    if line.isEmpty then none else some line

theorem map_snd_numberedLines (text : List Char) :
    (numberedLines text).map Prod.snd = sayings text := by
  have hfst := (List.zipIdx_map_fst 0 (Text.lines text)).symm
  rw [numberedLines, sayings, List.map_filterMap]
  nth_rewrite 2 [hfst]
  rw [List.filterMap_map]
  refine List.filterMap_congr fun entry _ => ?_
  dsimp only [Function.comp_apply]
  split <;> rfl

/-- The lines of two texts, with a line feed in between. -/
theorem sayings_append (first second : List Char) :
    sayings (first ++ '\n' :: second) = sayings first ++ sayings second := by
  obtain ⟨between, hbetween, heq⟩ := Text.lines_append_newline first second
  rw [sayings, heq, List.filterMap_append, List.filterMap_append, ← sayings, ← sayings]
  rcases hbetween with rfl | rfl
  · rw [List.filterMap_nil, List.append_nil]
  · rw [show [([] : List Char)].filterMap _ = [] from rfl, List.append_nil]

/-- Lines that are read as statements. -/
def Reads (lines : List (List Char)) (statements : List Statement) : Prop :=
  List.Forall₂ (fun line s => Statement.parse line = .ok s) lines statements

theorem result_addLines_eq_ok_iff {lines : List (Nat × List Char)} {g g' : Graph} :
    (addLines g lines).result = .ok g' ↔
      ∃ statements, Reads (lines.map Prod.snd) statements ∧
        statements.foldl Graph.addStatement g = g' := by
  induction lines generalizing g with
  | nil =>
      constructor
      · rintro ⟨⟩
        exact ⟨[], .nil, rfl⟩
      · rintro ⟨_, ⟨⟩, rfl⟩
        rfl
  | cons entry rest ih =>
      rw [addLines]
      cases hline : Statement.parse entry.2 with
      | error token =>
          constructor
          · rintro ⟨⟩
          · rintro ⟨_, hreads, -⟩
            rw [List.map_cons, Reads, List.forall₂_cons_left_iff] at hreads
            obtain ⟨s, _, hs, -⟩ := hreads
            rw [hline] at hs
            cases hs
      | ok s =>
          refine (ih (g := g.addStatement s)).trans ⟨?_, ?_⟩
          · rintro ⟨statements, hreads, heq⟩
            exact ⟨s :: statements, .cons hline hreads, heq⟩
          · rintro ⟨_, hreads, heq⟩
            rw [List.map_cons, Reads, List.forall₂_cons_left_iff] at hreads
            obtain ⟨s', statements, hs', hreads, rfl⟩ := hreads
            obtain rfl : s = s' := Except.ok.inj (hline.symm.trans hs')
            exact ⟨statements, hreads, heq⟩

theorem foldl_addStatement_nodes_eq_nil_iff {statements : List Statement} {g : Graph} :
    (statements.foldl Graph.addStatement g).nodes = [] ↔ statements = [] ∧ g.nodes = [] := by
  induction statements generalizing g with
  | nil => simp
  | cons s rest ih =>
      rw [List.foldl_cons, ih]
      simp [g.nodes_addStatement_ne_nil s]

/-- A text is read when all of its lines are and there is one. -/
theorem result_parse_eq_ok_iff {text : List Char} {g : Graph} :
    (parse text).result = .ok g ↔
      ∃ statements, Reads (sayings text) statements ∧ statements ≠ [] ∧
        statements.foldl Graph.addStatement {} = g := by
  have hadd := @result_addLines_eq_ok_iff (numberedLines text) {}
  simp only [map_snd_numberedLines] at hadd
  constructor
  · intro h
    obtain ⟨g', hlines, h⟩ := Report.exists_of_result_bind h
    obtain ⟨statements, hreads, rfl⟩ := hadd.1 hlines
    split at h
    · cases h
    · rename_i hne
      cases h
      refine ⟨statements, hreads, ?_, rfl⟩
      rintro rfl
      exact hne rfl
  · rintro ⟨statements, hreads, hne, rfl⟩
    rw [parse, Report.result_bind (hadd.2 ⟨statements, hreads, rfl⟩), if_neg]
    · rfl
    · rw [List.isEmpty_iff, foldl_addStatement_nodes_eq_nil_iff]
      exact fun h => hne h.1

/-! ## Statements -/

namespace Graph

variable {g h : Graph} {s : Statement}

theorem hasNode_iff_mem_ids {id : Id} : g.hasNode id = true ↔ id ∈ g.ids :=
  hasNode_eq_true_iff.trans List.mem_map.symm

theorem ids_mention (g : Graph) (id label : List Char) :
    (g.mention id label).ids = if id ∈ g.ids then g.ids else g.ids ++ [id] := by
  rw [mention]
  split
  · rename_i hnode
    rw [if_pos (hasNode_iff_mem_ids.1 hnode)]
    split
    · rfl
    · rw [ids, List.map_map]
      refine List.map_congr_left fun n _ => ?_
      rw [Function.comp_apply]
      split <;> rfl
  · rename_i hnode
    rw [if_neg (hasNode_iff_mem_ids.not.1 hnode), ids, List.map_append]
    rfl

theorem mem_ids_mention {id label x : List Char} :
    x ∈ (g.mention id label).ids ↔ x ∈ g.ids ∨ x = id := by
  rw [ids_mention]
  split
  · rename_i hid
    exact ⟨.inl, fun h => h.elim (fun hx => hx) fun hx => hx ▸ hid⟩
  · rw [List.mem_append, List.mem_singleton]

theorem mem_ids_foldl_mention {references : List Reference} {x : Id} :
    x ∈ (references.foldl (fun g r => g.mention r.id r.label) g).ids ↔
      x ∈ g.ids ∨ ∃ r ∈ references, x = r.id := by
  induction references generalizing g with
  | nil => simp
  | cons r rest ih =>
      rw [List.foldl_cons, ih, mem_ids_mention, List.exists_mem_cons_iff, or_assoc]

/-- The graph with one more join of a statement. -/
def addJoin (g : Graph) (join : Operator × Id × Id) : Graph :=
  if join.2.1 = join.2.2 then g else g.addEdge (join.1.edge join.2.1 join.2.2)

theorem addStatement_def (g : Graph) (s : Statement) : g.addStatement s =
    s.joins.foldl addJoin (s.references.foldl (fun g r => g.mention r.id r.label) g) := rfl

theorem nodes_foldl_addJoin (g : Graph) (joins : List (Operator × Id × Id)) :
    (joins.foldl addJoin g).nodes = g.nodes := by
  refine List.foldlRecOn joins addJoin (motive := fun g' => g'.nodes = g.nodes) rfl
    fun g' hg' join _ => ?_
  rw [addJoin]
  split <;> exact hg'

/-- A statement brings in the nodes of its chain. -/
theorem mem_ids_addStatement {x : Id} :
    x ∈ (g.addStatement s).ids ↔ x ∈ g.ids ∨ ∃ r ∈ s.references, x = r.id := by
  rw [addStatement_def, ids, nodes_foldl_addJoin, ← ids, mem_ids_foldl_mention]

theorem mem_references_of_mem_joins {join : Operator × Id × Id} (h : join ∈ s.joins) :
    (∃ r ∈ s.references, join.2.1 = r.id) ∧ ∃ r ∈ s.references, join.2.2 = r.id := by
  obtain ⟨⟨⟨op, right⟩, left⟩, hzip, rfl⟩ := List.mem_map.1 h
  obtain ⟨hlink, hleft⟩ := List.of_mem_zip hzip
  obtain ⟨r, hr, rfl⟩ := List.mem_map.1 hleft
  exact ⟨⟨r, hr, rfl⟩, right, List.mem_cons_of_mem _ (List.mem_map_of_mem hlink), rfl⟩

theorem edges_mention (g : Graph) (id label : List Char) :
    (g.mention id label).edges = g.edges := by
  rw [mention]
  split
  · split <;> rfl
  · rfl

theorem edges_foldl_mention (g : Graph) (references : List Reference) :
    (references.foldl (fun g r => g.mention r.id r.label) g).edges = g.edges :=
  List.foldlRecOn references _ (motive := fun g' => g'.edges = g.edges) rfl fun g' hg' r _ =>
    (edges_mention g' r.id r.label).trans hg'

/-- A statement adds edges between nodes of its chain. -/
theorem Closed.addStatement (hg : g.Closed) (s : Statement) : (g.addStatement s).Closed := by
  have hids : ∀ e ∈ (g.addStatement s).edges, e ∈ g.edges ∨
      (∃ r ∈ s.references, e.source = r.id) ∧ ∃ r ∈ s.references, e.target = r.id := by
    rw [addStatement_def]
    refine List.foldlRecOn s.joins addJoin (motive := fun g' => ∀ e ∈ g'.edges, e ∈ g.edges ∨
      (∃ r ∈ s.references, e.source = r.id) ∧ ∃ r ∈ s.references, e.target = r.id) ?_ ?_
    · rw [edges_foldl_mention]
      exact fun e he => .inl he
    · intro g' hg' join hjoin e he
      obtain ⟨hleft, hright⟩ := mem_references_of_mem_joins hjoin
      rw [addJoin] at he
      split at he
      · exact hg' e he
      · rcases List.mem_append.1 he with he | he
        · exact hg' e he
        · rw [List.mem_singleton.1 he]
          cases join.1
          · exact .inr ⟨hleft, hright⟩
          · exact .inr ⟨hright, hleft⟩
          · exact .inr ⟨hleft, hright⟩
          · exact .inr ⟨hleft, hright⟩
  intro e he
  rw [mem_ids_addStatement, mem_ids_addStatement]
  rcases hids e he with he | ⟨hsource, htarget⟩
  · exact ⟨.inl (hg e he).1, .inl (hg e he).2⟩
  · exact ⟨.inr hsource, .inr htarget⟩

/-- A mention of another node leaves the first of two graphs as it is. -/
theorem beside_mention {id label : List Char} (hid : id ∉ g.ids) :
    (g.beside h).mention id label = g.beside (h.mention id label) := by
  have hne : ∀ n ∈ g.nodes, ¬ (n.id == id) = true := fun n hn heq =>
    hid (List.mem_map.2 ⟨n, hn, beq_iff_eq.1 heq⟩)
  have hnode : (g.beside h).hasNode id = h.hasNode id := by
    rw [hasNode, beside, List.any_append, List.any_eq_false.2 hne, Bool.false_or, hasNode]
  rw [mention, mention, hnode]
  split
  · split
    · rfl
    · rw [beside, beside, List.map_append, List.map_congr_left fun n hn => if_neg (hne n hn),
        List.map_id']
  · rw [beside, beside, List.append_assoc]

theorem beside_foldl_mention {references : List Reference} (hs : ∀ r ∈ references, r.id ∉ g.ids) :
    references.foldl (fun g r => g.mention r.id r.label) (g.beside h) =
      g.beside (references.foldl (fun g r => g.mention r.id r.label) h) := by
  induction references generalizing h with
  | nil => rfl
  | cons r rest ih =>
      rw [List.foldl_cons, List.foldl_cons, beside_mention (hs r List.mem_cons_self),
        ih fun r hr => hs r (List.mem_cons_of_mem _ hr)]

theorem beside_addJoin (join : Operator × Id × Id) :
    (g.beside h).addJoin join = g.beside (h.addJoin join) := by
  rw [addJoin, addJoin]
  split
  · rfl
  · simp only [addEdge, beside, List.append_assoc]

theorem beside_addStatement (hs : ∀ r ∈ s.references, r.id ∉ g.ids) :
    (g.beside h).addStatement s = g.beside (h.addStatement s) := by
  rw [addStatement_def, addStatement_def, beside_foldl_mention hs]
  exact List.foldl_hom g.beside fun h join => beside_addJoin join

theorem subset_ids_foldl (statements : List Statement) (g : Graph) :
    g.ids ⊆ (statements.foldl addStatement g).ids :=
  List.foldlRecOn statements addStatement (motive := fun g' => g.ids ⊆ g'.ids) (List.Subset.refl _)
    fun _ hg' _ _ _ hid => mem_ids_addStatement.2 (.inl (hg' hid))

/-- Statements about other nodes leave the first of two graphs as it is. -/
theorem foldl_beside {statements : List Statement}
    (hapart : ∀ id ∈ (statements.foldl addStatement h).ids, id ∉ g.ids) :
    statements.foldl addStatement (g.beside h) = g.beside (statements.foldl addStatement h) := by
  induction statements generalizing h with
  | nil => rfl
  | cons s rest ih =>
      rw [List.foldl_cons] at hapart
      have hs : ∀ r ∈ s.references, r.id ∉ g.ids := fun r hr =>
        hapart r.id (subset_ids_foldl rest _ (mem_ids_addStatement.2 (.inr ⟨r, hr, rfl⟩)))
      rw [List.foldl_cons, List.foldl_cons, beside_addStatement hs, ih hapart]

theorem beside_empty (g : Graph) : g.beside {} = g := by
  rw [beside, List.append_nil, List.append_nil]

theorem closed_foldl (statements : List Statement) {g : Graph} (hg : g.Closed) :
    (statements.foldl addStatement g).Closed :=
  List.foldlRecOn statements addStatement (motive := Closed) hg fun _ hg' s _ => hg'.addStatement s

end Graph

/-! ## Texts -/

/-- Two texts without a common node, with a line feed in between, are read as both graphs beside
each other. -/
theorem parse_beside {first second : List Char} {g h : Graph} (hg : (parse first).result = .ok g)
    (hh : (parse second).result = .ok h) (hapart : ∀ id ∈ h.ids, id ∉ g.ids) :
    (parse (first ++ '\n' :: second)).result = .ok (g.beside h) ∧ g.Separate h ∧ g.nodes ≠ [] := by
  obtain ⟨statements, hreads, hne, rfl⟩ := result_parse_eq_ok_iff.1 hg
  obtain ⟨others, hothers, -, rfl⟩ := result_parse_eq_ok_iff.1 hh
  have hempty : Graph.Closed {} := fun e he => by cases he
  refine ⟨?_, ⟨Graph.closed_foldl _ hempty, Graph.closed_foldl _ hempty, hapart⟩, ?_⟩
  · rw [result_parse_eq_ok_iff, sayings_append]
    refine ⟨statements ++ others, List.rel_append hreads hothers, by simp [hne], ?_⟩
    rw [List.foldl_append, ← Graph.foldl_beside hapart, Graph.beside_empty]
  · rw [Ne, foldl_addStatement_nodes_eq_nil_iff]
    exact fun h => hne h.1

/-- Two flow texts without a common node do not move each other: put together with a line feed in
between, the boxes of the first stand where they stood, and those of the second one are moved past
all of them, by the free columns between components.  What is known of the engine is that it puts
components together edge by edge, and draws each by itself. -/
theorem layout_beside {α : Type} [Scalar α] (engine : Engine α)
    (hjoined : engine.components = joined) {first second : List Char} {g h : Graph} {l m : Layout}
    (hg : (parse first).result = .ok g) (hh : (parse second).result = .ok h)
    (hl : (layoutWith engine g).result = .ok l) (hm : (layoutWith engine h).result = .ok m)
    (hapart : ∀ n ∈ g.nodes, ∀ m ∈ h.nodes, n.id ≠ m.id) :
    ∃ both whole right, (parse (first ++ '\n' :: second)).result = .ok both ∧
      (layoutWith engine both).result = .ok whole ∧
      IsGreatest {x | ∃ b ∈ l.boxes, b.x + b.width = x} right ∧
      whole.boxes = l.boxes ++ m.boxes.map (Box.moveRight (right + componentSpacing)) := by
  have hids : ∀ id ∈ h.ids, id ∉ g.ids := by
    intro id hid hid'
    obtain ⟨m, hm, rfl⟩ := List.mem_map.1 hid
    obtain ⟨n, hn, heq⟩ := List.mem_map.1 hid'
    exact hapart n hn m hm heq
  obtain ⟨hboth, S, hne⟩ := parse_beside hg hh hids
  obtain ⟨drawn, hdrawn, rfl⟩ := exists_drawnBy hl
  obtain ⟨others, hothers, rfl⟩ := exists_drawnBy hm
  have D := Graph.drawn_of_drawnBy hdrawn
  refine ⟨g.beside h, ((g.beside h).layoutOf (g.drawnBeside drawn others)).1,
    g.leftAfter drawn - componentSpacing, hboth, ?_, Graph.isGreatest_leftAfter D hne, ?_⟩
  · exact result_of_drawnBy (S.drawnBy hjoined hdrawn hothers)
  · rw [sub_add_cancel]
    exact S.boxesOf D others

/-- A box over another one. -/
def upright : Graph where
  nodes := [⟨['a'], ['a']⟩, ⟨['b'], ['b']⟩]
  edges := [⟨['a'], ['b'], .forward⟩]

/-- A box by itself that is mentioned between two others. -/
def parted : Graph where
  nodes := [⟨['c'], ['c']⟩, ⟨['d'], ['d', ' ', 'e']⟩, ⟨['f'], ['f']⟩]
  edges := [⟨['f'], ['c'], .headless⟩]

theorem upright_beside_parted :
    forkEngine.components = joined ∧ (parse "a -> b".toList).result = .ok upright ∧
    (parse "c\nd[d e]\nf -- c".toList).result = .ok parted ∧
    ∃ l m both whole right, (layoutWith forkEngine upright).result = .ok l ∧
      (layoutWith forkEngine parted).result = .ok m ∧
      (parse "a -> b\nc\nd[d e]\nf -- c".toList).result = .ok both ∧
      (layoutWith forkEngine both).result = .ok whole ∧
      IsGreatest {x | ∃ b ∈ l.boxes, b.x + b.width = x} right ∧
      whole.boxes = l.boxes ++ m.boxes.map (Box.moveRight (right + componentSpacing)) ∧
      whole.boxes.map (fun b => (b.x, b.y, b.width)) =
        [(0, 0, 3), (0, 6, 3), (16, 6, 3), (7, 0, 5), (16, 0, 3)] := by
  have hfirst : (parse "a -> b".toList).result = .ok upright := by decide +kernel
  have hsecond : (parse "c\nd[d e]\nf -- c".toList).result = .ok parted := by decide +kernel
  have hdrawn : upright.drawnBy forkEngine = .ok [([0, 1], [⟨-2, 0⟩, ⟨-2, 6⟩])] := by
    decide +kernel
  have hothers : parted.drawnBy forkEngine =
      .ok [([1], [⟨0, 0⟩]), ([2, 0], [⟨-2, 0⟩, ⟨-2, 6⟩])] := by
    decide +kernel
  have hapart : ∀ n ∈ upright.nodes, ∀ m ∈ parted.nodes, n.id ≠ m.id := by decide
  have hl := result_of_drawnBy hdrawn
  have hm := result_of_drawnBy hothers
  obtain ⟨both, whole, right, hboth, hwhole, hright, hboxes⟩ :=
    layout_beside forkEngine rfl hfirst hsecond hl hm hapart
  have hplaces : (parse "a -> b\nc\nd[d e]\nf -- c".toList).result.toOption.bind (fun g =>
      (g.drawnBy forkEngine).toOption.map fun drawn =>
        (g.boxesOf drawn).map fun b => (b.x, b.y, b.width)) =
      some [(0, 0, 3), (0, 6, 3), (16, 6, 3), (7, 0, 5), (16, 0, 3)] := by
    decide +kernel
  obtain ⟨all, hall, rfl⟩ := exists_drawnBy hwhole
  have hparsed : (parse "a -> b\nc\nd[d e]\nf -- c".toList).result = .ok both := hboth
  rw [hparsed, Except.toOption, Option.bind_some, hall] at hplaces
  exact ⟨rfl, hfirst, hsecond, _, _, both, _, right, hl, hm, hboth, hwhole, hright, hboxes,
    Option.some.inj hplaces⟩

end Flow
end CellSketch
