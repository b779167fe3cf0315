import Mathlib.Tactic.MkIffOfInductiveProp
import CellSketch.Proofs.Flow.Acceptance
import CellSketch.Proofs.Listing.Rows

/-!
# RoundTrip — a flow graph is read back from its text

A graph is written with a line for each node, `id[label]`, and then a line for each edge,
`source -> target`.  A label may hold nearly anything: comment signs, heads, dashes and blanks.  No
comment, no operator and no other label is seen inside it, and so the text is read as the graph that
it was written for.

* `Graph.text` — a graph as it is written;
* `Graph.Writable` — the graphs that can be written so;
* `Node.written`, `Edge.written` — their lines are chains of nodes;
* `numberedLines_joinWith` — no part of such lines is dropped as a comment or a blank;
* `foldl_nodes`, `foldl_edges` — line by line the graph is built again;
* `parse_text` — reading the text of a graph gives the graph, and nothing to notice.
-/

namespace CellSketch
namespace Flow

/-! ## Writing -/

namespace Node

/-- The line that declares a node. -/
def line (n : Node) : List Char := n.id ++ '[' :: (n.label ++ [']'])

/-- What that line says. -/
def statement (n : Node) : Statement := ⟨⟨n.id, n.label⟩, []⟩

end Node

namespace Edge

/-- The operator between the two ends of an edge. -/
def operator (e : Edge) : Operator :=
  if e.arrow = .both then .both else if e.arrow = .forward then .forward else .plain

/-- The line that joins two nodes. -/
def line (e : Edge) : List Char :=
  e.source ++ ([' '] ++ (e.operator.spelling ++ ([' '] ++ e.target)))

/-- What that line says. -/
def statement (e : Edge) : Statement := ⟨⟨e.source, []⟩, [(e.operator, ⟨e.target, []⟩)]⟩

end Edge

namespace Graph

/-- The lines of a graph: its nodes, then its edges. -/
def lines (g : Graph) : List (List Char) := g.nodes.map Node.line ++ g.edges.map Edge.line

/-- A graph as a flow text. -/
def text (g : Graph) : List Char := Text.joinWith ['\n'] g.lines

/-- What the lines of a graph say. -/
def statements (g : Graph) : List Statement :=
  g.nodes.map Node.statement ++ g.edges.map Edge.statement

end Graph

/-- A node whose id is a word, and whose label has no bracket, no break and no operator. -/
@[mk_iff]
structure Node.Writable (n : Node) : Prop where
  id_ne_nil : n.id ≠ []
  id_word : ∀ c ∈ n.id, isIdChar c = true
  label_ne_nil : n.label ≠ []
  label_chars : ∀ c ∈ n.label, c ≠ '[' ∧ c ≠ ']' ∧ Text.isLineBreak c = false
  label_free : ∀ op ∈ [['-', '>'], ['<', '-'], ['-', '-']], ¬ op <:+: n.label

/-- An edge between two of the nodes, with no head, with one at its end or with both. -/
@[mk_iff]
structure Edge.Writable (nodes : List Node) (e : Edge) : Prop where
  source_ne_target : e.source ≠ e.target
  source_mem : ∃ n ∈ nodes, n.id = e.source
  target_mem : ∃ n ∈ nodes, n.id = e.target
  arrow : e.arrow = .headless ∨ e.arrow = .forward ∨ e.arrow = .both

/-- A graph that can be written as a text. -/
@[mk_iff]
structure Graph.Writable (g : Graph) : Prop where
  nodes_ne_nil : g.nodes ≠ []
  nodup : (g.nodes.map Node.id).Nodup
  nodes : ∀ n ∈ g.nodes, n.Writable
  edges : ∀ e ∈ g.edges, e.Writable g.nodes

instance : DecidablePred Node.Writable := fun n => decidable_of_iff' _ (Node.writable_iff n)

instance (nodes : List Node) : DecidablePred (Edge.Writable nodes) := fun e =>
  decidable_of_iff' _ (Edge.writable_iff nodes e)

instance : DecidablePred Graph.Writable := fun g => decidable_of_iff' _ (Graph.writable_iff g)

/-! ## Lines as chains -/

theorem Node.Writable.operatorFree {n : Node} (h : n.Writable) : OperatorFree n.label := by
  intro op hop
  cases op with
  | forward => exact h.label_free _ (by decide) hop
  | backward => exact h.label_free _ (by decide) hop
  | plain => exact h.label_free _ (by decide) hop
  | both =>
    -- the head at the start of the longest operator is an operator alone
    have hlead : ['<', '-'] <:+: Operator.both.spelling := ⟨[], ['>'], rfl⟩
    exact h.label_free _ (by decide) (hlead.trans hop)

theorem Node.written {n : Node} (h : n.Writable) : n.statement.Written n.line := by
  have hlabel : ']' ∉ n.label := fun hmem => (h.label_chars _ hmem).2.1 rfl
  have hchain := Statement.Written.chain (.labelled h.id_ne_nil h.id_word hlabel) .nil
  rwa [List.append_nil] at hchain

theorem Edge.written {e : Edge} (hsource : e.source ≠ [] ∧ ∀ c ∈ e.source, isIdChar c = true)
    (htarget : e.target ≠ [] ∧ ∀ c ∈ e.target, isIdChar c = true) :
    e.statement.Written e.line := by
  have hblank : ∀ c ∈ [' '], Text.isBlank c = true := by decide
  have hlinks : LinksWritten [(e.operator, ⟨e.target, []⟩)] _ :=
    .cons hblank hblank (.bare htarget.1 htarget.2) .nil
  have hchain := Statement.Written.chain (.bare hsource.1 hsource.2) hlinks
  rwa [List.append_nil] at hchain

/-! ## Nothing is dropped -/

/-- The last character of a chain is that of a node. -/
theorem LinksWritten.exists_concat {links : List (Operator × Reference)} {tail : List Char}
    (h : LinksWritten links tail) : tail = [] ∨
      ∃ init c, tail = init ++ [c] ∧ (isIdChar c = true ∨ c = ']') := by
  induction h with
  | nil => exact Or.inl rfl
  | @cons op node links before after piece tail _ _ hnode _ ih =>
    right
    rcases ih with rfl | ⟨init, c, rfl, hc⟩
    · obtain ⟨init, c, rfl, hc⟩ := hnode.exists_concat
      exact ⟨before ++ (op.spelling ++ (after ++ init)), c, by simp, hc⟩
    · exact ⟨before ++ (op.spelling ++ (after ++ (piece ++ init))), c, by simp, hc⟩

/-- A chain has no blanks at its ends. -/
theorem Statement.Written.strip {s : Statement} {cs : List Char} (h : s.Written cs) :
    Text.strip cs = cs := by
  obtain ⟨hfirst, hlinks⟩ := h
  rename_i first links piece tail
  obtain ⟨c, rest, rfl, hc⟩ := hfirst.exists_cons
  obtain ⟨init, last, heq, hlast⟩ : ∃ init last, c :: rest ++ tail = init ++ [last] ∧
      (isIdChar last = true ∨ last = ']') := by
    rcases hlinks.exists_concat with rfl | ⟨init, last, rfl, hlast⟩
    · rw [List.append_nil]
      exact hfirst.exists_concat
    · exact ⟨c :: rest ++ init, last, by simp, hlast⟩
  have hstart : (c :: rest ++ tail).dropWhile Text.isBlank = c :: rest ++ tail := by
    rw [List.cons_append, List.dropWhile_cons, isBlank_of_isIdChar hc]
    rfl
  rw [Text.strip, hstart, heq, Text.stripEnd, List.reverse_append, List.reverse_singleton,
    List.singleton_append, List.dropWhile_cons, isBlank_of_last hlast]
  simp

theorem isBlank_of_isLineBreak {c : Char} (h : Text.isLineBreak c = true) :
    Text.isBlank c = true := by
  simp only [Text.isLineBreak, Text.isBlank, Bool.or_eq_true, Bool.and_eq_true, decide_eq_true_eq,
    beq_iff_eq] at h ⊢
  omega

theorem isLineBreak_of_isIdChar {c : Char} (h : isIdChar c = true) :
    Text.isLineBreak c = false := by
  rw [Bool.eq_false_iff]
  intro hbreak
  have hblank := isBlank_of_isIdChar h
  rw [isBlank_of_isLineBreak hbreak] at hblank
  cases hblank

/-- A text without brackets and comment signs stays, however many brackets are open. -/
theorem stripCommentAt_append {text : List Char}
    (h : ∀ c ∈ text, c ≠ '[' ∧ c ≠ ']' ∧ c ≠ '#') (depth : Nat) (rest : List Char) :
    stripCommentAt depth (text ++ rest) = text ++ stripCommentAt depth rest := by
  induction text with
  | nil => rfl
  | cons c text ih =>
    obtain ⟨hopen, hclose, hsign⟩ := h c List.mem_cons_self
    rw [List.cons_append, stripCommentAt, if_neg hopen, if_neg hclose, if_neg fun hc => hsign hc.1,
      ih fun d hd => h d (List.mem_cons_of_mem _ hd)]
    rfl

/-- In an open bracket nothing but brackets matters. -/
theorem stripCommentAt_succ_append {label : List Char} (h : ∀ c ∈ label, c ≠ '[' ∧ c ≠ ']')
    (depth : Nat) (rest : List Char) :
    stripCommentAt (depth + 1) (label ++ rest) = label ++ stripCommentAt (depth + 1) rest := by
  induction label with
  | nil => rfl
  | cons c label ih =>
    obtain ⟨hopen, hclose⟩ := h c List.mem_cons_self
    rw [List.cons_append, stripCommentAt, if_neg hopen, if_neg hclose,
      if_neg fun hc => Nat.succ_ne_zero _ hc.2, ih fun d hd => h d (List.mem_cons_of_mem _ hd)]
    rfl

theorem operatorFree_nil : OperatorFree [] := fun op hop =>
  op.spelling_ne_nil (List.infix_nil.1 hop)

/-- A line of which nothing is dropped, and what it says. -/
structure ReadsAs (line : List Char) (s : Statement) : Prop where
  unbroken : ∀ c ∈ line, Text.isLineBreak c = false
  uncommented : stripComment line = line
  written : s.Written line
  free : s.LabelsFree

theorem ReadsAs.ne_nil {line : List Char} {s : Statement} (h : ReadsAs line s) : line ≠ [] := by
  obtain ⟨hfirst, -⟩ := h.written
  obtain ⟨c, rest, rfl, -⟩ := hfirst.exists_cons
  simp

/-- The characters of a word are plain. -/
theorem plain_of_word {word : List Char} (h : ∀ c ∈ word, isIdChar c = true) :
    ∀ c ∈ word, c ≠ '[' ∧ c ≠ ']' ∧ c ≠ '#' := by
  intro c hc
  have hnot := not_mem_punctuation_of_isIdChar (h c hc)
  simp only [punctuation, List.mem_cons, List.not_mem_nil, or_false, not_or] at hnot
  exact ⟨hnot.2.2.2.1, hnot.2.2.2.2.1, hnot.2.2.2.2.2⟩

theorem Node.readsAs {n : Node} (h : n.Writable) : ReadsAs n.line n.statement where
  unbroken c hc := by
    simp only [line, List.mem_append, List.mem_cons, List.not_mem_nil, or_false] at hc
    rcases hc with hc | rfl | hc | rfl
    · exact isLineBreak_of_isIdChar (h.id_word c hc)
    · rfl
    · exact (h.label_chars c hc).2.2
    · rfl
  uncommented := by
    have hlabel : ∀ c ∈ n.label, c ≠ '[' ∧ c ≠ ']' := fun c hc =>
      ⟨(h.label_chars c hc).1, (h.label_chars c hc).2.1⟩
    rw [stripComment, line, stripCommentAt_append (plain_of_word h.id_word), stripCommentAt,
      if_pos rfl, stripCommentAt_succ_append hlabel]
    rfl
  written := Node.written h
  free r hr := by
    obtain rfl := List.mem_singleton.1 hr
    exact h.operatorFree

theorem Edge.readsAs {e : Edge} (hsource : e.source ≠ [] ∧ ∀ c ∈ e.source, isIdChar c = true)
    (htarget : e.target ≠ [] ∧ ∀ c ∈ e.target, isIdChar c = true) :
    ReadsAs e.line e.statement := by
  have hoperator : ∀ c ∈ e.operator.spelling, c ≠ '[' ∧ c ≠ ']' ∧ c ≠ '#' := by
    intro c hc
    rcases Operator.mem_of_mem_spelling hc with rfl | rfl | rfl <;> decide
  have hblank : ∀ c ∈ [' '], c ≠ '[' ∧ c ≠ ']' ∧ c ≠ '#' := by decide
  have hplain : ∀ c ∈ e.line, c ≠ '[' ∧ c ≠ ']' ∧ c ≠ '#' := by
    simp only [line, List.forall_mem_append]
    exact ⟨plain_of_word hsource.2, hblank, hoperator, hblank, plain_of_word htarget.2⟩
  have hunbroken : ∀ c ∈ e.line, Text.isLineBreak c = false := by
    simp only [line, List.forall_mem_append]
    refine ⟨fun c hc => isLineBreak_of_isIdChar (hsource.2 c hc), by decide, ?_, by decide,
      fun c hc => isLineBreak_of_isIdChar (htarget.2 c hc)⟩
    intro c hc
    rcases Operator.mem_of_mem_spelling hc with rfl | rfl | rfl <;> rfl
  refine ⟨hunbroken, ?_, Edge.written hsource htarget, fun r hr => ?_⟩
  · have hline := stripCommentAt_append hplain 0 []
    rwa [List.append_nil, stripCommentAt, List.append_nil] at hline
  · simp only [statement, Statement.references, List.map_cons, List.map_nil, List.mem_cons,
      List.not_mem_nil, or_false] at hr
    rcases hr with rfl | rfl <;> exact operatorFree_nil

/-- Lines that are read whole are the numbered lines of their text. -/
theorem numberedLines_joinWith {lines : List (List Char)} {statements : List Statement}
    (h : List.Forall₂ ReadsAs lines statements) :
    numberedLines (Text.joinWith ['\n'] lines) =
      lines.zipIdx.map fun (line, i) => (i + 1, line) := by
  have hall : ∀ line ∈ lines, ∃ s, ReadsAs line s := by
    induction h with
    | nil => simp
    | cons hline _ ih => exact List.forall_mem_cons.2 ⟨⟨_, hline⟩, ih⟩
  have hlines : Text.lines (Text.joinWith ['\n'] lines) = lines := by
    refine Text.lines_joinWith lines (fun line hline => ?_) fun hlast => ?_
    · obtain ⟨s, hs⟩ := hall line hline
      exact hs.unbroken
    · obtain ⟨s, hs⟩ := hall [] (List.mem_of_getLast? hlast)
      exact hs.ne_nil rfl
  rw [numberedLines, hlines, ← List.filterMap_eq_map]
  refine List.filterMap_congr fun ⟨line, i⟩ hmem => ?_
  obtain ⟨s, hs⟩ := hall line (List.fst_mem_of_mem_zipIdx hmem)
  dsimp only [Function.comp]
  rw [hs.uncommented, hs.written.strip, if_neg (by simpa using hs.ne_nil)]

/-- Lines without a join of a node to itself are added one after the other, and nothing is
noticed. -/
theorem addLines_of_readsAs {lines : List (List Char)} {statements : List Statement}
    (h : List.Forall₂ ReadsAs lines statements)
    (hloops : ∀ s ∈ statements, ∀ number, s.selfLoops number = []) (g : Graph) (k : Nat) :
    addLines g ((lines.zipIdx k).map fun (line, i) => (i + 1, line)) =
      .ofResult (.ok (statements.foldl Graph.addStatement g)) := by
  induction h generalizing g k with
  | nil => rfl
  | @cons line s lines statements hline _ ih =>
    rw [List.zipIdx_cons, List.map_cons, addLines, hline.written.parse hline.free]
    dsimp only
    rw [ih (fun s' hs' => hloops s' (List.mem_cons_of_mem _ hs')), hloops s List.mem_cons_self]
    rfl

/-! ## The graph again -/

theorem Graph.hasNode_eq_true_iff {g : Graph} {id : Id} :
    g.hasNode id = true ↔ ∃ n ∈ g.nodes, n.id = id := by
  rw [hasNode, List.any_eq_true]
  simp only [beq_iff_eq]

/-- A known node without a label stays as it is. -/
theorem Graph.mention_known {g : Graph} {id : Id} (h : ∃ n ∈ g.nodes, n.id = id) :
    g.mention id [] = g := by
  rw [mention, if_pos (hasNode_eq_true_iff.2 h)]
  rfl

/-- A new node comes last, with its label. -/
theorem Graph.mention_new {g : Graph} {n : Node} (h : n.id ∉ g.nodes.map Node.id)
    (hlabel : n.label ≠ []) : g.mention n.id n.label = { g with nodes := g.nodes ++ [n] } := by
  have hnone : ¬ g.hasNode n.id = true := by
    rw [hasNode_eq_true_iff]
    rintro ⟨m, hm, heq⟩
    exact h (List.mem_map.2 ⟨m, hm, heq⟩)
  rw [mention, if_neg hnone, if_neg (by simpa using hlabel)]

/-- Declared nodes are new ones, so they come in order with their labels. -/
theorem foldl_nodes {first rest : List Node} (hnodup : ((first ++ rest).map Node.id).Nodup)
    (hlabels : ∀ n ∈ rest, n.label ≠ []) :
    (rest.map Node.statement).foldl Graph.addStatement ⟨first, []⟩ = ⟨first ++ rest, []⟩ := by
  induction rest generalizing first with
  | nil => rw [List.append_nil, List.map_nil, List.foldl_nil]
  | cons n rest ih =>
    have hnew : n.id ∉ first.map Node.id := by
      rw [List.map_append, List.map_cons] at hnodup
      exact fun hmem => (List.nodup_append.1 hnodup).2.2 _ hmem _ List.mem_cons_self rfl
    have hstep : Graph.addStatement ⟨first, []⟩ n.statement = ⟨first ++ [n], []⟩ :=
      Graph.mention_new hnew (hlabels n List.mem_cons_self)
    rw [List.map_cons, List.foldl_cons, hstep, ih, List.append_assoc, List.singleton_append]
    · rwa [List.append_assoc, List.singleton_append]
    · exact fun m hm => hlabels m (List.mem_cons_of_mem _ hm)

theorem Edge.Writable.edge_operator {nodes : List Node} {e : Edge} (h : e.Writable nodes) :
    e.operator.edge e.source e.target = e := by
  obtain ⟨source, target, arrow⟩ := e
  rcases h.arrow with heq | heq | heq <;> cases heq <;> rfl

/-- The ends of an edge are known, so only the edge is added. -/
theorem addStatement_edge {g : Graph} {e : Edge} (h : e.Writable g.nodes) :
    g.addStatement e.statement = g.addEdge e := by
  have hmentioned : e.statement.references.foldl (fun g r => g.mention r.id r.label) g = g := by
    simp only [Edge.statement, Statement.references, List.map_cons, List.map_nil, List.foldl_cons,
      List.foldl_nil]
    rw [Graph.mention_known h.source_mem, Graph.mention_known h.target_mem]
  rw [Graph.addStatement, hmentioned]
  simp only [Edge.statement, Statement.joins, Statement.references, List.map_cons, List.map_nil,
    List.zip_cons_cons, List.zip_nil_left, List.foldl_cons, List.foldl_nil]
  rw [if_neg h.source_ne_target, h.edge_operator]

theorem foldl_edges (nodes : List Node) {first rest : List Edge}
    (h : ∀ e ∈ rest, e.Writable nodes) :
    (rest.map Edge.statement).foldl Graph.addStatement ⟨nodes, first⟩ = ⟨nodes, first ++ rest⟩ := by
  induction rest generalizing first with
  | nil => rw [List.append_nil, List.map_nil, List.foldl_nil]
  | cons e rest ih =>
    have hstep : Graph.addStatement ⟨nodes, first⟩ e.statement = ⟨nodes, first ++ [e]⟩ :=
      addStatement_edge (h e List.mem_cons_self)
    rw [List.map_cons, List.foldl_cons, hstep,
      ih fun e' he' => h e' (List.mem_cons_of_mem _ he'), List.append_assoc, List.singleton_append]

theorem Graph.Writable.readsAs {g : Graph} (h : g.Writable) :
    List.Forall₂ ReadsAs g.lines g.statements := by
  have hword {id : Id} (hid : ∃ n ∈ g.nodes, n.id = id) :
      id ≠ [] ∧ ∀ c ∈ id, isIdChar c = true := by
    obtain ⟨n, hn, rfl⟩ := hid
    exact ⟨(h.nodes n hn).id_ne_nil, (h.nodes n hn).id_word⟩
  refine List.rel_append ?_ ?_
  · rw [List.forall₂_map_left_iff, List.forall₂_map_right_iff, List.forall₂_same]
    exact fun n hn => Node.readsAs (h.nodes n hn)
  · rw [List.forall₂_map_left_iff, List.forall₂_map_right_iff, List.forall₂_same]
    intro e he
    have hends := h.edges e he
    exact Edge.readsAs (hword hends.source_mem) (hword hends.target_mem)

/-- Reading the text of a graph gives the same nodes with the same labels and the same edges, all in
the same order, and nothing to notice. -/
theorem parse_text (g : Graph) (h : g.Writable) : parse g.text = .ofResult (.ok g) := by
  have hloops : ∀ s ∈ g.statements, ∀ number, s.selfLoops number = [] := by
    intro s hs number
    rcases List.mem_append.1 hs with hs | hs
    · obtain ⟨n, -, rfl⟩ := List.mem_map.1 hs
      rfl
    · obtain ⟨e, he, rfl⟩ := List.mem_map.1 hs
      have hne : (e.source == e.target) = false :=
        beq_eq_false_iff_ne.2 (h.edges e he).source_ne_target
      simp [Statement.selfLoops, Statement.joins, Statement.references, Edge.statement, hne]
  have hbuilt : g.statements.foldl Graph.addStatement {} = g := by
    have hnodes := @foldl_nodes [] g.nodes h.nodup fun n hn => (h.nodes n hn).label_ne_nil
    rw [Graph.statements, List.foldl_append, hnodes]
    exact foldl_edges g.nodes h.edges
  rw [parse_def, Graph.text, numberedLines_joinWith h.readsAs,
    addLines_of_readsAs h.readsAs hloops, hbuilt, Report.ofResult_ok_bind,
    if_neg (by simpa using h.nodes_ne_nil)]

/-- Ids that look like numbers or ends of sentences, and labels full of signs. -/
def signs : Graph where
  nodes := [⟨"..".toList, "# <".toList⟩, ⟨"1.".toList, "- >".toList⟩, ⟨"_".toList, " ".toList⟩]
  edges := [⟨"1.".toList, "..".toList, .both⟩, ⟨"..".toList, "_".toList, .headless⟩,
    ⟨"1.".toList, "..".toList, .forward⟩]

example : signs.text =
    "..[# <]\n1.[- >]\n_[ ]\n1. <-> ..\n.. -- _\n1. -> ..".toList := by decide

theorem parse_text_signs : signs.Writable ∧ parse signs.text = .ofResult (.ok signs) := by
  have h : signs.Writable := by decide +kernel
  exact ⟨h, parse_text signs h⟩

end Flow
end CellSketch
