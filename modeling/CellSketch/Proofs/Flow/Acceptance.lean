import CellSketch.Flow.Parse
import CellSketch.Proofs.Flow.Statements

/-!
# Acceptance — which flow texts are accepted

A text is accepted when it has a line that says something and all such lines are chains of nodes;
else the first line that is none is the error.

* `stripComment_eq_cutComment` — comments are cut as brackets have it, if these do not nest;
* `accepts_reads` — a text is accepted when all of its lines are read as chains;
* `parse_accepts` — the same by the grammar of chains, with labels free of operators, or with any
  labels where brackets hold neither an operator nor an opening bracket.
-/

namespace CellSketch
namespace Flow

/-! ## Comments -/

/-- The line up to its comment.  Brackets do not nest: an open one hides everything up to the next
closing bracket. -/
def cutComment : (inBrackets : Bool) → List Char → List Char
  | _, [] => []
  | true, c :: rest => c :: cutComment (c != ']') rest
  | false, c :: rest => if c = '#' then [] else c :: cutComment (c == '[') rest

/-- The lines that say something, with their numbers, when comments are cut in some way. -/
def linesBy (uncomment : List Char → List Char) (text : List Char) : List (Nat × List Char) :=
  (Text.lines text).zipIdx.filterMap fun (raw, i) =>
    let line := Text.strip (uncomment raw)
    if line.isEmpty then none else some (i + 1, line)

/-- What stands behind each opening bracket up to the next closing one. -/
def bracketed : List Char → List (List Char)
  | [] => []
  | c :: rest =>
      if c = '[' ∧ ']' ∈ rest then rest.takeWhile (· != ']') :: bracketed rest else bracketed rest

instance : DecidablePred OperatorFree := fun cs =>
  decidable_of_iff (∀ op ∈ Operator.all, ¬ op.spelling <:+: cs)
    ⟨fun h op => h op (by cases op <;> decide), fun h op _ => h op⟩

/-- No bracket holds an opening bracket or an operator. -/
def Plain (line : List Char) : Prop :=
  ∀ label ∈ bracketed line, '[' ∉ label ∧ OperatorFree label

instance : DecidablePred Plain := fun line =>
  inferInstanceAs (Decidable (∀ label ∈ bracketed line, '[' ∉ label ∧ OperatorFree label))

theorem mem_bracketed_iff {label line : List Char} :
    label ∈ bracketed line ↔
      ']' ∉ label ∧ ∃ before after, line = before ++ '[' :: (label ++ ']' :: after) := by
  constructor
  · intro h
    induction line with
    | nil => cases h
    | cons c rest ih =>
        have hlater (h : label ∈ bracketed rest) :
            ']' ∉ label ∧ ∃ before after, c :: rest = before ++ '[' :: (label ++ ']' :: after) := by
          obtain ⟨hlabel, before, after, heq⟩ := ih h
          exact ⟨hlabel, c :: before, after, by rw [heq, List.cons_append]⟩
        rw [bracketed] at h
        split at h
        · rename_i hopen
          obtain ⟨rfl, hclose⟩ := hopen
          rcases List.mem_cons.1 h with heq | h
          · obtain ⟨text, after, hrest, htext⟩ := List.eq_append_cons_of_mem hclose
            rw [hrest, takeWhile_label htext] at heq
            exact ⟨heq ▸ htext, [], after, by rw [hrest, heq, List.nil_append]⟩
          · exact hlater h
        · exact hlater h
  · rintro ⟨hlabel, before, after, rfl⟩
    induction before with
    | nil => simp [bracketed, takeWhile_label hlabel]
    | cons c before ih =>
        rw [List.cons_append, bracketed]
        split
        · exact List.mem_cons_of_mem _ ih
        · exact ih

theorem Plain.mono {line part : List Char} (h : Plain line) (hpart : part <:+: line) :
    Plain part := by
  obtain ⟨front, back, rfl⟩ := hpart
  intro label hlabel
  obtain ⟨hclose, before, after, rfl⟩ := mem_bracketed_iff.1 hlabel
  exact h label (mem_bracketed_iff.2 ⟨hclose, front ++ before, after ++ back, by simp⟩)

/-- A bracket that is open stays plain as it is read, and no bracket opens before it is closed. -/
theorem Plain.of_open {c : Char} {line : List Char} (h : Plain ('[' :: c :: line)) (hc : c ≠ ']') :
    Plain ('[' :: line) ∧ (c = '[' → ']' ∉ line) := by
  have hlonger {label after : List Char} (hclose : ']' ∉ label)
      (heq : line = label ++ ']' :: after) : '[' ∉ c :: label ∧ OperatorFree (c :: label) := by
    refine h _ (mem_bracketed_iff.2 ⟨?_, [], after, by rw [heq]; rfl⟩)
    simpa [hclose] using hc.symm
  constructor
  · intro label hlabel
    obtain ⟨hclose, before, after, heq⟩ := mem_bracketed_iff.1 hlabel
    cases before with
    | nil =>
        rw [List.nil_append, List.cons.injEq] at heq
        obtain ⟨hopen, hfree⟩ := hlonger hclose heq.2
        exact ⟨fun hmem => hopen (List.mem_cons_of_mem c hmem),
          hfree.mono (List.suffix_cons c label).isInfix⟩
    | cons d before =>
        rw [List.cons_append, List.cons.injEq] at heq
        rw [heq.2] at h
        exact h label (mem_bracketed_iff.2 ⟨hclose, '[' :: c :: before, after, rfl⟩)
  · rintro rfl hmem
    obtain ⟨label, after, heq, hclose⟩ := List.eq_append_cons_of_mem hmem
    exact (hlonger hclose heq).1 List.mem_cons_self

/-- Without a closing bracket all of a line stays hidden. -/
theorem cutComment_true_of_not_mem {line : List Char} (h : ']' ∉ cutComment true line) :
    cutComment true line = line := by
  induction line with
  | nil => rfl
  | cons c rest ih =>
      rw [cutComment, List.mem_cons, not_or] at h
      have hc : (c != ']') = true := bne_iff_ne.2 (Ne.symm h.1)
      rw [hc] at h
      rw [cutComment, hc, ih h.2]

/-- Without a closing bracket a comment does not begin. -/
theorem stripCommentAt_succ_of_not_mem {line : List Char} (h : ']' ∉ line) (depth : Nat) :
    stripCommentAt (depth + 1) line = line := by
  induction line generalizing depth with
  | nil => rfl
  | cons c rest ih =>
      rw [List.mem_cons, not_or] at h
      rw [stripCommentAt, if_neg (Ne.symm h.1), ih h.2, ih h.2]
      simp

/-- As long as brackets do not nest, both ways to cut a comment are one. -/
theorem stripCommentAt_eq_cutComment (line : List Char) :
    (Plain (cutComment false line) → stripCommentAt 0 line = cutComment false line) ∧
      (Plain ('[' :: cutComment true line) → stripCommentAt 1 line = cutComment true line) := by
  induction line with
  | nil => exact ⟨fun _ => rfl, fun _ => rfl⟩
  | cons c rest ih =>
      obtain ⟨houtside, hinside⟩ := ih
      constructor
      · intro h
        by_cases hcomment : c = '#'
        · subst hcomment
          rfl
        · rw [cutComment, if_neg hcomment] at h ⊢
          rw [stripCommentAt]
          by_cases hopen : c = '['
          · subst hopen
            rw [if_pos rfl]
            exact congrArg _ (hinside h)
          · have hfalse : (c == '[') = false := beq_eq_false_iff_ne.2 hopen
            rw [hfalse] at h ⊢
            have hrest := houtside (h.mono (List.suffix_cons c _).isInfix)
            simp only [if_neg hopen, hcomment, false_and, if_false, Nat.zero_sub, hrest, ite_self]
      · intro h
        rw [cutComment] at h ⊢
        rw [stripCommentAt]
        by_cases hclose : c = ']'
        · subst hclose
          rw [if_neg (by decide), if_pos rfl]
          exact congrArg _ (houtside (h.mono (List.suffix_append ['[', ']'] _).isInfix))
        · have htrue : (c != ']') = true := bne_iff_ne.2 hclose
          rw [htrue] at h ⊢
          obtain ⟨hplain, hnest⟩ := h.of_open hclose
          by_cases hopen : c = '['
          · -- a bracket in a bracket that is never closed
            have hrest := cutComment_true_of_not_mem (hnest hopen)
            rw [if_pos hopen, hrest]
            rw [hrest] at hnest
            exact congrArg _ (stripCommentAt_succ_of_not_mem (hnest hopen) 1)
          · simp only [if_neg hopen, if_neg hclose, Nat.one_ne_zero, and_false, if_false,
              hinside hplain]

theorem stripComment_eq_cutComment {line : List Char} (h : Plain (cutComment false line)) :
    stripComment line = cutComment false line :=
  (stripCommentAt_eq_cutComment line).1 h

/-! ## Accepted texts -/

/-- What becomes of the lines of a text: all of them are good and there is a graph, or the first
that is not good is the error, or there is none at all. -/
structure Accepts (Good : List Char → Prop) (lines : List (Nat × List Char))
    (result : Except Error Graph) : Prop where
  ok : (∃ g, result = .ok g) ↔ lines ≠ [] ∧ ∀ entry ∈ lines, Good entry.2
  refused : ∀ before number line after, lines = before ++ (number, line) :: after →
    (∀ entry ∈ before, Good entry.2) → ¬ Good line →
    ∃ token, result = .error (.flowLine number token)
  empty : lines = [] → result = .error .emptyFlow

theorem Accepts.congr {Good Good' : List Char → Prop} {lines : List (Nat × List Char)}
    {result : Except Error Graph} (h : Accepts Good lines result)
    (hgood : ∀ entry ∈ lines, Good entry.2 ↔ Good' entry.2) : Accepts Good' lines result where
  ok := by
    rw [h.ok]
    refine and_congr_right fun _ => ?_
    exact ⟨fun hall entry hentry => (hgood entry hentry).1 (hall entry hentry),
      fun hall entry hentry => (hgood entry hentry).2 (hall entry hentry)⟩
  refused before number line after heq hbefore hline := by
    have hmem : ∀ entry ∈ before, entry ∈ lines := fun entry hentry => by simp [heq, hentry]
    refine h.refused before number line after heq
      (fun entry hentry => (hgood entry (hmem entry hentry)).2 (hbefore entry hentry)) ?_
    exact fun hg => hline ((hgood (number, line) (by simp [heq])).1 hg)
  empty := h.empty

theorem forall_or_exists_first {β : Type} {P : β → Prop} (list : List β) :
    (∀ x ∈ list, P x) ∨
      ∃ before x after, list = before ++ x :: after ∧ (∀ y ∈ before, P y) ∧ ¬ P x := by
  induction list with
  | nil => exact Or.inl (by simp)
  | cons x rest ih =>
      by_cases hx : P x
      · rcases ih with hall | ⟨before, y, after, rfl, hbefore, hy⟩
        · exact Or.inl (List.forall_mem_cons.2 ⟨hx, hall⟩)
        · exact Or.inr ⟨x :: before, y, after, rfl, List.forall_mem_cons.2 ⟨hx, hbefore⟩, hy⟩
      · exact Or.inr ⟨[], x, rest, rfl, by simp, hx⟩

theorem Graph.nodes_mention_ne_nil (g : Graph) (id label : List Char) :
    (g.mention id label).nodes ≠ [] := by
  unfold Graph.mention
  split
  · rename_i hnode
    have hne : g.nodes ≠ [] := by
      intro hnil
      simp [Graph.hasNode, hnil] at hnode
    split
    · exact hne
    · simpa using hne
  · simp

theorem Graph.nodes_addStatement_ne_nil (g : Graph) (s : Statement) :
    (g.addStatement s).nodes ≠ [] := by
  unfold Graph.addStatement
  refine List.foldlRecOn _ _ (motive := fun g : Graph => g.nodes ≠ []) ?_ fun g hg join _ => ?_
  · rw [Statement.references, List.foldl_cons]
    exact List.foldlRecOn _ _ (motive := fun g : Graph => g.nodes ≠ [])
      (g.nodes_mention_ne_nil _ _) fun g _ r _ => g.nodes_mention_ne_nil r.id r.label
  · dsimp only
    split <;> exact hg

/-- Lines that are all read end in a graph, with a node if there is a line. -/
theorem result_addLines_of_forall {lines : List (Nat × List Char)}
    (h : ∀ entry ∈ lines, ∃ s, Statement.parse entry.2 = .ok s) (g : Graph) :
    ∃ g', (addLines g lines).result = .ok g' ∧ (lines ≠ [] ∨ g.nodes ≠ [] → g'.nodes ≠ []) := by
  induction lines generalizing g with
  | nil => exact ⟨g, rfl, fun hne => hne.resolve_left fun h => h rfl⟩
  | cons entry rest ih =>
      obtain ⟨number, line⟩ := entry
      obtain ⟨s, hs⟩ := h _ List.mem_cons_self
      obtain ⟨g', hg', hnodes⟩ :=
        ih (fun entry hentry => h entry (List.mem_cons_of_mem _ hentry)) (g.addStatement s)
      refine ⟨g', ?_, fun _ => hnodes (Or.inr (g.nodes_addStatement_ne_nil s))⟩
      rw [addLines, hs]
      exact hg'

/-- The first line that is not read is the error. -/
theorem result_addLines_of_error {before after : List (Nat × List Char)} {number : Nat}
    {line token : List Char} (h : ∀ entry ∈ before, ∃ s, Statement.parse entry.2 = .ok s)
    (htoken : Statement.parse line = .error token) (g : Graph) :
    (addLines g (before ++ (number, line) :: after)).result = .error (.flowLine number token) := by
  induction before generalizing g with
  | nil =>
      rw [List.nil_append, addLines, htoken]
      rfl
  | cons entry rest ih =>
      obtain ⟨number', line'⟩ := entry
      obtain ⟨s, hs⟩ := h _ List.mem_cons_self
      rw [List.cons_append, addLines, hs]
      exact ih (fun entry hentry => h entry (List.mem_cons_of_mem _ hentry)) (g.addStatement s)

theorem parse_def (text : List Char) :
    parse text = (addLines {} (numberedLines text)).bind fun g =>
      if g.nodes.isEmpty then .ofResult (.error .emptyFlow) else .ofResult (.ok g) := rfl

/-- A text is accepted when all of its lines are read as chains. -/
theorem accepts_reads (text : List Char) :
    Accepts (fun line => ∃ s, Statement.parse line = .ok s) (numberedLines text)
      (parse text).result := by
  rw [parse_def]
  generalize numberedLines text = lines
  generalize hresult : ((addLines {} lines).bind fun g =>
    if g.nodes.isEmpty then .ofResult (.error .emptyFlow) else .ofResult (.ok g)).result = result
  have hempty : lines = [] → result = .error .emptyFlow := by
    rintro rfl
    rw [← hresult]
    rfl
  have hrefused (before : List (Nat × List Char)) (number : Nat) (line : List Char)
      (after : List (Nat × List Char)) (heq : lines = before ++ (number, line) :: after)
      (hbefore : ∀ entry ∈ before, ∃ s, Statement.parse entry.2 = .ok s)
      (hline : ¬ ∃ s, Statement.parse line = .ok s) :
      ∃ token, result = .error (.flowLine number token) := by
    cases htoken : Statement.parse line with
    | ok s => exact absurd ⟨s, htoken⟩ hline
    | error token =>
        have hlines : (addLines {} lines).result = .error (.flowLine number token) := by
          rw [heq]
          exact result_addLines_of_error hbefore htoken {}
        refine ⟨token, ?_⟩
        rw [← hresult]
        simp only [Report.bind, hlines]
  refine ⟨⟨?_, ?_⟩, hrefused, hempty⟩
  · rintro ⟨g, hg⟩
    constructor
    · intro hnil
      rw [hempty hnil] at hg
      cases hg
    · -- a line that is not read would be the error
      refine (forall_or_exists_first lines).resolve_right ?_
      rintro ⟨before, ⟨number, line⟩, after, heq, hbefore, hline⟩
      obtain ⟨token, htoken⟩ := hrefused before number line after heq hbefore hline
      rw [htoken] at hg
      cases hg
  · rintro ⟨hne, hall⟩
    obtain ⟨g, hg, hnodes⟩ := result_addLines_of_forall hall {}
    refine ⟨g, ?_⟩
    rw [← hresult]
    simp only [Report.bind, hg]
    rw [if_neg (by simpa using hnodes (Or.inl hne))]
    rfl

/-! ## The grammar of lines -/

/-- A line is written as a chain of nodes. -/
def Derives (line : List Char) : Prop := ∃ s : Statement, s.Written line

/-- A line is written as a chain of nodes whose labels have no operator in them. -/
def DerivesFree (line : List Char) : Prop := ∃ s : Statement, s.Written line ∧ s.LabelsFree

/-- A text is accepted when all of its lines are chains whose labels have no operator in them. -/
theorem accepts_parse (text : List Char) :
    Accepts DerivesFree (numberedLines text) (parse text).result :=
  (accepts_reads text).congr fun _ _ => exists_congr fun _ => Statement.parse_eq_ok_iff

theorem LinksWritten.exists_piece {links : List (Operator × Reference)} {cs : List Char}
    (h : LinksWritten links cs) {r : Reference} (hr : r ∈ links.map (·.2)) :
    ∃ piece, r.Written piece ∧ piece <:+: cs := by
  induction h with
  | nil => cases hr
  | @cons op node links before after piece tail _ _ hnode _ ih =>
      rcases List.mem_cons.1 hr with rfl | hr
      · exact ⟨piece, hnode, before ++ (op.spelling ++ after), tail, by simp⟩
      · obtain ⟨found, hfound, hinfix⟩ := ih hr
        refine ⟨found, hfound, hinfix.trans ?_⟩
        exact ⟨before ++ (op.spelling ++ (after ++ piece)), [], by simp⟩

/-- Every node of a chain stands somewhere in the line. -/
theorem Statement.Written.exists_piece {s : Statement} {cs : List Char} (h : s.Written cs)
    {r : Reference} (hr : r ∈ s.references) : ∃ piece, r.Written piece ∧ piece <:+: cs := by
  cases h with
  | @chain first links piece tail hfirst hlinks =>
      rcases List.mem_cons.1 hr with rfl | hr
      · exact ⟨piece, hfirst, [], tail, rfl⟩
      · obtain ⟨found, hfound, hinfix⟩ := hlinks.exists_piece hr
        exact ⟨found, hfound, hinfix.trans (List.suffix_append piece tail).isInfix⟩

/-- In a plain line no label has an operator in it. -/
theorem Plain.labelsFree {line : List Char} (h : Plain line) {s : Statement}
    (hs : s.Written line) : s.LabelsFree := by
  intro r hr
  obtain ⟨piece, hpiece, hinfix⟩ := hs.exists_piece hr
  cases hpiece with
  | bare => exact fun op hop => op.spelling_ne_nil (List.infix_nil.1 hop)
  | @labelled word label _ _ hlabel =>
      exact (h.mono hinfix _ (mem_bracketed_iff.2 ⟨hlabel, word, [], rfl⟩)).2

theorem strip_isInfix (cs : List Char) : Text.strip cs <:+: cs := by
  have hend (cs : List Char) : Text.stripEnd cs <+: cs := by
    unfold Text.stripEnd
    have hsuffix := List.dropWhile_suffix (l := cs.reverse) Text.isBlank
    rw [← List.reverse_prefix, List.reverse_reverse] at hsuffix
    exact hsuffix
  exact (hend _).isInfix.trans (List.dropWhile_suffix _).isInfix

theorem exists_raw {uncomment : List Char → List Char} {text : List Char}
    {entry : Nat × List Char} (h : entry ∈ linesBy uncomment text) :
    ∃ raw ∈ Text.lines text, entry.2 = Text.strip (uncomment raw) := by
  obtain ⟨⟨raw, i⟩, hraw, hentry⟩ := List.mem_filterMap.1 h
  refine ⟨raw, List.fst_mem_of_mem_zipIdx hraw, ?_⟩
  dsimp only at hentry
  split at hentry
  · cases hentry
  · cases hentry
    rfl

/-- A text is accepted when all of its lines, without their comments, are chains of nodes: always
for labels without an operator in them and comments that begin where all brackets are closed, and
for labels and comments as brackets have it, if no bracket holds an operator or opens another
one. -/
theorem parse_accepts (text : List Char) :
    Accepts DerivesFree (linesBy stripComment text) (parse text).result ∧
    ((∀ raw ∈ Text.lines text, Plain (cutComment false raw)) →
      Accepts Derives (linesBy (cutComment false) text) (parse text).result) := by
  refine ⟨accepts_parse text, fun hplain => ?_⟩
  have hlines : linesBy (cutComment false) text = numberedLines text := by
    refine List.filterMap_congr fun ⟨raw, i⟩ hraw => ?_
    dsimp only
    rw [stripComment_eq_cutComment (hplain raw (List.fst_mem_of_mem_zipIdx hraw))]
  rw [hlines]
  refine (accepts_parse text).congr fun entry hentry => ?_
  refine ⟨fun ⟨s, hs, _⟩ => ⟨s, hs⟩, fun ⟨s, hs⟩ => ⟨s, hs, ?_⟩⟩
  -- the line is a part of what stands before its comment
  rw [← hlines] at hentry
  obtain ⟨raw, hraw, hline⟩ := exists_raw hentry
  have hentry' : Plain entry.2 := by
    rw [hline]
    exact (hplain raw hraw).mono (strip_isInfix _)
  exact hentry'.labelsFree hs

theorem parse_accepts_hash_in_label :
    (∀ raw ∈ Text.lines "a[#1] -> b.c # d\n# [".toList, Plain (cutComment false raw)) ∧
      Accepts Derives (linesBy (cutComment false) "a[#1] -> b.c # d\n# [".toList)
        (parse "a[#1] -> b.c # d\n# [".toList).result :=
  ⟨by decide +kernel, (parse_accepts _).2 (by decide +kernel)⟩

/-- An operator in a label cuts the label, and a bracket opened in a label keeps a comment from
being cut. -/
theorem not_accepts_brackets :
    ¬ Accepts Derives (linesBy (cutComment false) "a[x->y]".toList)
        (parse "a[x->y]".toList).result ∧
      ¬ Accepts Derives (linesBy (cutComment false) "a[x[y] # z".toList)
        (parse "a[x[y] # z".toList).result := by
  -- the only line is a node with a label, and it is refused
  have hrefused {lines : List (Nat × List Char)} {label : List Char}
      {result : Except Error Graph} {e : Error} (hlabel : ']' ∉ label)
      (hlines : lines = [(1, 'a' :: '[' :: (label ++ [']']))]) (herror : result = .error e) :
      ¬ Accepts Derives lines result := by
    intro h
    have hid : ∀ c ∈ ['a'], isIdChar c = true := by
      intro c hc
      rw [List.mem_singleton.1 hc]
      decide +kernel
    have hnode : Reference.Written ⟨['a'], label⟩ (['a'] ++ '[' :: (label ++ [']'])) :=
      .labelled (by decide) hid hlabel
    have hline : Derives ('a' :: '[' :: (label ++ [']'])) :=
      ⟨⟨⟨['a'], label⟩, []⟩, by simpa using Statement.Written.chain hnode .nil⟩
    obtain ⟨g, hg⟩ := h.ok.2 (by simpa [hlines] using hline)
    rw [herror] at hg
    cases hg
  have hoperator : (parse "a[x->y]".toList).result = .error (.flowLine 1 "a[x".toList) := by
    decide +kernel
  have hnested : (parse "a[x[y] # z".toList).result =
      .error (.flowLine 1 "a[x[y] # z".toList) := by
    decide +kernel
  have hline : linesBy (cutComment false) "a[x->y]".toList = [(1, "a[x->y]".toList)] := by
    decide +kernel
  have hline' : linesBy (cutComment false) "a[x[y] # z".toList = [(1, "a[x[y]".toList)] := by
    decide +kernel
  exact ⟨hrefused (show ']' ∉ "x->y".toList by decide) hline hoperator,
    hrefused (show ']' ∉ "x[y".toList by decide) hline' hnested⟩

end Flow
end CellSketch
