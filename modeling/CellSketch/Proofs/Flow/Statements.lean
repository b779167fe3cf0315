import Mathlib.Data.List.Infix
import Mathlib.Data.List.TakeWhile
import Mathlib.Tactic.Common
import CellSketch.Flow.Statement

/-!
# Statements — which lines are chains of nodes

A chain is written as nodes with operators between them, where blanks may stand around an operator.
A node is a word, alone or with a label in brackets, and a label is any text without a closing
bracket.

* `Reference.parse?_eq_some_iff` — a piece is read as a node exactly when it is written as one;
* `cut_spec`, `cut_append` — where a line is cut at its first operator;
* `Statement.parse_eq_ok_iff` — a line is read as a chain exactly when it is written as one whose
  labels have no operator in them.
-/

namespace CellSketch
namespace Flow

/-! ## The grammar -/

/-- A node as it is written. -/
inductive Reference.Written : Reference → List Char → Prop where
  | bare {id : Id} (hne : id ≠ []) (hid : ∀ c ∈ id, isIdChar c = true) : Written ⟨id, []⟩ id
  | labelled {id : Id} {label : List Char} (hne : id ≠ []) (hid : ∀ c ∈ id, isIdChar c = true)
      (hlabel : ']' ∉ label) : Written ⟨id, label⟩ (id ++ '[' :: (label ++ [']']))

/-- The operators of a chain with the nodes behind them, as they are written. -/
inductive LinksWritten : List (Operator × Reference) → List Char → Prop where
  | nil : LinksWritten [] []
  | cons {op : Operator} {node : Reference} {links : List (Operator × Reference)}
      {before after piece tail : List Char} (hbefore : ∀ c ∈ before, Text.isBlank c = true)
      (hafter : ∀ c ∈ after, Text.isBlank c = true) (hnode : node.Written piece)
      (htail : LinksWritten links tail) :
      LinksWritten ((op, node) :: links) (before ++ (op.spelling ++ (after ++ (piece ++ tail))))

/-- A chain as it is written. -/
inductive Statement.Written : Statement → List Char → Prop where
  | chain {first : Reference} {links : List (Operator × Reference)} {piece tail : List Char}
      (hfirst : first.Written piece) (hlinks : LinksWritten links tail) :
      Written ⟨first, links⟩ (piece ++ tail)

/-- No operator stands anywhere in a text. -/
def OperatorFree (cs : List Char) : Prop := ∀ op : Operator, ¬ op.spelling <:+: cs

theorem OperatorFree.mono {cs ds : List Char} (h : OperatorFree ds) (hcs : cs <:+: ds) :
    OperatorFree cs := fun op hop => h op (hop.trans hcs)

/-- No label of a chain has an operator in it. -/
def Statement.LabelsFree (s : Statement) : Prop := ∀ r ∈ s.references, OperatorFree r.label

/-! ## Characters -/

/-- The code points of the blanks. -/
def blankCodes : List Nat :=
  [9, 10, 11, 12, 13, 28, 29, 30, 31, 32, 0x85, 0xa0, 0x1680, 0x2000, 0x2001, 0x2002, 0x2003,
    0x2004, 0x2005, 0x2006, 0x2007, 0x2008, 0x2009, 0x200a, 0x2028, 0x2029, 0x202f, 0x205f, 0x3000]

theorem mem_blankCodes {c : Char} (h : Text.isBlank c = true) : c.toNat ∈ blankCodes := by
  simp only [Text.isBlank, Bool.or_eq_true, Bool.and_eq_true, decide_eq_true_eq, beq_iff_eq] at h
  simp only [blankCodes, List.mem_cons, List.not_mem_nil, or_false]
  omega

/-- Blanks are no part of a word. -/
theorem isBlank_of_isIdChar {c : Char} (h : isIdChar c = true) : Text.isBlank c = false := by
  have hcodes : ∀ n ∈ blankCodes, isIdChar (Char.ofNat n) = false := by decide +kernel
  rw [Bool.eq_false_iff]
  intro hblank
  have hnone := hcodes _ (mem_blankCodes hblank)
  rw [Char.ofNat_toNat, h] at hnone
  cases hnone

/-- The characters that have a meaning of their own in a line. -/
def punctuation : List Char := ['-', '<', '>', '[', ']', '#']

theorem not_mem_punctuation_of_isIdChar {c : Char} (h : isIdChar c = true) : c ∉ punctuation := by
  have hnone : punctuation.all (fun c => !isIdChar c) = true := by decide +kernel
  intro hmem
  simpa [h] using List.all_eq_true.1 hnone c hmem

namespace Operator

/-- An operator is made of dashes and heads. -/
theorem mem_of_mem_spelling {op : Operator} {c : Char} (h : c ∈ op.spelling) :
    c = '-' ∨ c = '<' ∨ c = '>' := by
  cases op <;> simp only [spelling, List.mem_cons, List.not_mem_nil, or_false] at h <;> tauto

theorem isBlank_of_mem_spelling {op : Operator} {c : Char} (h : c ∈ op.spelling) :
    Text.isBlank c = false := by
  rcases mem_of_mem_spelling h with rfl | rfl | rfl <;> decide

theorem not_mem_spelling_of_isIdChar {op : Operator} {c : Char} (h : isIdChar c = true) :
    c ∉ op.spelling := by
  intro hmem
  refine not_mem_punctuation_of_isIdChar h ?_
  rcases mem_of_mem_spelling hmem with rfl | rfl | rfl <;> decide

theorem leading?_eq_none_iff {cs : List Char} :
    leading? cs = none ↔ ∀ op : Operator, ¬ op.spelling <+: cs := by
  rw [leading?, List.findSome?_eq_none_iff]
  constructor
  · intro h op hop
    have hnone := h op (by cases op <;> decide)
    rw [if_pos (List.isPrefixOf_iff_prefix.2 hop)] at hnone
    cases hnone
  · intro h op _
    rw [if_neg fun hop => h op (List.isPrefixOf_iff_prefix.1 hop)]

/-- An operator is found where it stands, unless a head behind it makes it another one. -/
theorem leading?_append {op : Operator} {rest : List Char} (h : rest.head? ≠ some '>') :
    leading? (op.spelling ++ rest) = some (op, rest) := by
  cases op with
  | backward =>
      cases rest with
      | nil => rfl
      | cons c rest =>
          have hc : '>' ≠ c := by
            rintro rfl
            exact h rfl
          simp [leading?, all, spelling, hc]
  | _ => simp [leading?, all, spelling]

end Operator

/-! ## Nodes -/

theorem takeWhile_label {label : List Char} (h : ']' ∉ label) (after : List Char) :
    (label ++ ']' :: after).takeWhile (· != ']') = label := by
  have hplain : ∀ c ∈ label, (c != ']') = true := by
    intro c hc
    rw [bne_iff_ne]
    rintro rfl
    exact h hc
  rw [List.takeWhile_append_of_pos hplain]
  simp

/-- A text that has no character of the first part stands in the second part. -/
theorem isInfix_of_isInfix_append {text first second : List Char} (hne : text ≠ [])
    (hfirst : ∀ c ∈ first, c ∉ text) (h : text <:+: first ++ second) : text <:+: second := by
  induction first with
  | nil => exact h
  | cons c first ih =>
      rcases List.infix_cons_iff.1 h with hfront | hrest
      · obtain ⟨d, more, rfl⟩ := List.exists_cons_of_ne_nil hne
        obtain ⟨rfl, -⟩ := List.cons_prefix_cons.1 hfront
        exact absurd List.mem_cons_self (hfirst d List.mem_cons_self)
      · exact ih (fun d hd => hfirst d (List.mem_cons_of_mem c hd)) hrest

namespace Reference

theorem written_of_parse? {cs : List Char} {r : Reference} (h : parse? cs = some r) :
    r.Written cs := by
  have hsplit := List.takeWhile_append_dropWhile (p := isIdChar) (l := cs)
  have hid : ∀ c ∈ cs.takeWhile isIdChar, isIdChar c = true := fun c => List.mem_takeWhile_imp
  unfold parse? at h
  dsimp only at h
  split at h
  · cases h
  · rename_i hne
    rw [List.isEmpty_iff] at hne
    split at h
    · rename_i hdrop
      cases h
      rw [hdrop, List.append_nil] at hsplit
      have hbare := Written.bare hne hid
      rwa [hsplit] at hbare ⊢
    · rename_i rest hdrop
      split at h
      · rename_i hclose
        cases h
        have hlabel : ']' ∉ rest.takeWhile (· != ']') := fun hmem => by
          simpa using List.mem_takeWhile_imp hmem
        have hrest := List.takeWhile_append_dropWhile (p := (· != ']')) (l := rest)
        rw [hclose] at hrest
        have hlabelled := Written.labelled hne hid hlabel
        rwa [hrest, ← hdrop, hsplit] at hlabelled
      · cases h
    · cases h

theorem Written.parse? {r : Reference} {cs : List Char} (h : r.Written cs) :
    Reference.parse? cs = some r := by
  cases h with
  | bare hne hid =>
      have htake := List.takeWhile_eq_self_iff.2 hid
      have hdrop := List.dropWhile_eq_nil_iff.2 hid
      simp [Reference.parse?, htake, hdrop, hne]
  | @labelled word label hne hid hlabel =>
      have hopen : isIdChar '[' = false := by decide +kernel
      have htake : (word ++ '[' :: (label ++ [']'])).takeWhile isIdChar = word := by
        rw [List.takeWhile_append_of_pos hid, List.takeWhile_cons, hopen]
        simp
      have hdrop : (word ++ '[' :: (label ++ [']'])).dropWhile isIdChar =
          '[' :: (label ++ [']']) := by
        rw [List.dropWhile_append_of_pos hid, List.dropWhile_cons, hopen]
        simp
      have htakeLabel := takeWhile_label hlabel []
      have hdropLabel : (label ++ [']']).dropWhile (· != ']') = [']'] := by
        have hsplit := List.takeWhile_append_dropWhile (p := (· != ']')) (l := label ++ [']'])
        rw [htakeLabel] at hsplit
        exact List.append_cancel_left hsplit
      simp [Reference.parse?, htake, hdrop, hne, htakeLabel, hdropLabel]

/-- A piece is read as a node exactly when it is written as one. -/
theorem parse?_eq_some_iff {cs : List Char} {r : Reference} :
    parse? cs = some r ↔ r.Written cs :=
  ⟨written_of_parse?, Written.parse?⟩

/-- A node starts with a character of a word. -/
theorem Written.exists_cons {r : Reference} {cs : List Char} (h : r.Written cs) :
    ∃ c rest, cs = c :: rest ∧ isIdChar c = true := by
  cases h with
  | bare hne hid =>
      obtain ⟨c, rest, rfl⟩ := List.exists_cons_of_ne_nil hne
      exact ⟨c, rest, rfl, hid c List.mem_cons_self⟩
  | labelled hne hid _ =>
      obtain ⟨c, rest, rfl⟩ := List.exists_cons_of_ne_nil hne
      exact ⟨c, _, rfl, hid c List.mem_cons_self⟩

/-- A node ends with a character of a word or with a closing bracket. -/
theorem Written.exists_concat {r : Reference} {cs : List Char} (h : r.Written cs) :
    ∃ rest c, cs = rest ++ [c] ∧ (isIdChar c = true ∨ c = ']') := by
  cases h with
  | bare hne hid =>
      refine ⟨_, _, (List.dropLast_append_getLast hne).symm, Or.inl ?_⟩
      exact hid _ (List.getLast_mem hne)
  | @labelled word label _ _ _ => exact ⟨word ++ '[' :: label, ']', by simp, Or.inr rfl⟩

/-- The label of a node is a part of the node. -/
theorem Written.label_isInfix {r : Reference} {cs : List Char} (h : r.Written cs) :
    r.label <:+: cs := by
  cases h with
  | bare => exact List.nil_infix
  | @labelled word label => exact ⟨word ++ ['['], [']'], by simp⟩

/-- A node has an operator in it only if its label has. -/
theorem Written.operatorFree {r : Reference} {cs : List Char} (h : r.Written cs)
    (hlabel : OperatorFree r.label) : OperatorFree cs := by
  intro op hop
  have hbracket {c : Char} (hc : c = '[' ∨ c = ']') : c ∉ op.spelling := fun hmem => by
    have hop := Operator.mem_of_mem_spelling hmem
    revert hop
    rcases hc with rfl | rfl <;> decide
  have hword {word : List Char} (hid : ∀ c ∈ word, isIdChar c = true) :
      ∀ c ∈ word, c ∉ op.spelling := fun c hc => Operator.not_mem_spelling_of_isIdChar (hid c hc)
  cases h with
  | bare hne hid =>
      rw [← List.append_nil cs] at hop
      exact op.spelling_ne_nil
        (List.infix_nil.1 (isInfix_of_isInfix_append op.spelling_ne_nil (hword hid) hop))
  | @labelled word label hne hid _ =>
      -- neither the word nor a bracket has a character of an operator
      have hbehind := isInfix_of_isInfix_append op.spelling_ne_nil (hword hid) hop
      rw [← List.singleton_append] at hbehind
      have hinside := isInfix_of_isInfix_append op.spelling_ne_nil
        (by simpa using hbracket (Or.inl rfl)) hbehind
      rcases List.infix_concat_iff.1 hinside with hend | hinside
      · rcases List.suffix_concat_iff.1 hend with hnil | ⟨init, heq, -⟩
        · exact op.spelling_ne_nil hnil
        · exact hbracket (Or.inr rfl) (by simp [heq])
      · exact hlabel op hinside

end Reference

/-- The last character of a node is no blank. -/
theorem isBlank_of_last {c : Char} (h : isIdChar c = true ∨ c = ']') : Text.isBlank c = false := by
  rcases h with h | rfl
  · exact isBlank_of_isIdChar h
  · decide

/-- The last character of a node belongs to no operator. -/
theorem not_mem_spelling_of_last {c : Char} (h : isIdChar c = true ∨ c = ']') (op : Operator) :
    c ∉ op.spelling := by
  rcases h with h | rfl
  · exact Operator.not_mem_spelling_of_isIdChar h
  · cases op <;> decide

/-! ## Cutting -/

theorem OperatorFree.cons {c : Char} {cs : List Char} (h : OperatorFree cs)
    (hfirst : ∀ op : Operator, ¬ op.spelling <+: c :: cs) : OperatorFree (c :: cs) := by
  intro op hop
  rcases List.infix_cons_iff.1 hop with hop | hop
  · exact hfirst op hop
  · exact h op hop

/-- No operator starts behind blanks where none is found. -/
theorem not_prefix_of_leading? {c : Char} {cs : List Char}
    (h : Operator.leading? ((c :: cs).dropWhile Text.isBlank) = none) (op : Operator) :
    ¬ op.spelling <+: c :: cs := by
  intro hop
  obtain ⟨d, more, hspelling⟩ := List.exists_cons_of_ne_nil op.spelling_ne_nil
  -- the first character of an operator is no blank, so nothing was dropped
  have hd : d = c := by
    rw [hspelling] at hop
    exact (List.cons_prefix_cons.1 hop).1
  have hmem : c ∈ op.spelling := by
    rw [hspelling, hd]
    exact List.mem_cons_self
  have hblank := Operator.isBlank_of_mem_spelling hmem
  rw [List.dropWhile_cons, hblank] at h
  exact Operator.leading?_eq_none_iff.1 h op hop

/-- A line is cut at its first operator, and blanks around that are dropped. -/
theorem cut_spec (cs : List Char) :
    OperatorFree (cut cs).1 ∧
      ((cut cs).2 = none ∧ cs = (cut cs).1 ∨
        ∃ op after blanks blanks', (cut cs).2 = some (op, after) ∧
          (∀ c ∈ blanks, Text.isBlank c = true) ∧ (∀ c ∈ blanks', Text.isBlank c = true) ∧
          cs = (cut cs).1 ++ (blanks ++ (op.spelling ++ (blanks' ++ after)))) := by
  have hnil : OperatorFree [] := fun op hop => op.spelling_ne_nil (List.infix_nil.1 hop)
  induction cs with
  | nil => exact ⟨hnil, Or.inl ⟨rfl, rfl⟩⟩
  | cons c rest ih =>
      obtain ⟨hfree, hrest⟩ := ih
      rw [cut]
      cases hleading : Operator.leading? ((c :: rest).dropWhile Text.isBlank) with
      | some found =>
          obtain ⟨op, behind⟩ := found
          refine ⟨hnil, Or.inr ⟨op, _, (c :: rest).takeWhile Text.isBlank,
            behind.takeWhile Text.isBlank, rfl, fun d => List.mem_takeWhile_imp,
            fun d => List.mem_takeWhile_imp, ?_⟩⟩
          simp only [Option.elim_some, List.nil_append, List.takeWhile_append_dropWhile]
          rw [← Operator.eq_of_leading? hleading, List.takeWhile_append_dropWhile]
      | none =>
          simp only [Option.elim_none]
          -- an operator at the front would be one in front of the rest of the line
          have hfront (op : Operator) : ¬ op.spelling <+: c :: (cut rest).1 := by
            intro hop
            refine not_prefix_of_leading? hleading op (hop.trans ?_)
            rw [List.cons_prefix_cons]
            refine ⟨rfl, ?_⟩
            rcases hrest with ⟨-, heq⟩ | ⟨_, _, _, _, -, -, -, heq⟩
            · rw [← heq]
            · exact ⟨_, heq.symm⟩
          refine ⟨hfree.cons hfront, ?_⟩
          rcases hrest with ⟨hnone, heq⟩ | ⟨op, after, blanks, blanks', hsome, hb, hb', heq⟩
          · exact Or.inl ⟨hnone, by rw [← heq]⟩
          · exact Or.inr ⟨op, after, blanks, blanks', hsome, hb, hb', by
              rw [List.cons_append, ← heq]⟩

/-- A line without an operator is not cut. -/
theorem cut_of_operatorFree {cs : List Char} (h : OperatorFree cs) : cut cs = (cs, none) := by
  obtain ⟨-, ⟨hnone, heq⟩ | ⟨op, after, blanks, blanks', -, -, -, heq⟩⟩ := cut_spec cs
  · exact Prod.ext heq.symm hnone
  · refine absurd ?_ (h op)
    rw [heq]
    exact ⟨(cut cs).1 ++ blanks, blanks' ++ after, by simp⟩

/-- An operator behind a text is not seen from inside the text, if its last character is neither a
blank nor a part of an operator. -/
theorem leading?_append_none {init : List Char} {last : Char}
    (hfree : OperatorFree (init ++ [last])) (hblank : Text.isBlank last = false)
    (hlast : ∀ op : Operator, last ∉ op.spelling) (tail : List Char) :
    Operator.leading? ((init ++ [last] ++ tail).dropWhile Text.isBlank) = none := by
  -- blanks are dropped up to the last character at most
  obtain ⟨kept, hkept, hdrop⟩ : ∃ kept, kept ++ [last] <:+ init ++ [last] ∧
      (init ++ [last] ++ tail).dropWhile Text.isBlank = kept ++ [last] ++ tail := by
    clear hfree
    induction init with
    | nil => exact ⟨[], List.suffix_refl _, by simp [hblank]⟩
    | cons c init ih =>
        obtain ⟨kept, hkept, hdrop⟩ := ih
        cases hc : Text.isBlank c with
        | true =>
            refine ⟨kept, hkept.trans (List.suffix_cons c _), ?_⟩
            rw [← hdrop]
            simp [hc]
        | false => exact ⟨c :: init, List.suffix_refl _, by simp [hc]⟩
  rw [hdrop, Operator.leading?_eq_none_iff]
  rintro op ⟨more, heq⟩
  rcases List.append_eq_append_iff.1 heq with ⟨within, heq, -⟩ | ⟨beyond, heq, -⟩
  · have hop : op.spelling <+: kept ++ [last] := ⟨within, heq.symm⟩
    exact hfree op (hop.isInfix.trans hkept.isInfix)
  · exact hlast op (by simp [heq])

/-- A text in front of a place where a line is cut stays whole. -/
theorem cut_append {init : List Char} {last : Char} {tail : List Char}
    {found : Operator × List Char} (hfree : OperatorFree (init ++ [last]))
    (hblank : Text.isBlank last = false) (hlast : ∀ op : Operator, last ∉ op.spelling)
    (htail : cut tail = ([], some found)) :
    cut (init ++ [last] ++ tail) = (init ++ [last], some found) := by
  induction init with
  | nil =>
      have hnone := leading?_append_none hfree hblank hlast tail
      rw [List.nil_append, List.cons_append, List.nil_append] at hnone ⊢
      rw [cut, hnone, htail]
      rfl
  | cons c init ih =>
      have hnone := leading?_append_none hfree hblank hlast tail
      rw [List.cons_append, List.cons_append] at hnone ⊢
      rw [cut, hnone, ih (hfree.mono (List.suffix_cons c _).isInfix)]
      rfl

/-- A line that begins with an operator, or with blanks and one, is cut right there. -/
theorem cut_operator {op : Operator} {before after rest : List Char}
    (hbefore : ∀ c ∈ before, Text.isBlank c = true) (hafter : ∀ c ∈ after, Text.isBlank c = true)
    {c : Char} (hc : isIdChar c = true) :
    cut (before ++ (op.spelling ++ (after ++ c :: rest))) = ([], some (op, c :: rest)) := by
  have hblank := isBlank_of_isIdChar hc
  -- what follows the operator is a blank or a character of a word, so no head
  have hhead : (after ++ c :: rest).head? ≠ some '>' := by
    cases after with
    | nil =>
        rw [List.nil_append, List.head?_cons, Ne, Option.some.injEq]
        rintro rfl
        exact not_mem_punctuation_of_isIdChar hc (by decide)
    | cons d after =>
        rw [List.cons_append, List.head?_cons, Ne, Option.some.injEq]
        rintro rfl
        exact absurd (hafter '>' List.mem_cons_self) (by decide)
  have hdrop : (before ++ (op.spelling ++ (after ++ c :: rest))).dropWhile Text.isBlank =
      op.spelling ++ (after ++ c :: rest) := by
    rw [List.dropWhile_append_of_pos hbefore]
    cases op <;> simp [Operator.spelling, show Text.isBlank '<' = false by decide,
      show Text.isBlank '-' = false by decide]
  have hrest : (after ++ c :: rest).dropWhile Text.isBlank = c :: rest := by
    rw [List.dropWhile_append_of_pos hafter, List.dropWhile_cons, hblank]
    simp
  obtain ⟨d, line, hline⟩ : ∃ d line,
      before ++ (op.spelling ++ (after ++ c :: rest)) = d :: line := by
    refine List.exists_cons_of_ne_nil fun h => op.spelling_ne_nil ?_
    exact (List.append_eq_nil_iff.1 (List.append_eq_nil_iff.1 h).2).1
  rw [hline] at hdrop ⊢
  rw [cut, hdrop, Operator.leading?_append hhead, Option.elim_some, hrest]

/-! ## Reading -/

theorem pieces_of_cut_none {cs before : List Char} (h : cut cs = (before, none)) :
    pieces cs = (before, []) := by
  rw [pieces]
  split
  · rename_i heq
    rw [h] at heq
    cases heq
    rfl
  · rename_i heq
    rw [h] at heq
    cases heq

theorem pieces_of_cut_some {cs before after : List Char} {op : Operator}
    (h : cut cs = (before, some (op, after))) :
    pieces cs = (before, (op, (pieces after).1) :: (pieces after).2) := by
  rw [pieces]
  split
  · rename_i heq
    rw [h] at heq
    cases heq
  · rename_i heq
    rw [h] at heq
    cases heq
    rfl

namespace Statement

/-- A line without an operator is a single node. -/
theorem parse_of_cut_none {cs before : List Char} (h : cut cs = (before, none)) :
    parse cs = match Reference.parse? before with
      | none => .error before
      | some node => .ok ⟨node, []⟩ := by
  rw [parse, pieces_of_cut_none h]
  dsimp only
  cases Reference.parse? before <;> rfl

/-- A line with an operator is a node and a chain behind the operator. -/
theorem parse_of_cut_some {cs before after : List Char} {op : Operator}
    (h : cut cs = (before, some (op, after))) :
    parse cs = match Reference.parse? before with
      | none => .error before
      | some node => (parse after).map fun s => ⟨node, (op, s.first) :: s.links⟩ := by
  rw [parse, pieces_of_cut_some h]
  dsimp only
  cases Reference.parse? before with
  | none => rfl
  | some node =>
      dsimp only
      rw [readLinks, parse]
      dsimp only
      cases Reference.parse? (pieces after).1 with
      | none => rfl
      | some next => cases readLinks (pieces after).2 <;> rfl

/-- What is read as a chain is written as one, and no label has an operator in it. -/
theorem written_of_parse {cs : List Char} {s : Statement} (h : parse cs = .ok s) :
    s.Written cs ∧ s.LabelsFree := by
  -- each operator leaves a shorter line to read
  induction hn : cs.length using Nat.strong_induction_on generalizing cs s with
  | h n ih =>
      have hspec := cut_spec cs
      rcases hcut : cut cs with ⟨before, found⟩
      rw [hcut] at hspec
      dsimp only at hspec
      obtain ⟨hfree, ⟨rfl, rfl⟩ | ⟨op, after, blanks, blanks', rfl, hb, hb', heq⟩⟩ := hspec
      · rw [parse_of_cut_none hcut] at h
        split at h
        · cases h
        · rename_i node hnode
          cases h
          have hwritten := Reference.parse?_eq_some_iff.1 hnode
          refine ⟨?_, fun r hr => ?_⟩
          · have hchain := Written.chain hwritten .nil
            rwa [List.append_nil] at hchain
          · obtain rfl := List.mem_singleton.1 hr
            exact hfree.mono hwritten.label_isInfix
      · rw [parse_of_cut_some hcut] at h
        split at h
        · cases h
        · rename_i node hnode
          have hwritten := Reference.parse?_eq_some_iff.1 hnode
          cases hrest : parse after with
          | error token =>
              rw [hrest] at h
              cases h
          | ok s' =>
              rw [hrest] at h
              cases h
              obtain ⟨hs', hfree'⟩ := ih _ (hn ▸ length_of_cut hcut) hrest rfl
              refine ⟨?_, fun r hr => ?_⟩
              · cases hs' with
                | chain hfirst hlinks =>
                    rw [heq]
                    exact .chain hwritten (.cons hb hb' hfirst hlinks)
              · rcases List.mem_cons.1 hr with rfl | hr
                · exact hfree.mono hwritten.label_isInfix
                · exact hfree' r hr

/-- What is written as a chain is read as that chain, unless an operator stands in a label. -/
theorem Written.parse {cs : List Char} {s : Statement} (h : s.Written cs) (hfree : s.LabelsFree) :
    Statement.parse cs = .ok s := by
  obtain ⟨hfirst, hlinks⟩ := h
  rename_i first links piece tail
  induction hlinks generalizing first piece with
  | nil =>
      have hpiece := hfirst.operatorFree (hfree _ List.mem_cons_self)
      rw [List.append_nil, parse_of_cut_none (cut_of_operatorFree hpiece), hfirst.parse?]
  | @cons op node links before after next tail hbefore hafter hnode _ ih =>
      have hpiece := hfirst.operatorFree (hfree _ List.mem_cons_self)
      -- the node ends with a character that no operator continues, and the next one starts a word
      obtain ⟨init, last, rfl, hlast⟩ := hfirst.exists_concat
      obtain ⟨c, rest, rfl, hc⟩ := hnode.exists_cons
      have hoperator : cut (before ++ (op.spelling ++ (after ++ (c :: rest ++ tail)))) =
          ([], some (op, c :: rest ++ tail)) := cut_operator hbefore hafter hc
      have hcut := cut_append hpiece (isBlank_of_last hlast) (not_mem_spelling_of_last hlast)
        hoperator
      rw [parse_of_cut_some hcut, hfirst.parse?]
      rw [ih hnode fun r hr => hfree r (List.mem_cons_of_mem _ hr)]
      rfl

/-- A line is read as a chain exactly when it is written as one whose labels have no operator in
them. -/
theorem parse_eq_ok_iff {cs : List Char} {s : Statement} :
    parse cs = .ok s ↔ s.Written cs ∧ s.LabelsFree :=
  ⟨written_of_parse, fun ⟨hwritten, hfree⟩ => hwritten.parse hfree⟩

end Statement

end Flow
end CellSketch
