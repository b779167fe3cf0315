import CellSketch.Flow.Graph
import CellSketch.Text.Blank
import CellSketch.Text.Word

/-!
# Statement — one line of a flow text

A statement is a chain of nodes with an operator between each two, such as `start[Read] -> parse`.
The text is cut at operators first, wherever they stand; each piece between them then has to be a
node: a word, with a label in brackets or without.
-/

namespace CellSketch
namespace Flow

/-- How two neighbours of a chain are joined. -/
inductive Operator where
  | forward
  | backward
  | both
  | plain
  deriving DecidableEq, Repr

namespace Operator

def spelling : Operator → List Char
  | .both => ['<', '-', '>']
  | .forward => ['-', '>']
  | .backward => ['<', '-']
  | .plain => ['-', '-']

/-- All operators; where two begin a text, the one that comes first here is meant. -/
def all : List Operator := [.both, .forward, .backward, .plain]

/-- The operator at the very start of a text, and the text after it. -/
def leading? (cs : List Char) : Option (Operator × List Char) :=
  all.findSome? fun op =>
    if op.spelling.isPrefixOf cs then some (op, cs.drop op.spelling.length) else none

/-- The edge between two neighbours of a chain. -/
def edge (op : Operator) (left right : Id) : Edge :=
  match op with
  | .forward => ⟨left, right, .forward⟩
  | .backward => ⟨right, left, .forward⟩
  | .both => ⟨left, right, .both⟩
  | .plain => ⟨left, right, .headless⟩

theorem spelling_ne_nil (op : Operator) : op.spelling ≠ [] := by
  cases op <;> simp [spelling]

theorem eq_of_leading? {cs rest : List Char} {op : Operator}
    (h : leading? cs = some (op, rest)) : cs = op.spelling ++ rest := by
  obtain ⟨op', -, h'⟩ := List.exists_of_findSome?_eq_some h
  split at h'
  · next hp =>
      simp only [Option.some.injEq, Prod.mk.injEq] at h'
      obtain ⟨rfl, rfl⟩ := h'
      obtain ⟨t, rfl⟩ := List.isPrefixOf_iff_prefix.1 hp
      simp
  · simp at h'

end Operator

/-! ## Cutting at operators -/

/-- The text before the first operator, and that operator with the text after it; blanks around the
operator belong to neither. -/
def cut : List Char → List Char × Option (Operator × List Char)
  | [] => ([], none)
  | c :: rest =>
      (Operator.leading? ((c :: rest).dropWhile Text.isBlank)).elim
        (c :: (cut rest).1, (cut rest).2)
        (fun found => ([], some (found.1, found.2.dropWhile Text.isBlank)))

theorem length_dropWhile_le (p : Char → Bool) (cs : List Char) :
    (cs.dropWhile p).length ≤ cs.length :=
  (List.dropWhile_sublist p).length_le

theorem length_of_cut {cs before after : List Char} {op : Operator}
    (h : cut cs = (before, some (op, after))) : after.length < cs.length := by
  induction cs generalizing before with
  | nil => simp [cut] at h
  | cons c rest ih =>
      rw [cut] at h
      cases hl : Operator.leading? ((c :: rest).dropWhile Text.isBlank) with
      | some found =>
          rw [hl] at h
          injection h with _ h
          injection h with h
          injection h with _ h
          have hlead := congrArg List.length (Operator.eq_of_leading? hl)
          have hdrop := length_dropWhile_le Text.isBlank (c :: rest)
          have hafter := length_dropWhile_le Text.isBlank found.2
          have hpos := List.length_pos_iff.2 (Operator.spelling_ne_nil found.1)
          rw [List.length_append] at hlead
          rw [← h]
          omega
      | none =>
          rw [hl] at h
          injection h with _ h
          have := @ih (cut rest).1 (by rw [← h])
          rw [List.length_cons]
          omega

/-- The pieces of a line: the text before the first operator, then each operator with the text
up to the next one. -/
def pieces (cs : List Char) : List Char × List (Operator × List Char) :=
  match h : cut cs with
  | (before, none) => (before, [])
  | (before, some (op, after)) =>
      have := length_of_cut h
      let (next, more) := pieces after
      (before, (op, next) :: more)
termination_by cs.length

/-! ## Nodes and chains -/

/-- The characters of ids. -/
def isIdChar (c : Char) : Bool := Text.isWordChar c || c == '.'

/-- A node as written: its id, and its label, empty if there is none. -/
structure Reference where
  id : Id
  label : List Char
  deriving DecidableEq, Repr

/-- Reads a piece as a node. -/
def Reference.parse? (cs : List Char) : Option Reference :=
  let id := cs.takeWhile isIdChar
  if id.isEmpty then none
  else
    match cs.dropWhile isIdChar with
    | [] => some ⟨id, []⟩
    | '[' :: rest =>
        let label := rest.takeWhile (· != ']')
        if rest.dropWhile (· != ']') = [']'] then some ⟨id, label⟩ else none
    | _ => none

/-- A chain of nodes. -/
structure Statement where
  first : Reference
  links : List (Operator × Reference)
  deriving DecidableEq, Repr

namespace Statement

/-- Reads the nodes between operators; the first piece that is no node is the error. -/
def readLinks : List (Operator × List Char) →
    Except (List Char) (List (Operator × Reference))
  | [] => .ok []
  | (op, piece) :: rest =>
      match Reference.parse? piece with
      | none => .error piece
      | some node => (readLinks rest).map ((op, node) :: ·)

/-- Reads a line that has neither a comment nor blanks at its ends. -/
def parse (cs : List Char) : Except (List Char) Statement :=
  let (first, rest) := pieces cs
  match Reference.parse? first with
  | none => .error first
  | some node => (readLinks rest).map (⟨node, ·⟩)

/-- All nodes of the chain. -/
def references (s : Statement) : List Reference := s.first :: s.links.map (·.2)

/-- Each operator with the ids at its sides. -/
def joins (s : Statement) : List (Operator × Id × Id) :=
  (s.links.zip (s.references.map (·.id))).map fun ((op, right), left) => (op, left, right.id)

end Statement
end Flow
end CellSketch
