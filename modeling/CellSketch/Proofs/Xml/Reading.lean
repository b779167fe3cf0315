import CellSketch.Proofs.Number.Written
import CellSketch.Xml

/-!
# Reading — elements read back from their text

A reader for a part of the markup language that is enough for documents: tags with attributes, and
text directly behind the tag that opens an element.  What it reads is well-formed, since it refuses
end tags that do not match, attributes that are given twice, markup characters that are not escaped,
references that are not known, and anything but one element.

* `Xml.read?` — the element of a text, if there is one;
* `Xml.read?_write` — what was written is read back, if names are names.
-/

namespace CellSketch
namespace Xml

/-! ## Characters -/

/-- The characters that a document may hold: white space, and everything from the space on but
surrogates and two code points that are no characters. -/
def IsLegal (c : Char) : Prop :=
  c.toNat = 0x9 ∨ c.toNat = 0xA ∨ c.toNat = 0xD ∨ (0x20 ≤ c.toNat ∧ c.toNat ≤ 0xD7FF) ∨
    (0xE000 ≤ c.toNat ∧ c.toNat ≤ 0xFFFD) ∨ (0x10000 ≤ c.toNat ∧ c.toNat ≤ 0x10FFFF)

instance : DecidablePred IsLegal := fun _ => by
  unfold IsLegal
  infer_instance

def isNameChar (c : Char) : Bool := c.isAlpha || c.isDigit || c == '-'

def isName : List Char → Bool
  | [] => false
  | c :: rest => c.isAlpha && rest.all isNameChar

/-! ## References -/

/-- What stands between the ampersand and the semicolon of a reference, and what it stands for. -/
def references : List (List Char × Char) :=
  [("amp".toList, '&'), ("lt".toList, '<'), ("gt".toList, '>'), ("quot".toList, '"'),
    ("#13".toList, '\r'), ("#10".toList, '\n'), ("#09".toList, '\t')]

/-- Replaces references.  The first argument is what was read of a reference so far, backwards. -/
def unescapeFrom : Option (List Char) → List Char → Option (List Char)
  | none, [] => some []
  | some _, [] => none
  | none, c :: rest =>
      if c = '&' then unescapeFrom (some []) rest
      else (unescapeFrom none rest).map (c :: ·)
  | some read, c :: rest =>
      if c = ';' then
        (references.lookup read.reverse).bind fun d => (unescapeFrom none rest).map (d :: ·)
      else unescapeFrom (some (c :: read)) rest

/-- The text that characters without markup stand for. -/
def unescape (cs : List Char) : Option (List Char) := unescapeFrom none cs

/-! ## Tags -/

inductive Tag where
  | opening (name : String) (attributes : List (String × String))
  /-- An element with nothing in it. -/
  | empty (name : String) (attributes : List (String × String))
  | closing (name : String)
  deriving DecidableEq, Repr

/-- The name of an attribute, from what stands before its value. -/
def key? : List Char → Option String
  | ' ' :: rest =>
      let name := rest.takeWhile isNameChar
      if isName name ∧ rest.dropWhile isNameChar = ['='] then some (String.ofList name) else none
  | _ => none

/-- The attributes of a tag that was cut at its quotes, and whether it is that of an element with
nothing in it. -/
def attributes? : List (List Char) → Option (List (String × String) × Bool)
  | [[]] => some ([], false)
  | [[' ', '/']] => some ([], true)
  | key :: value :: rest => do
      let name ← key? key
      let text ← unescape value
      let (others, isEmpty) ← attributes? rest
      some ((name, String.ofList text) :: others, isEmpty)
  | _ => none

/-- A tag from what stands between its angle brackets. -/
def tag? : List Char → Option Tag
  | '/' :: name => if isName name then some (.closing (String.ofList name)) else none
  | cs => do
      let name := cs.takeWhile isNameChar
      let (attributes, isEmpty) ← attributes? ((cs.dropWhile isNameChar).splitOn '"')
      if isName name ∧ (attributes.map (·.1)).Nodup then
        if isEmpty then some (.empty (String.ofList name) attributes)
        else some (.opening (String.ofList name) attributes)
      else none

/-- A tag and the text after it, from what stands between two opening angle brackets. -/
def part? (cs : List Char) : Option (Tag × String) :=
  match cs.dropWhile (· ≠ '>') with
  | [] => none
  | _ :: text =>
      if '>' ∈ text then none
      else do
        let tag ← tag? (cs.takeWhile (· ≠ '>'))
        let content ← unescape text
        some (tag, String.ofList content)

/-! ## Elements -/

/-- An element that is not closed yet. -/
structure Open where
  name : String
  attributes : List (String × String)
  text : String
  children : List Xml

namespace Open

def close (o : Open) : Xml := .element o.name o.attributes o.text o.children

def add (o : Open) (x : Xml) : Open := { o with children := o.children ++ [x] }

end Open

/-- The open elements, innermost first, after a tag with its text.  Text may only stand behind the
tag that opens an element. -/
def step : List Open → Tag × String → Option (List Open)
  | outer, (.opening name attributes, text) => some (⟨name, attributes, text, []⟩ :: outer)
  | top :: outer, (.empty name attributes, text) =>
      if text = "" then some (top.add (.element name attributes "" []) :: outer) else none
  | top :: next :: outer, (.closing name, text) =>
      if text = "" ∧ top.name = name then some (next.add top.close :: outer) else none
  | _, _ => none

/-- What stands around a document. -/
def outermost : Open := ⟨"", [], "", []⟩

/-- The element that tags with their texts make up, if it is just one. -/
def build? (parts : List (Tag × String)) : Option Xml :=
  match parts.foldlM step [outermost] with
  | some [⟨_, _, _, [x]⟩] => some x
  | _ => none

/-- The element of a text, if there is one and nothing else. -/
def read? (cs : List Char) : Option Xml :=
  match cs.splitOn '<' with
  | [] :: parts => (parts.mapM part?).bind build?
  | _ => none

/-! ## Parts of an element -/

mutual
/-- The tags of an element with their texts. -/
def parts : Xml → List (Tag × String)
  | element name attributes text children =>
      if text.isEmpty && children.isEmpty then [(.empty name attributes, "")]
      else (.opening name attributes, text) :: (partsAll children ++ [(.closing name, "")])

def partsAll : List Xml → List (Tag × String)
  | [] => []
  | x :: rest => parts x ++ partsAll rest
end

/-- What stands between the angle brackets of a tag. -/
def Tag.write : Tag → List Char
  | .opening name attributes => name.toList ++ (attributes.map writeAttribute).flatMap String.toList
  | .empty name attributes =>
      name.toList ++ (attributes.map writeAttribute).flatMap String.toList ++ [' ', '/']
  | .closing name => '/' :: name.toList

/-- A tag with its text, from behind its opening angle bracket. -/
def writePart (p : Tag × String) : List Char := p.1.write ++ '>' :: escapeText p.2.toList

mutual
theorem toList_write : ∀ x : Xml, x.write.toList = x.parts.flatMap ('<' :: writePart ·)
  | element name attributes text children => by
      rw [write, parts]
      split
      · simp [writePart, Tag.write, escapeText, String.toList_join]
      · rw [List.flatMap_cons, List.flatMap_append, ← toList_writeAll children]
        simp [writePart, Tag.write, escapeText, String.toList_join]

theorem toList_writeAll : ∀ xs : List Xml,
    (writeAll xs).toList = (partsAll xs).flatMap ('<' :: writePart ·)
  | [] => rfl
  | x :: rest => by
      rw [writeAll, partsAll, String.toList_append, List.flatMap_append, toList_write x,
        toList_writeAll rest]
end

/-! ## Reading back -/

section Escapes

variable {escape : Char → List Char}

/-- A text is read back if each of its characters is. -/
theorem unescape_flatMap
    (h : ∀ c rest, unescapeFrom none (escape c ++ rest) = (unescapeFrom none rest).map (c :: ·))
    (cs : List Char) : unescape (cs.flatMap escape) = some cs := by
  unfold unescape
  induction cs with
  | nil => rfl
  | cons c rest ih =>
      rw [List.flatMap_cons, h, ih]
      rfl

theorem unescapeFrom_self {c : Char} (h : c ≠ '&') (rest : List Char) :
    unescapeFrom none ([c] ++ rest) = (unescapeFrom none rest).map (c :: ·) := by
  rw [List.singleton_append, unescapeFrom, if_neg h]

theorem unescape_escapeText (cs : List Char) : unescape (escapeText cs) = some cs := by
  refine unescape_flatMap (fun c rest => ?_) cs
  unfold escapeTextChar
  split
  · rfl
  · rfl
  · rfl
  · exact unescapeFrom_self (by assumption) rest

theorem unescape_escapeAttribute (cs : List Char) : unescape (escapeAttribute cs) = some cs := by
  refine unescape_flatMap (fun c rest => ?_) cs
  unfold escapeAttributeChar
  split
  case h_8 => exact unescapeFrom_self (by assumption) rest
  all_goals rfl

/-- No character that ends text or a tag is left in text. -/
theorem ne_of_mem_escapeText {cs : List Char} {d : Char} (h : d ∈ escapeText cs) :
    d ≠ '<' ∧ d ≠ '>' := by
  obtain ⟨c, -, hd⟩ := List.mem_flatMap.1 h
  unfold escapeTextChar at hd
  split at hd
  case h_4 =>
    rw [List.mem_singleton.1 hd]
    exact ⟨by assumption, by assumption⟩
  all_goals
    clear h
    revert d
    decide

/-- Nor is one left that ends a value. -/
theorem ne_of_mem_escapeAttribute {cs : List Char} {d : Char} (h : d ∈ escapeAttribute cs) :
    d ≠ '<' ∧ d ≠ '>' ∧ d ≠ '"' := by
  obtain ⟨c, -, hd⟩ := List.mem_flatMap.1 h
  unfold escapeAttributeChar at hd
  split at hd
  case h_8 =>
    rw [List.mem_singleton.1 hd]
    exact ⟨by assumption, by assumption, by assumption⟩
  all_goals
    clear h
    revert d
    decide

end Escapes

/-! ### Names -/

/-- Names start tags and attributes, and no tag has two attributes of one name. -/
def Tag.WellNamed : Tag → Prop
  | .opening name attributes | .empty name attributes =>
      isName name.toList ∧ (∀ a ∈ attributes, isName a.1.toList) ∧ (attributes.map (·.1)).Nodup
  | .closing name => isName name.toList

mutual
/-- All tags of an element have names. -/
def WellNamed : Xml → Prop
  | element name attributes _ children =>
      (Tag.opening name attributes).WellNamed ∧ WellNamedAll children

def WellNamedAll : List Xml → Prop
  | [] => True
  | x :: rest => x.WellNamed ∧ WellNamedAll rest
end

theorem isNameChar_of_isName {cs : List Char} (h : isName cs = true) :
    ∀ c ∈ cs, isNameChar c = true := by
  cases cs with
  | nil => cases h
  | cons c rest =>
      rw [isName, Bool.and_eq_true, List.all_eq_true] at h
      exact List.forall_mem_cons.2 ⟨by simp [isNameChar, h.1], h.2⟩

theorem ne_of_isNameChar {c : Char} (h : isNameChar c = true) :
    c ≠ '<' ∧ c ≠ '>' ∧ c ≠ '"' ∧ c ≠ '/' := by
  refine ⟨?_, ?_, ?_, ?_⟩
  all_goals
    rintro rfl
    revert h
    decide

/-- A name ends where no character of it follows. -/
theorem takeWhile_name {name : List Char} (h : isName name = true) (rest : List Char)
    (hrest : rest.head?.all (!isNameChar ·)) :
    (name ++ rest).takeWhile isNameChar = name ∧ (name ++ rest).dropWhile isNameChar = rest := by
  rw [List.takeWhile_append_of_pos (isNameChar_of_isName h),
    List.dropWhile_append_of_pos (isNameChar_of_isName h)]
  cases rest with
  | nil => simp
  | cons c rest =>
      have hc : isNameChar c = false := by simpa using hrest
      simp [hc]

theorem key?_name {name : String} (h : isName name.toList = true) :
    key? (' ' :: (name.toList ++ ['='])) = some name := by
  have hsplit := takeWhile_name h ['='] (by decide)
  rw [key?, hsplit.1, hsplit.2, if_pos ⟨h, rfl⟩, String.ofList_toList]

/-! ### Tags -/

/-- The text of an attribute, cut where its quotes are. -/
theorem writeAttribute_append (a : String × String) (tail : List Char) :
    (writeAttribute a).toList ++ tail =
      (' ' :: (a.1.toList ++ ['='])) ++ '"' :: (escapeAttribute a.2.toList ++ '"' :: tail) := by
  simp [writeAttribute]

theorem attributes?_write {attributes : List (String × String)} {last : List Char} {isEmpty : Bool}
    (h : ∀ a ∈ attributes, isName a.1.toList = true) (hlast : '"' ∉ last)
    (hend : attributes? [last] = some ([], isEmpty)) :
    attributes? (((attributes.map writeAttribute).flatMap String.toList ++ last).splitOn '"') =
      some (attributes, isEmpty) := by
  induction attributes with
  | nil =>
      rw [List.map_nil, List.flatMap_nil, List.nil_append, List.splitOn_eq_singleton hlast, hend]
  | cons a rest ih =>
      obtain ⟨ha, hrest⟩ := List.forall_mem_cons.1 h
      -- neither the name nor the value has a quote in it
      have hkey : '"' ∉ ' ' :: (a.1.toList ++ ['=']) := by
        simp only [List.mem_cons, List.mem_append, List.not_mem_nil, or_false, not_or]
        exact ⟨by decide, fun hquote =>
          (ne_of_isNameChar (isNameChar_of_isName ha _ hquote)).2.2.1 rfl, by decide⟩
      have hvalue : '"' ∉ escapeAttribute a.2.toList := fun hquote =>
        (ne_of_mem_escapeAttribute hquote).2.2 rfl
      rw [List.map_cons, List.flatMap_cons, List.append_assoc, writeAttribute_append,
        List.splitOn_append_cons_self_of_not_mem hkey,
        List.splitOn_append_cons_self_of_not_mem hvalue]
      simp only [attributes?, key?_name ha, unescape_escapeAttribute, ih hrest,
        Option.bind_eq_bind, Option.bind_some, String.ofList_toList]

theorem head?_writeAttributes (attributes : List (String × String)) {last : List Char}
    (hlast : last.head?.all (!isNameChar ·)) :
    ((attributes.map writeAttribute).flatMap String.toList ++ last).head?.all
      (!isNameChar ·) := by
  cases attributes with
  | nil => exact hlast
  | cons a rest =>
      rw [List.map_cons, List.flatMap_cons, List.append_assoc, writeAttribute_append]
      exact (by decide : (!isNameChar ' ') = true)

/-- A tag that starts with a name and attributes. -/
theorem tag?_start {name : String} {attributes : List (String × String)}
    (h : (Tag.opening name attributes).WellNamed) (last : List Char) (isEmpty : Bool)
    (hlast : '"' ∉ last) (hhead : last.head?.all (!isNameChar ·))
    (hend : attributes? [last] = some ([], isEmpty)) :
    tag? (name.toList ++ ((attributes.map writeAttribute).flatMap String.toList ++ last)) =
      some (if isEmpty then .empty name attributes else .opening name attributes) := by
  obtain ⟨hname, hattributes, hnodup⟩ := h
  have hsplit := takeWhile_name hname _ (head?_writeAttributes attributes hhead)
  unfold tag?
  split
  · -- a name does not start with a slash
    rename_i rest heq
    obtain ⟨c, cs, hcs⟩ : ∃ c cs, name.toList = c :: cs := by
      cases hcs : name.toList with
      | nil =>
          rw [hcs] at hname
          cases hname
      | cons c cs => exact ⟨c, cs, rfl⟩
    have hc := isNameChar_of_isName hname c (by simp [hcs])
    rw [hcs, List.cons_append, List.cons.injEq] at heq
    exact absurd heq.1 (ne_of_isNameChar hc).2.2.2
  · rw [hsplit.1, hsplit.2, attributes?_write hattributes hlast hend]
    simp only [Option.bind_eq_bind, Option.bind_some, hname, hnodup, and_self, if_true,
      String.ofList_toList]
    split <;> rfl

/-- A tag with names is read back. -/
theorem tag?_write {t : Tag} (h : t.WellNamed) : tag? t.write = some t := by
  cases t with
  | opening name attributes =>
      have hread := tag?_start h [] false (by decide) rfl rfl
      rwa [List.append_nil] at hread
  | empty name attributes =>
      have hread := tag?_start h [' ', '/'] true (by decide) rfl rfl
      rwa [← List.append_assoc] at hread
  | closing name =>
      have hname : isName name.toList = true := h
      rw [Tag.write, tag?, if_pos hname, String.ofList_toList]

theorem ne_of_mem_name {name : List Char} (h : isName name = true) {d : Char} (hd : d ∈ name) :
    d ≠ '<' ∧ d ≠ '>' :=
  have hne := ne_of_isNameChar (isNameChar_of_isName h d hd)
  ⟨hne.1, hne.2.1⟩

theorem ne_of_mem_attributes {attributes : List (String × String)}
    (h : ∀ a ∈ attributes, isName a.1.toList = true) {d : Char}
    (hd : d ∈ (attributes.map writeAttribute).flatMap String.toList) : d ≠ '<' ∧ d ≠ '>' := by
  obtain ⟨_, htext, hd⟩ := List.mem_flatMap.1 hd
  obtain ⟨a, ha, rfl⟩ := List.mem_map.1 htext
  rw [← List.append_nil (writeAttribute a).toList, writeAttribute_append] at hd
  simp only [List.mem_append, List.mem_cons, List.not_mem_nil, or_false] at hd
  rcases hd with (rfl | hd | rfl) | rfl | hd | rfl
  · decide
  · exact ne_of_mem_name (h a ha) hd
  · decide
  · decide
  · exact ⟨(ne_of_mem_escapeAttribute hd).1, (ne_of_mem_escapeAttribute hd).2.1⟩
  · decide

/-- Tags have no angle brackets inside. -/
theorem ne_of_mem_write {t : Tag} (h : t.WellNamed) {d : Char} (hd : d ∈ t.write) :
    d ≠ '<' ∧ d ≠ '>' := by
  cases t with
  | opening name attributes =>
      rcases List.mem_append.1 hd with hd | hd
      · exact ne_of_mem_name h.1 hd
      · exact ne_of_mem_attributes h.2.1 hd
  | empty name attributes =>
      rcases List.mem_append.1 hd with hd | hd
      · rcases List.mem_append.1 hd with hd | hd
        · exact ne_of_mem_name h.1 hd
        · exact ne_of_mem_attributes h.2.1 hd
      · exact (by decide : ∀ d ∈ [' ', '/'], d ≠ '<' ∧ d ≠ '>') d hd
  | closing name =>
      rcases List.mem_cons.1 hd with rfl | hd
      · decide
      · exact ne_of_mem_name h hd

/-! ### Parts -/

theorem part?_write {p : Tag × String} (h : p.1.WellNamed) : part? (writePart p) = some p := by
  -- the first closing angle bracket is that of the tag
  have htag : ∀ d ∈ p.1.write, decide (d ≠ '>') = true := fun d hd =>
    decide_eq_true (ne_of_mem_write h hd).2
  have htext : '>' ∉ escapeText p.2.toList := fun hd => (ne_of_mem_escapeText hd).2 rfl
  have htake : (writePart p).takeWhile (· ≠ '>') = p.1.write := by
    rw [writePart, List.takeWhile_append_of_pos htag]
    simp
  have hdrop : (writePart p).dropWhile (· ≠ '>') = '>' :: escapeText p.2.toList := by
    rw [writePart, List.dropWhile_append_of_pos htag]
    simp
  rw [part?, hdrop]
  dsimp only
  rw [if_neg htext, htake, tag?_write h, unescape_escapeText]
  simp only [Option.bind_eq_bind, Option.bind_some, String.ofList_toList]

theorem mapM_part? {parts : List (Tag × String)} (h : ∀ p ∈ parts, p.1.WellNamed) :
    (parts.map writePart).mapM part? = some parts := by
  induction parts with
  | nil => rfl
  | cons p rest ih =>
      obtain ⟨hp, hrest⟩ := List.forall_mem_cons.1 h
      rw [List.map_cons, List.mapM_cons, part?_write hp, ih hrest]
      rfl

theorem not_mem_writePart {p : Tag × String} (h : p.1.WellNamed) : '<' ∉ writePart p := by
  intro hmem
  rcases List.mem_append.1 hmem with hmem | hmem
  · exact (ne_of_mem_write h hmem).1 rfl
  · rcases List.mem_cons.1 hmem with heq | hmem
    · exact absurd heq (by decide)
    · exact (ne_of_mem_escapeText hmem).1 rfl

/-- Parts are found by cutting at the opening angle brackets in front of them. -/
theorem splitOn_write {parts : List (Tag × String)} (h : ∀ p ∈ parts, p.1.WellNamed)
    {before : List Char} (hbefore : '<' ∉ before) :
    (before ++ parts.flatMap ('<' :: writePart ·)).splitOn '<' =
      before :: parts.map writePart := by
  induction parts generalizing before with
  | nil => rw [List.flatMap_nil, List.append_nil, List.splitOn_eq_singleton hbefore, List.map_nil]
  | cons p rest ih =>
      obtain ⟨hp, hrest⟩ := List.forall_mem_cons.1 h
      rw [List.flatMap_cons, List.cons_append, List.splitOn_append_cons_self_of_not_mem hbefore,
        ih hrest (not_mem_writePart hp), List.map_cons]

/-! ### Elements -/

mutual
theorem wellNamed_parts : ∀ {x : Xml}, x.WellNamed → ∀ p ∈ x.parts, p.1.WellNamed
  | element name attributes text children, h => by
      obtain ⟨htag, hchildren⟩ := h
      rw [parts]
      split
      · exact List.forall_mem_singleton.2 htag
      · exact List.forall_mem_cons.2 ⟨htag, List.forall_mem_append.2
          ⟨wellNamed_partsAll hchildren, List.forall_mem_singleton.2 htag.1⟩⟩

theorem wellNamed_partsAll : ∀ {xs : List Xml}, WellNamedAll xs → ∀ p ∈ partsAll xs, p.1.WellNamed
  | [], _ => List.forall_mem_nil _
  | _ :: _, h => List.forall_mem_append.2 ⟨wellNamed_parts h.1, wellNamed_partsAll h.2⟩
end

mutual
/-- The parts of an element add it to the innermost open element. -/
theorem foldlM_parts : ∀ (x : Xml) (top : Open) (outer : List Open),
    x.parts.foldlM step (top :: outer) = some (top.add x :: outer)
  | element name attributes text children, top, outer => by
      rw [parts]
      split
      · rename_i hempty
        rw [Bool.and_eq_true, String.isEmpty_iff, List.isEmpty_iff] at hempty
        rw [hempty.1, hempty.2]
        rfl
      · rw [List.foldlM_cons, step, Option.bind_eq_bind, Option.bind_some, List.foldlM_append,
          foldlM_partsAll children]
        simp [step, Open.close, List.foldlM_cons]

theorem foldlM_partsAll : ∀ (xs : List Xml) (top : Open) (outer : List Open),
    (partsAll xs).foldlM step (top :: outer) =
      some ({ top with children := top.children ++ xs } :: outer)
  | [], top, outer => by simp [partsAll]
  | x :: rest, top, outer => by
      rw [partsAll, List.foldlM_append, foldlM_parts x, Option.bind_eq_bind, Option.bind_some,
        foldlM_partsAll rest]
      simp [Open.add]
end

/-- An element whose names are names is read back from its text. -/
theorem read?_write {x : Xml} (h : x.WellNamed) : read? x.write.toList = some x := by
  have hparts := wellNamed_parts h
  have hbuild : build? x.parts = some x := by
    rw [build?, foldlM_parts]
    rfl
  have hsplit := splitOn_write hparts (List.not_mem_nil (a := '<'))
  rw [List.nil_append] at hsplit
  rw [read?, toList_write, hsplit]
  dsimp only
  rw [mapM_part? hparts, Option.bind_some, hbuild]

end Xml
end CellSketch
