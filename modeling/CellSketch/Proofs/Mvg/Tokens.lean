import Mathlib.Data.List.Forall2
import CellSketch.Proofs.Canvas.Inked
import CellSketch.Proofs.Canvas.Names
import CellSketch.Proofs.Number.Written

/-!
# Tokens — drawn text stays inside its command

A document is handed on as one text, its commands joined by spaces.  That text is read from left to
right, as words and quoted texts, and nothing that was drawn changes where a command ends: text and
outlines are quoted, numbers have no quotes, and names are free of them by assumption.

* `Mvg.tokens` — reading words and quoted texts;
* `Mvg.ReadsAs` — a text that is read alone, whatever follows behind a space;
* `Mvg.readsAs_text` — so is every command whose names have no quotes;
* `Mvg.strings_stay_quoted` — drawn strings are read back, each at the end of its own command.
-/

namespace CellSketch

open Number

namespace Mvg

/-! ## Reading -/

/-- What is read from commands: a word, or what a quoted text stands for. -/
inductive Token where
  | word (cs : List Char)
  | quoted (text : List Char)
  deriving DecidableEq, Repr

/-- A character of a word. -/
def isBare (c : Char) : Bool := c != ' ' && c != '\''

theorem length_of_unquoteBody {cs text after : List Char}
    (h : unquoteBody cs = some (text, after)) : after.length < cs.length := by
  fun_induction unquoteBody cs generalizing text after with
  | case1 => cases h
  | case2 rest =>
      cases h
      exact Nat.lt_succ_self _
  | case3 c rest ih =>
      obtain ⟨⟨inner, rest'⟩, hinner, heq⟩ := Option.map_eq_some_iff.1 h
      cases heq
      exact (ih hinner).trans (Nat.lt_succ_of_lt (Nat.lt_succ_self _))
  | case4 c rest _ _ ih =>
      obtain ⟨⟨inner, rest'⟩, hinner, heq⟩ := Option.map_eq_some_iff.1 h
      cases heq
      exact (ih hinner).trans (Nat.lt_succ_self _)

/-- Reads words, which end before spaces and quotes, and quoted texts, which end at the first quote
that no backslash stands for.  There is no reading if that quote is missing. -/
def tokens (cs : List Char) : Option (List Token) :=
  match cs with
  | [] => some []
  | c :: rest =>
      if c = ' ' then tokens rest
      else if c = '\'' then
        match _h : unquoteBody rest with
        | some (text, after) => (tokens after).map (.quoted text :: ·)
        | none => none
      else (tokens (rest.dropWhile isBare)).map (.word (c :: rest.takeWhile isBare) :: ·)
termination_by cs.length
decreasing_by
  · exact Nat.lt_succ_self _
  · exact (length_of_unquoteBody _h).trans (Nat.lt_succ_self _)
  · exact Nat.lt_succ_of_le (List.dropWhile_suffix _).length_le

/-! ### Quoted texts -/

/-- What is quoted for a character. -/
def escape (c : Char) : List Char := if c = '\\' ∨ c = '\'' then ['\\', c] else [c]

/-- The quotes that the second replacement finds are those of the text: the first one puts
backslashes only. -/
theorem quote_flatMap (text : List Char) :
    quote text = '\'' :: text.flatMap escape ++ ['\''] := by
  rw [quote, replaceChar, replaceChar, List.flatMap_assoc]
  refine congrArg (fun body => '\'' :: body ++ ['\'']) (List.flatMap_congr fun c _ => ?_)
  by_cases hslash : c = '\\'
  · rw [hslash]
    rfl
  · rw [if_neg hslash, List.flatMap_singleton, escape]
    by_cases hquote : c = '\''
    · rw [if_pos hquote, if_pos (Or.inr hquote), hquote]
    · rw [if_neg hquote, if_neg (not_or.2 ⟨hslash, hquote⟩)]

/-- Quoting is undone by reading, whatever follows. -/
theorem unquote_quote_append (text rest : List Char) :
    unquote (quote text ++ rest) = some (text, rest) := by
  rw [quote_flatMap, List.append_assoc, List.cons_append, unquote]
  induction text with
  | nil => rfl
  | cons c text ih =>
      rw [List.flatMap_cons, List.append_assoc, escape]
      by_cases hescaped : c = '\\' ∨ c = '\''
      · -- the backslash before the character is taken with it
        rw [if_pos hescaped, List.cons_append, List.cons_append, List.nil_append, unquoteBody, ih]
        rfl
      · rw [if_neg hescaped]
        rw [not_or] at hescaped
        rw [List.singleton_append, unquoteBody.eq_4 _ _ hescaped.2 fun _ _ h => absurd h hescaped.1,
          ih]
        rfl

theorem tokens_quote_append (text tail : List Char) :
    tokens (quote text ++ tail) = (tokens tail).map (.quoted text :: ·) := by
  have hunquote := unquote_quote_append text tail
  rw [quote, List.append_assoc, List.cons_append] at hunquote ⊢
  rw [unquote] at hunquote
  rw [tokens, if_neg (by decide), if_pos rfl]
  split
  · rename_i read after hread
    rw [hread] at hunquote
    cases hunquote
    rfl
  · rename_i hread
    rw [hread] at hunquote
    cases hunquote

/-- A character that is quoted as it is. -/
def Harmless (c : Char) : Prop := c ≠ '\\' ∧ c ≠ '\''

instance : DecidablePred Harmless := fun c => inferInstanceAs (Decidable (c ≠ '\\' ∧ c ≠ '\''))

theorem quote_eq {text : List Char} (h : ∀ c ∈ text, Harmless c) :
    quote text = '\'' :: text ++ ['\''] := by
  have hsame : text.flatMap escape = text := by
    rw [List.flatMap_congr (f := escape) (g := fun c => [c]) fun c hc => if_neg (not_or.2 (h c hc))]
    exact List.flatMap_singleton' text
  rw [quote_flatMap, hsame]

/-! ## Texts that are read alone -/

/-- A text that is read as some tokens and ends with the last of them, if a space or nothing
follows. -/
def ReadsAs (cs : List Char) (read : List Token) : Prop :=
  ∀ tail : List Char, tail.head?.all (· == ' ') →
    tokens (cs ++ tail) = (tokens tail).map (read ++ ·)

namespace ReadsAs

variable {cs ds : List Char} {read more : List Token}

theorem tokens_eq (h : ReadsAs cs read) : tokens cs = some read := by
  have hnil := h [] rfl
  rw [List.append_nil] at hnil
  rw [hnil, tokens, Option.map_some, List.append_nil]

theorem nil : ReadsAs [] [] := fun tail _ => by simp

theorem quote (text : List Char) : ReadsAs (Mvg.quote text) [.quoted text] := fun tail _ =>
  tokens_quote_append text tail

theorem word (hne : cs ≠ []) (h : ∀ c ∈ cs, isBare c = true) : ReadsAs cs [.word cs] := by
  intro tail htail
  obtain ⟨c, rest, rfl⟩ := List.exists_cons_of_ne_nil hne
  obtain ⟨hc, hrest⟩ := List.forall_mem_cons.1 h
  have hcs : c ≠ ' ' ∧ c ≠ '\'' := by simpa [isBare] using hc
  -- the word stops where the tail starts
  have htake : (rest ++ tail).takeWhile isBare = rest ∧
      (rest ++ tail).dropWhile isBare = tail := by
    rw [List.takeWhile_append_of_pos hrest, List.dropWhile_append_of_pos hrest]
    match tail, htail with
    | [], _ => simp
    | d :: tail, htail =>
        have hd : d = ' ' := by simpa using htail
        simp [hd, isBare]
  rw [List.cons_append, tokens, if_neg hcs.1, if_neg hcs.2, htake.1, htake.2]
  rfl

/-- Texts with a space between them are read one after the other. -/
theorem space_append (h : ReadsAs cs read) (h' : ReadsAs ds more) :
    ReadsAs (cs ++ ' ' :: ds) (read ++ more) := by
  intro tail htail
  rw [List.append_assoc, List.cons_append, h _ rfl, tokens, if_pos rfl, h' tail htail,
    Option.map_map]
  exact congrArg (Option.map · _) (funext fun _ => (List.append_assoc ..).symm)

/-- A text without quotes that starts with no space is a word, or starts with one and a space. -/
theorem exists_word {c : Char} {rest : List Char} (hspace : c ≠ ' ') (h : '\'' ∉ c :: rest) :
    ∃ word, ReadsAs word [.word word] ∧
      (c :: rest = word ∨ ∃ after, c :: rest = word ++ ' ' :: after) := by
  obtain ⟨hc, hrest⟩ := not_or.1 (mt List.mem_cons.2 h)
  refine ⟨c :: rest.takeWhile isBare, ?_, ?_⟩
  · exact .word (List.cons_ne_nil _ _) <| List.forall_mem_cons.2
      ⟨by simp [isBare, hspace, Ne.symm hc], fun d hd => List.mem_takeWhile_imp hd⟩
  · have hsplit := List.takeWhile_append_dropWhile (p := isBare) (l := rest)
    cases hafter : rest.dropWhile isBare with
    | nil =>
        rw [hafter, List.append_nil] at hsplit
        exact .inl (congrArg (c :: ·) hsplit.symm)
    | cons d after =>
        -- what ends the word is a space, as it is no quote
        have hd : isBare d = false := by
          have hhead := List.head?_dropWhile_not isBare rest
          rw [hafter] at hhead
          simpa using hhead
        have hdspace : d = ' ' := by
          by_contra hother
          have hquote : d = '\'' := by simpa [isBare, hother] using hd
          refine hrest (hquote ▸ ?_)
          rw [← hsplit, hafter]
          simp
        rw [hafter, hdspace] at hsplit
        exact .inr ⟨after, congrArg (c :: ·) hsplit.symm⟩

/-- A text without quotes is read alone. -/
theorem exists_of_plain (h : '\'' ∉ cs) : ∃ read, ReadsAs cs read := by
  induction hlength : cs.length using Nat.strong_induction_on generalizing cs with
  | _ n ih =>
      match cs, h with
      | [], _ => exact ⟨[], .nil⟩
      | c :: rest, h =>
          by_cases hspace : c = ' '
          · obtain ⟨read, hread⟩ := ih rest.length (by simp [← hlength])
              (fun hquote => h (List.mem_cons_of_mem c hquote)) rfl
            exact ⟨read, hspace ▸ nil.space_append hread⟩
          · obtain ⟨word, hword, htext | ⟨after, htext⟩⟩ := exists_word hspace h
            · exact ⟨_, htext ▸ hword⟩
            · rw [htext] at h hlength ⊢
              obtain ⟨read, hread⟩ := ih after.length (by simp [← hlength]; omega)
                (fun hquote => h (List.mem_append_right word (List.mem_cons_of_mem ' ' hquote))) rfl
              exact ⟨_, hword.space_append hread⟩

/-- Texts joined by spaces are read one after the other. -/
theorem intercalate {texts : List (List Char)} {reads : List (List Token)}
    (h : List.Forall₂ ReadsAs texts reads) : ReadsAs ([' '].intercalate texts) reads.flatten := by
  induction h with
  | nil => exact .nil
  | @cons text read texts reads hfirst hrest ih =>
      cases texts with
      | nil =>
          cases hrest
          rw [List.intercalate_singleton, List.flatten_cons, List.flatten_nil, List.append_nil]
          exact hfirst
      | cons next texts =>
          rw [List.intercalate_cons_cons, List.append_assoc, List.flatten_cons]
          exact hfirst.space_append ih

end ReadsAs

/-! ## Commands -/

namespace Spelled

variable {P : Char → Prop}

theorem pair (hP : ∀ c ∈ ',' :: numeralChars, P c) (a b : Measure) :
    Spelled P (Mvg.pair a b) := by
  obtain ⟨hcomma, hnumeral⟩ := List.forall_mem_cons.1 hP
  exact Spelled.append_iff.2 ⟨Spelled.append_iff.2 ⟨a.numeral_fixedText.spelled hnumeral,
    Spelled.ofChar hcomma⟩, b.numeral_fixedText.spelled hnumeral⟩

theorem point (hP : ∀ c ∈ ',' :: numeralChars, P c) (p : Point Measure) :
    Spelled P (Mvg.point p) := pair hP p.x p.y

theorem setting (hspace : P ' ') {name : String} {value : Option String} (hname : Spelled P name)
    (h : ∀ v ∈ value.toList, Spelled P v) : ∀ t ∈ Mvg.setting name value, Spelled P t :=
  List.forall_mem_map.2 fun v hv =>
    Spelled.append_iff.2 ⟨Spelled.append_iff.2 ⟨hname, Spelled.ofChar hspace⟩, h v hv⟩

end Spelled

/-- A text without quotes. -/
def Unquoted (s : String) : Prop := Spelled (· ≠ '\'') s

namespace Unquoted

instance (s : String) : Decidable (Unquoted s) := inferInstanceAs (Decidable (Spelled _ s))

variable {s t : String}

theorem append_iff : Unquoted (s ++ t) ↔ Unquoted s ∧ Unquoted t := Spelled.append_iff

theorem pair (a b : Measure) : Unquoted (Mvg.pair a b) := Spelled.pair (by decide) a b

theorem point (p : Point Measure) : Unquoted (Mvg.point p) := Spelled.point (by decide) p

/-- Settings are written without quotes if their names and their other texts are. -/
theorem setting {name : String} {value : Option String} (hname : Unquoted name)
    (h : ∀ v ∈ value.toList, Unquoted v) : ∀ t ∈ Mvg.setting name value, Unquoted t :=
  Spelled.setting (by decide) hname h

theorem number (value : Option Measure) :
    ∀ v ∈ (value.map Measure.fixedText).toList, Unquoted v := by
  cases value with
  | none => exact List.forall_mem_nil _
  | some m => exact List.forall_mem_singleton.2 (m.numeral_fixedText.spelled (by decide))

theorem strokeText {change : StrokeChange Measure} (h : ∀ n ∈ change.names, Unquoted n) :
    Unquoted (Mvg.strokeText change) := by
  have hsmooth : ∀ v ∈ (change.smooth.map fun b => if b then "1" else "0").toList, Unquoted v := by
    cases change.smooth with
    | none => exact List.forall_mem_nil _
    | some b => cases b <;> decide
  refine Spelled.intercalate (by decide) (List.forall_mem_append.2 ⟨List.forall_mem_append.2
    ⟨List.forall_mem_append.2 ⟨?_, ?_⟩, ?_⟩, ?_⟩)
  · exact setting (by decide) hsmooth
  · exact setting (by decide) (number _)
  · exact setting (by decide) h
  · exact setting (by decide) (number _)

theorem fillText {change : FillChange Measure} (h : ∀ n ∈ change.names, Unquoted n) :
    Unquoted (Mvg.fillText change) :=
  Spelled.intercalate (by decide)
    (List.forall_mem_append.2 ⟨setting (by decide) h, setting (by decide) (number _)⟩)

theorem fontText {change : FontChange Measure} (h : ∀ n ∈ change.names, Unquoted n) :
    Unquoted (Mvg.fontText change) :=
  Spelled.intercalate (by decide)
    (List.forall_mem_append.2 ⟨setting (by decide) h, setting (by decide) (number _)⟩)

/-- A text without quotes is read alone. -/
theorem exists_readsAs (h : Unquoted s) : ∃ read, ReadsAs s.toList read :=
  ReadsAs.exists_of_plain fun hquote => h _ hquote rfl

/-- So is one with an outline behind it, between quotes of which it has none. -/
theorem exists_readsAs_outline (h : Unquoted s) (ht : Spelled Harmless t) :
    ∃ read, ReadsAs (s ++ " '" ++ t ++ "'").toList read := by
  obtain ⟨read, hread⟩ := h.exists_readsAs
  have hboth := hread.space_append (.quote t.toList)
  rw [quote_eq ht] at hboth
  have htext : (s ++ " '" ++ t ++ "'").toList =
      s.toList ++ ' ' :: ('\'' :: t.toList ++ ['\'']) := by
    simp only [String.toList_append, List.append_assoc]
    rfl
  exact ⟨_, htext ▸ hboth⟩

end Unquoted

/-- What is read from a command; text and outlines are read as they were drawn. -/
def Command.tokens : Command Measure → List Token
  | .shape (.text p text) =>
      [.word "text".toList, .word (point p).toList, .quoted text.toList]
  | .shape (.path outline) => [.word "path".toList, .quoted outline.toList]
  | c => (Mvg.tokens c.text.toList).getD []

/-- The characters of points are quoted as they are. -/
theorem harmless_point (p : Point Measure) : Spelled Harmless (point p) :=
  Spelled.point (by decide) p

theorem exists_readsAs_curve (a b c d : Point Measure) :
    ∃ read, ReadsAs (shapeText (.curve a b c d)).toList read := by
  have hread := (by decide : Unquoted "path").exists_readsAs_outline
    (t := "M " ++ point a ++ " C " ++ point b ++ " " ++ point c ++ " " ++ point d) (by
      simp only [Spelled.append_iff, harmless_point, and_true]
      decide)
  have htext : shapeText (.curve a b c d) = "path" ++ " '" ++
      ("M " ++ point a ++ " C " ++ point b ++ " " ++ point c ++ " " ++ point d) ++ "'" := by
    have hstart : "path 'M " = "path" ++ " '" ++ "M " := by decide
    unfold shapeText
    simp only [hstart, String.append_assoc]
  exact htext ▸ hread

theorem exists_readsAs_head {c : Point Measure} {rx ry : Measure} {angle : Angle Measure}
    {fill : String} (hfill : Unquoted fill) :
    ∃ read, ReadsAs (shapeText (.head c rx ry angle fill)).toList read := by
  obtain ⟨texts, htexts, hharmless⟩ : ∃ texts, shapeText (.head c rx ry angle fill) =
      "fill " ++ fill ++ " path 'M " ++ " ".intercalate texts ++ " Z'" ∧
        ∀ t ∈ texts, Spelled Harmless t := by
    refine ⟨_, rfl, ?_⟩
    split
    · refine List.forall_mem_cons.2 ⟨harmless_point _, List.forall_mem_cons.2 ⟨by decide, ?_⟩⟩
      exact List.forall_mem_map.2 fun corner _ => harmless_point corner
    · exact List.forall_mem_nil _
  have hread := Unquoted.exists_readsAs_outline (s := "fill " ++ fill ++ " path")
    (t := "M " ++ " ".intercalate texts ++ " Z") (by
      simp only [Unquoted.append_iff, hfill, and_true]
      decide) (by
      simp only [Spelled.append_iff, Spelled.intercalate (by decide) hharmless, and_true]
      decide)
  have htext : shapeText (.head c rx ry angle fill) = "fill " ++ fill ++ " path" ++ " '" ++
      ("M " ++ " ".intercalate texts ++ " Z") ++ "'" := by
    rw [htexts, (by decide : " path 'M " = " path" ++ " '" ++ "M "),
      (by decide : " Z'" = " Z" ++ "'")]
    simp only [String.append_assoc]
  exact htext ▸ hread

/-- Outside drawn text and outlines, shapes are written without quotes, except around an outline of
numbers. -/
theorem exists_readsAs_shape {s : Shape Measure} (h : ∀ n ∈ s.ownFill.toList, Unquoted n)
    (htext : ∀ p text, s ≠ .text p text) (hpath : ∀ outline, s ≠ .path outline) :
    ∃ read, ReadsAs (shapeText s).toList read := by
  have hfill : ∀ fill, s.ownFill = some fill → Unquoted fill := fun fill hs => h fill (by simp [hs])
  cases s with
  | text p text => exact (htext p text rfl).elim
  | path outline => exact (hpath outline rfl).elim
  | curve a b c d => exact exists_readsAs_curve a b c d
  | head c rx ry angle fill => exact exists_readsAs_head (hfill fill rfl)
  | rectangle c w height radius =>
      apply Unquoted.exists_readsAs
      rcases radius with _ | ⟨rx, ry⟩
      all_goals
        unfold shapeText
        simp only [Unquoted.append_iff, Unquoted.point, Unquoted.pair, and_true]
        decide
  | ellipse c rx ry fill =>
      apply Unquoted.exists_readsAs
      unfold shapeText
      simp only [Unquoted.append_iff, Unquoted.point, Unquoted.pair, hfill fill rfl, and_true]
      decide
  | line | arc =>
      apply Unquoted.exists_readsAs
      unfold shapeText
      simp only [Unquoted.append_iff, Unquoted.point, Unquoted.pair, and_true]
      decide

/-- A command whose names have no quotes is read alone. -/
theorem readsAs_text {c : Command Measure} (h : ∀ n ∈ c.names, Unquoted n) :
    ReadsAs c.text.toList c.tokens := by
  have hgetD (hread : ∃ read, ReadsAs c.text.toList read) :
      ReadsAs c.text.toList ((Mvg.tokens c.text.toList).getD []) := by
    obtain ⟨read, hread⟩ := hread
    rwa [hread.tokens_eq]
  cases c with
  | shape s =>
      cases s with
      | text p text =>
          have hpoint : ∀ c ∈ (point p).toList, isBare c = true := Spelled.point (by decide) p
          have hne : (point p).toList ≠ [] := by simp [point]
          have hread := (ReadsAs.word (by decide) (by decide : Spelled (isBare · = true) "text"))
            |>.space_append ((ReadsAs.word hne hpoint).space_append (.quote text.toList))
          have htext : (Command.shape (.text p text)).text.toList =
              "text".toList ++ ' ' :: ((point p).toList ++ ' ' :: quote text.toList) := by
            change ("text " ++ point p ++ " " ++ quoted text).toList = _
            simp [quoted]
          rw [htext]
          exact hread
      | path outline =>
          have hread := (ReadsAs.word (by decide) (by decide : Spelled (isBare · = true) "path"))
            |>.space_append (.quote outline.toList)
          have htext : (Command.shape (.path outline)).text.toList =
              "path".toList ++ ' ' :: quote outline.toList := by
            change ("path " ++ quoted outline).toList = _
            simp [quoted]
          rw [htext]
          exact hread
      | _ => exact hgetD (exists_readsAs_shape h (fun _ _ => nofun) (fun _ => nofun))
  | push | pop => exact hgetD (Unquoted.exists_readsAs (by decide))
  | translate dx dy =>
      exact hgetD (Unquoted.append_iff.2 ⟨by decide, .pair dx dy⟩).exists_readsAs
  | frame width height =>
      exact hgetD (Unquoted.append_iff.2 ⟨by decide, .pair width height⟩).exists_readsAs
  | stroke change => exact hgetD (Unquoted.strokeText h).exists_readsAs
  | fill change => exact hgetD (Unquoted.fillText h).exists_readsAs
  | font change => exact hgetD (Unquoted.fontText h).exists_readsAs
  | raw text => exact hgetD (h text (List.mem_singleton.2 rfl)).exists_readsAs

/-- Commands whose names have no quotes are read one after the other. -/
theorem tokens_argument {commands : List (Command Measure)}
    (h : ∀ c ∈ commands, ∀ n ∈ c.names, Unquoted n) :
    tokens (Document.commands (commands.map Command.text)).argument.toList =
      some (commands.flatMap Command.tokens) := by
  have hreads : List.Forall₂ ReadsAs (commands.map fun c => c.text.toList)
      (commands.map Command.tokens) := by
    rw [List.forall₂_map_left_iff, List.forall₂_map_right_iff, List.forall₂_same]
    exact fun c hc => readsAs_text (h c hc)
  rw [Document.argument, String.toList_intercalate, List.map_map, List.flatMap_def]
  exact (ReadsAs.intercalate hreads).tokens_eq

/-! ## Drawn strings -/

/-- The string of a command that is written from one. -/
def Command.string? : Command Measure → Option String
  | .shape s => s.string?
  | _ => none

/-- Every string between quotes stands behind a word of its own command and ends it. -/
theorem Command.tokens_of_string? {c : Command Measure} {s : String} (h : c.string? = some s) :
    ∃ words, c.tokens = words ++ [.quoted s.toList] := by
  cases c with
  | shape shape =>
      cases shape with
      | text p text =>
          cases h
          exact ⟨[_, _], rfl⟩
      | path outline =>
          cases h
          exact ⟨[_], rfl⟩
      | _ => cases h
  | _ => cases h

/-- The strings of commands are those of the shapes that are read from them. -/
theorem strings_of_read {β : Type} {move : β → Measure → Measure → β}
    {commands : List (Command Measure)} {here : β} {saved : List β}
    {shown : List (Shape Measure × β)} (h : read move commands here saved = some shown) :
    commands.filterMap Command.string? = shown.filterMap (·.1.string?) := by
  induction commands generalizing here saved shown with
  | nil =>
      cases saved with
      | nil =>
          cases h
          rfl
      | cons => cases h
  | cons c rest ih =>
      cases c with
      | pop =>
          cases saved with
          | nil => cases h
          | cons before saved => exact ih h
      | shape s =>
          obtain ⟨more, hmore, rfl⟩ := Option.map_eq_some_iff.1 h
          simp only [List.filterMap_cons, Command.string?, ih hmore]
      | frame width height =>
          obtain ⟨more, hmore, rfl⟩ := Option.map_eq_some_iff.1 h
          exact (ih hmore : rest.filterMap Command.string? = more.filterMap (·.1.string?))
      | push | translate | stroke | fill | font | raw => exact ih h

end Mvg

/-- The document of a sketch for commands is that of its canvas. -/
theorem Sketch.exists_commands {s : Sketch} (hformat : s.format ≠ .svg) {document : Document}
    (h : s.document = .ok document) :
    ∃ commands, Mvg.document s.canvas s.colors.foreground s.colors.fill = .ok commands ∧
      document = .commands (commands.map Mvg.Command.text) := by
  unfold Sketch.document at h
  split at h
  · exact absurd (by assumption) hformat
  · obtain ⟨commands, hcommands, rfl⟩ := exists_of_map_eq_ok h
    refine ⟨commands, ?_, rfl⟩
    cases hdocument : Mvg.document s.canvas s.colors.foreground s.colors.fill with
    | error fault =>
        rw [hdocument] at hcommands
        cases hcommands
    | ok list =>
        rw [hdocument] at hcommands
        cases hcommands
        rfl

namespace Mvg

/-- Drawn strings stay in their commands.  Whatever is done with a sketch, the commands of its
document, joined by spaces, are read one after the other as each of them is read alone.  The strings
among them are those of the shapes that the canvas shows, and drawing puts there what it is given;
each is read as it was drawn and ends its command. -/
theorem strings_stay_quoted {format : Format} {colors : Colors} {actions : List Action}
    (hformat : format ≠ .svg) (hcolors : ∀ n ∈ colors.names, Unquoted n)
    (hactions : ∀ action ∈ actions, ∀ n ∈ action.names, Unquoted n) {document : Document}
    (h : ((Sketch.empty format colors).run actions).document = .ok document) :
    (∃ commands : List (Command Measure),
      document = .commands (commands.map Command.text) ∧
      tokens document.argument.toList = some (commands.flatMap Command.tokens) ∧
      (∀ c ∈ commands, tokens c.text.toList = some c.tokens) ∧
      (∀ c ∈ commands, ∀ s, c.string? = some s → ∃ words, c.tokens = words ++ [.quoted s.toList]) ∧
      commands.filterMap Command.string? =
        (((Sketch.empty format colors).run actions).canvas.shown (fun _ _ _ => ()) ()).filterMap
          (·.1.string?)) ∧
    (∀ (c : Context Measure) (ps : List (Primitive Measure)), (c.drawAll ps).fault = none →
      (c.drawAll ps).state.strings = c.strings ++ ps.filterMap Primitive.string?) ∧
    ∀ text rest : List Char, unquote (quote text ++ rest) = some (text, rest) := by
  refine ⟨?_, fun c ps => c.strings_drawAll, unquote_quote_append⟩
  have hrun : ((Sketch.empty format colors).run actions).format = format :=
    Sketch.format_run _ actions
  have hsame : ((Sketch.empty format colors).run actions).colors = colors :=
    Sketch.colors_run _ actions
  have hnamed := Sketch.named_run (P := Unquoted) hformat (by decide) (by decide) hcolors hactions
  generalize (Sketch.empty format colors).run actions = s at *
  obtain ⟨commands, hcommands, rfl⟩ := s.exists_commands (hrun ▸ hformat) h
  simp only [Colors.names, List.forall_mem_cons, ← hsame] at hcolors
  have hall := named_document (by decide) (by decide) hnamed hcolors.2.1 hcolors.2.2.1 commands
    hcommands
  refine ⟨commands, rfl, tokens_argument hall, fun c hc => (readsAs_text (hall c hc)).tokens_eq,
    fun c _ s => c.tokens_of_string?, strings_of_read (read_document hcommands ?_ ())⟩
  exact fun _ _ _ _ => rfl

/-- A sketch with text and an outline with quotes and backslashes, also at their ends, on two
contexts. -/
def spiky : Sketch :=
  (Sketch.empty .mvg { background := "white", foreground := "black" }).run
    [.perform (.work 0 (.draw [.text ⟨0, 0⟩ "it\'s \\\\\'", .path "M 0 0\\"])),
      .perform (.addContext 0),
      .perform (.work 1 (.draw [.text ⟨0, 1⟩ "\' pop graphic-context \'"]))]

theorem strings_stay_quoted_spiky :
    ∃ (document : Document) (commands : List (Command Measure)),
      spiky.document = .ok document ∧
      tokens document.argument.toList = some (commands.flatMap Command.tokens) ∧
      commands.filterMap Command.string? =
        ["it\'s \\\\\'", "M 0 0\\", "\' pop graphic-context \'"] := by
  have hwritten : spiky.document.toOption.isSome = true := by decide +kernel
  obtain ⟨document, hdocument⟩ : ∃ document, spiky.document = .ok document := by
    cases h : spiky.document with
    | ok document => exact ⟨document, rfl⟩
    | error e =>
        rw [h] at hwritten
        cases hwritten
  obtain ⟨⟨commands, -, htokens, -, -, hstrings⟩, -⟩ :=
    strings_stay_quoted (by decide) (by decide) (by decide) hdocument
  exact ⟨document, commands, hdocument, htokens, hstrings.trans (by decide +kernel)⟩

end Mvg

end CellSketch
