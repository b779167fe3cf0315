import CellSketch.Number.Measure

/-!
# Written — the characters of texts and of written numbers

A number is written with digits, a sign and a point, or as the word for infinity or for what is no
number.  None of these characters means anything to the languages that drawings are written in.

* `Spelled` — a text whose characters are all of a kind;
* `Measure.numeral_fixedText`, `Measure.numeral_trimmedText` — written numbers are numerals.
-/

namespace CellSketch

/-- A text whose characters are all of a kind. -/
def Spelled (P : Char → Prop) (s : String) : Prop := ∀ c ∈ s.toList, P c

namespace Spelled

variable {P : Char → Prop} {s t : String}

instance [DecidablePred P] : Decidable (Spelled P s) := List.decidableBAll P s.toList

theorem append_iff : Spelled P (s ++ t) ↔ Spelled P s ∧ Spelled P t := by
  rw [Spelled, String.toList_append]
  exact List.forall_mem_append

theorem ofChar {c : Char} (hc : P c) : Spelled P (String.ofList [c]) := by
  rw [Spelled, String.toList_ofList]
  exact List.forall_mem_singleton.2 hc

theorem intercalate (hspace : P ' ') {texts : List String} (h : ∀ t ∈ texts, Spelled P t) :
    Spelled P (" ".intercalate texts) := by
  rw [Spelled, String.toList_intercalate]
  induction texts with
  | nil => exact List.forall_mem_nil _
  | cons first rest ih =>
      obtain ⟨hfirst, hrest⟩ := List.forall_mem_cons.1 h
      cases rest with
      | nil =>
          rw [List.map_singleton, List.intercalate_singleton]
          exact hfirst
      | cons second rest =>
          rw [List.map_cons, List.map_cons, List.intercalate_cons_cons]
          exact List.forall_mem_append.2
            ⟨List.forall_mem_append.2 ⟨hfirst, List.forall_mem_singleton.2 hspace⟩, ih hrest⟩

end Spelled

namespace Number

/-- The characters of written numbers. -/
def numeralChars : List Char := "0123456789.-infa".toList

/-- A text that is written with the characters of numbers alone. -/
def Numeral (cs : List Char) : Prop := ∀ c ∈ cs, c ∈ numeralChars

namespace Numeral

instance (cs : List Char) : Decidable (Numeral cs) := List.decidableBAll (· ∈ numeralChars) cs

variable {cs ds : List Char}

theorem spelled {P : Char → Prop} (hP : ∀ c ∈ numeralChars, P c) {s : String}
    (h : Numeral s.toList) : Spelled P s := fun c hc => hP c (h c hc)

theorem append (h : Numeral cs) (h' : Numeral ds) : Numeral (cs ++ ds) :=
  List.forall_mem_append.2 ⟨h, h'⟩

theorem cons {c : Char} (hc : c ∈ numeralChars) (h : Numeral cs) : Numeral (c :: cs) :=
  List.forall_mem_cons.2 ⟨hc, h⟩

theorem of_subset (h : cs ⊆ ds) (h' : Numeral ds) : Numeral cs := fun c hc => h' c (h hc)

theorem mem_of_isDigit {c : Char} (h : c.isDigit = true) : c ∈ numeralChars := by
  have hbounds : 48 ≤ c.toNat ∧ c.toNat ≤ 57 := by
    rw [Char.isDigit, Bool.and_eq_true, decide_eq_true_iff, decide_eq_true_iff] at h
    exact ⟨UInt32.le_iff_toNat_le.1 h.1, UInt32.le_iff_toNat_le.1 h.2⟩
  have hdigits : ∀ n < 10, Char.ofNat (48 + n) ∈ numeralChars := by decide
  rw [← Char.ofNat_toNat c, ← Nat.add_sub_cancel' hbounds.1]
  exact hdigits _ (by omega)

theorem digits (n : Nat) : Numeral (Decimal.digits n) := fun _ hc =>
  mem_of_isDigit (Nat.isDigit_of_mem_toDigits (by decide) (by decide) hc)

theorem toString_nat (n : Nat) : Numeral (toString n).toList := by
  rw [Nat.toString_eq_ofList_toDigits, String.toList_ofList]
  exact digits n

theorem toString_int (n : Int) : Numeral (toString n).toList := by
  cases n with
  | ofNat n => exact toString_nat n
  | negSucc n =>
      change Numeral ("-" ++ toString (n + 1)).toList
      rw [String.toList_append]
      exact cons (by decide) (toString_nat _)

/-! ## Decimal places -/

theorem paddedDigits (places n : Nat) : Numeral (Decimal.paddedDigits places n) := by
  refine append (fun c hc => ?_) (digits n)
  rw [List.eq_of_mem_replicate hc]
  decide

theorem sign (negative : Bool) : Numeral (if negative then ['-'] else []) := by
  cases negative <;> decide

theorem fixedDigits (places : Nat) (negative : Bool) (n : Nat) :
    Numeral (Decimal.fixedDigits places negative n) :=
  ((sign negative).append (digits _)).append (cons (by decide) (paddedDigits _ _))

theorem write {finite : Bool → Nat → List Char} (h : ∀ negative n, Numeral (finite negative n))
    (x : Decoded) : Numeral (Decimal.write finite x) := by
  match x with
  | .finite negative units => exact h negative units
  | .infinite false => exact (by decide : Numeral "inf".toList)
  | .infinite true => exact (by decide : Numeral "-inf".toList)
  | .notANumber => exact (by decide : Numeral "nan".toList)

theorem fixedChars (places : Nat) (x : Float) : Numeral (Decimal.fixedChars places x) :=
  .write (fun _ _ => .fixedDigits _ _ _) _

theorem stripRight (c : Char) (h : Numeral cs) : Numeral (Decimal.stripRight c cs) :=
  of_subset (fun _ hd => List.mem_reverse.1 (List.dropWhile_subset _ (List.mem_reverse.1 hd))) h

theorem trim (h : Numeral cs) : Numeral (Decimal.trim cs) := by
  rw [Decimal.trim]
  split
  · decide
  · exact (h.stripRight '0').stripRight '.'

end Numeral

namespace Measure

theorem numeral_fixedText (m : Measure) : Numeral m.fixedText.toList := by
  rw [fixedText, Decimal.fixed, String.toList_ofList]
  exact .fixedChars _ _

theorem numeral_trimmedText (m : Measure) : Numeral m.trimmedText.toList := by
  rw [trimmedText, Decimal.trimmed, String.toList_ofList]
  exact (Numeral.fixedChars _ _).trim

end Measure

end Number
end CellSketch
