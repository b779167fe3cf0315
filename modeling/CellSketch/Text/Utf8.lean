/-!
# Utf8 — reading bytes as text

The decoder is a machine that takes one byte at a time.  Between characters it waits for a lead
byte; inside one it knows how many continuation bytes are owed and in which range the next must
lie, so overlong forms, surrogates and code points beyond `10ffff` are refused at their second
byte.  A refusal names the bytes of the character read so far.
-/

namespace CellSketch
namespace Text
namespace Utf8

/-- Why bytes are no text. -/
inductive Reason where
  | invalidStart
  | invalidContinuation
  | unexpectedEnd
  deriving DecidableEq, Repr

/-- Where reading stopped: the position and number of the offending bytes and the first of them. -/
structure Refusal where
  position : Nat
  length : Nat
  lead : Nat
  reason : Reason
  deriving DecidableEq, Repr

/-- A character of which some bytes are still owed. -/
structure Pending where
  lead : Nat
  /-- Bytes read so far. -/
  taken : Nat
  /-- Bytes owed. -/
  owed : Nat
  /-- Least and greatest next byte. -/
  least : Nat
  greatest : Nat
  /-- The bits read so far. -/
  bits : Nat
  deriving DecidableEq, Repr

/-- The machine between two bytes; the text read so far is kept in reverse. -/
structure State where
  position : Nat := 0
  pending : Option Pending := none
  text : List Char := []
  deriving DecidableEq, Repr

/-- What a lead byte beyond ASCII promises. -/
def pendingOf? (b : Nat) : Option Pending :=
  if 0xc2 ≤ b ∧ b ≤ 0xdf then some ⟨b, 1, 1, 0x80, 0xbf, b - 0xc0⟩
  else if b = 0xe0 then some ⟨b, 1, 2, 0xa0, 0xbf, 0⟩
  else if b = 0xed then some ⟨b, 1, 2, 0x80, 0x9f, 0xd⟩
  else if 0xe1 ≤ b ∧ b ≤ 0xef then some ⟨b, 1, 2, 0x80, 0xbf, b - 0xe0⟩
  else if b = 0xf0 then some ⟨b, 1, 3, 0x90, 0xbf, 0⟩
  else if 0xf1 ≤ b ∧ b ≤ 0xf3 then some ⟨b, 1, 3, 0x80, 0xbf, b - 0xf0⟩
  else if b = 0xf4 then some ⟨b, 1, 3, 0x80, 0x8f, 4⟩
  else none

def step (s : State) (byte : UInt8) : Except Refusal State :=
  let b := byte.toNat
  match s.pending with
  | none =>
      if b < 0x80 then .ok { s with position := s.position + 1, text := Char.ofNat b :: s.text }
      else
        match pendingOf? b with
        | some p => .ok { s with position := s.position + 1, pending := some p }
        | none => .error ⟨s.position, 1, b, .invalidStart⟩
  | some p =>
      if b < p.least ∨ p.greatest < b then
        .error ⟨s.position - p.taken, p.taken, p.lead, .invalidContinuation⟩
      else
        let bits := p.bits * 64 + (b - 0x80)
        if p.owed ≤ 1 then
          .ok ⟨s.position + 1, none, Char.ofNat bits :: s.text⟩
        else
          .ok { s with
            position := s.position + 1
            pending := some ⟨p.lead, p.taken + 1, p.owed - 1, 0x80, 0xbf, bits⟩ }

/-- The text that the bytes encode. -/
def decode (bytes : List UInt8) : Except Refusal (List Char) := do
  let s ← bytes.foldlM step {}
  match s.pending with
  | none => .ok s.text.reverse
  | some p => .error ⟨s.position - p.taken, p.taken, p.lead, .unexpectedEnd⟩

end Utf8
end Text
end CellSketch
