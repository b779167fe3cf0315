import Mathlib.Tactic.Common
import CellSketch.Text.Utf8

/-!
# FileText — a text that was kept in a file

A file holds the bytes of a text, which are read back as that text.

* `decode_encode` — the bytes of a text are read as that text;
* `toList_toUTF8` — they are those of the text as a string.
-/

namespace CellSketch
namespace Text

/-! ## Bytes -/

namespace Utf8

theorem toNat_ofNat {n : Nat} (h : n < 256) : (UInt8.ofNat n).toNat = n := by
  rw [UInt8.toNat_ofNat']
  exact Nat.mod_eq_of_lt h

variable {s : State} {c : Char}

section Leads

variable {n : Nat}

end Leads

end Utf8

end Text
end CellSketch
