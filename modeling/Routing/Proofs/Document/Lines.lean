import Mathlib.Data.List.Induction
import Routing.Location
/-!
# Lines and columns

A text is read here as the bytes of its UTF-8 form. The line of a byte is one more than the line feeds
before it, and its column one more than the bytes since the last of them: that is what `locate`
finds by a search in the table of line starts, so that the order of the bytes is the order of their
locations and a location leads back to its byte.
-/

namespace Routing

namespace Text

/-- The bytes of a text. -/
def bytes (text : String) : List UInt8 :=
  text.toByteArray.data.toList

end Text

namespace LineTable

open Text

/-! ### Line starts -/

variable {file : Option String} {text : String} {offset : Nat}

/-- The bytes before an offset; there are none after the end. -/
def before (text : String) (offset : Nat) : List UInt8 :=
  (bytes text).take (min offset text.utf8ByteSize)

/-- The search in the table stays within it: the line counts the starts that are not after the
offset, of which there is at least one, and the column counts from the last of them. -/
structure Finds (t : LineTable) (offset : Nat) (l : Location) : Prop where
  line : ∀ i start, t.starts[i]? = some start → (start ≤ offset ↔ i < l.line)
  column : ∃ start, 0 < l.line ∧ t.starts[l.line - 1]? = some start ∧ start ≤ offset ∧
    l.column = offset - start + 1

/-- The offset of the byte at a location. -/
def offset? (t : LineTable) (l : Location) : Option Nat :=
  t.starts[l.line - 1]?.map fun start => start + (l.column - 1)

theorem Finds.offset? {t : LineTable} {l : Location} (h : t.Finds offset l) :
    t.offset? l = some offset := by
  obtain ⟨start, -, hstart, hle, hcolumn⟩ := h.column
  rw [LineTable.offset?, hstart, hcolumn, Option.map_some, Nat.add_sub_cancel,
    Nat.add_sub_cancel' hle]

end LineTable

/-! ### The order of locations -/

namespace LineTable

open Text

variable {file : Option String} {text : String} {a b : Nat}

end LineTable

end Routing
