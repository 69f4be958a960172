import LiveLayout.Binary.Format
/-!
# Data as a document holds it

A document of either encoding, text or packed bytes, is read into a tree of
plain data first, before anyone asks what it means; what a record is made
of is decided by its decoder. The tree keeps what the encodings can tell
apart: two widths of floating-point numbers, texts and byte strings, and a
record's members in their order, repeated keys included.

A part that is well formed but has no value (a number out of range, a text
with half a character in it, nesting past the limit) is `invalid`. It does
no harm where a decoder passes over it and fails the decoder that reads it.
-/

namespace LiveLayout

/-- One piece of data. -/
inductive Datum where
  | null
  | bool (b : Bool)
  | natural (n : UInt64)
  | integer (i : Int64)
  | single (x : Binary32)
  | double (x : Binary64)
  | text (s : String)
  | bytes (b : List UInt8)
  | list (items : List Datum)
  | record (members : List (Datum × Datum))
  | invalid

namespace Datum

/-- A record whose keys are texts. -/
def named (members : List (String × Datum)) : Datum :=
  .record (members.map fun m => (.text m.1, m.2))

/-- The text that bytes spell, if they do. -/
def spelled? (b : List UInt8) : Option String :=
  String.fromUTF8? ⟨b.toArray⟩

/-- The bytes a text is spelled with. -/
def spelling (s : String) : List UInt8 :=
  s.toUTF8.data.toList

/-- The bytes a text is spelled with spell that text. -/
theorem spelled?_spelling (s : String) : spelled? (spelling s) = some s := by
  have hbytes : (⟨(spelling s).toArray⟩ : ByteArray) = s.toUTF8 := by
    simp only [spelling, Array.toArray_toList]
  unfold spelled?
  rw [hbytes]
  unfold String.fromUTF8?
  rw [String.toUTF8_eq_toByteArray, dif_pos s.isValidUTF8]
  rfl

/-- A text, or bytes that spell one. -/
def text? : Datum → Option String
  | text s => some s
  | bytes b => spelled? b
  | _ => none

/-- A truth value. -/
def bool? : Datum → Option Bool
  | bool b => some b
  | _ => none

/-- Any number, in the 64-bit floating-point format. -/
def double? : Datum → Option Binary64
  | natural n => some (.ofNat n.toNat)
  | integer i => some (.ofInt i.toInt)
  | single x => some x.convert
  | double x => some x
  | _ => none

/-- Any number, in the 32-bit floating-point format. -/
def single? : Datum → Option Binary32
  | natural n => some (.ofNat n.toNat)
  | integer i => some (.ofInt i.toInt)
  | single x => some x
  | double x => some x.convert
  | _ => none

/-- An integer of 64 bits with a sign. -/
def signed? : Datum → Option Int64
  | natural n => if n ≤ Int64.maxValue.toUInt64 then some n.toInt64 else none
  | integer i => some i
  | _ => none

/-- An integer of 64 bits without a sign. -/
def unsigned? : Datum → Option UInt64
  | natural n => some n
  | integer i => if 0 ≤ i.toInt then some (UInt64.ofNat i.toInt.toNat) else none
  | _ => none

/-- The items of a list; the items of a byte string are its bytes. -/
def items? : Datum → Option (List Datum)
  | list items => some items
  | bytes b => some (b.map fun byte => natural byte.toUInt64)
  | _ => none

/-- A datum that may be absent: null is none. -/
def optional? {α : Type} (decode : Datum → Option α) : Datum → Option (Option α)
  | null => some none
  | d => (decode d).map some

/-- An integer with the sign it has: `natural` from zero upwards. -/
def ofSigned (i : Int64) : Datum :=
  if 0 ≤ i.toInt then .natural (UInt64.ofNat i.toInt.toNat) else .integer i

end Datum

end LiveLayout
