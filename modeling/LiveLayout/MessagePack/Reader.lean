import LiveLayout.MessagePack.Head
/-!
# Reading MessagePack data

One datum from the front of a byte string; what follows it is left alone.
Nesting is limited, and unlike in text the limit fails the whole read. A
text that is not spelled by its bytes is kept as bytes, and an extension
has no value here.
-/

namespace LiveLayout

namespace MessagePack

/-- How deep lists, records and extensions may nest. -/
def nestingLimit : Nat := 1023

/-- Data one after the other, `count` of them. -/
def readMany? (read? : List UInt8 → Option (Datum × List UInt8)) :
    Nat → List UInt8 → Option (List Datum × List UInt8)
  | 0, bytes => some ([], bytes)
  | count + 1, bytes =>
    match read? bytes with
    | none => none
    | some (d, rest) => (readMany? read? count rest).map fun read => (d :: read.1, read.2)

/-- Keys and values in turn, `count` pairs of them. -/
def readPairs? (read? : List UInt8 → Option (Datum × List UInt8)) :
    Nat → List UInt8 → Option (List (Datum × Datum) × List UInt8)
  | 0, bytes => some ([], bytes)
  | count + 1, bytes =>
    match read? bytes with
    | none => none
    | some (key, rest) =>
      match read? rest with
      | none => none
      | some (value, rest) =>
        (readPairs? read? count rest).map fun read => ((key, value) :: read.1, read.2)

/-- The bytes of a text as a datum. -/
def textDatum (bytes : List UInt8) : Datum :=
  match Datum.spelled? bytes with
  | some s => .text s
  | none => .bytes bytes

/-- **The datum at the front of a byte string**, with so many levels of
nesting to spare, and the rest behind it. -/
def readWithin? : Nat → List UInt8 → Option (Datum × List UInt8)
  | levels, bytes =>
    match readHead? bytes with
    | none => none
    | some (head, rest) =>
      match head, levels with
      | .scalar d, _ => some (d, rest)
      | .text length, _ => (split? length rest).map fun parts => (textDatum parts.1, parts.2)
      | .bytes length, _ => (split? length rest).map fun parts => (.bytes parts.1, parts.2)
      | _, 0 => none
      | .list count, levels + 1 =>
        (readMany? (readWithin? levels) count rest).map fun read => (.list read.1, read.2)
      | .record count, levels + 1 =>
        (readPairs? (readWithin? levels) count rest).map fun read => (.record read.1, read.2)
      | .extension length, _ + 1 =>
        (split? (length + 1) rest).map fun parts => (.invalid, parts.2)

/-- The datum at the front of a byte string. -/
def read? (bytes : List UInt8) : Option Datum :=
  (readWithin? nestingLimit bytes).map Prod.fst

end MessagePack

end LiveLayout
