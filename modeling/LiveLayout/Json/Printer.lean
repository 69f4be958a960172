import LiveLayout.Binary.Notation
import LiveLayout.Json.Value
/-!
# Writing JSON text

Data as compact JSON text: no blanks, members in their order, numbers in
their shortest digits. A number that is not finite has no text and is
written as null.
-/

namespace LiveLayout

namespace Json

/-- One character of a string. Marks, backslashes and controls are escaped;
everything else stands for itself. -/
def escape (c : Char) : String :=
  if c = '"' then "\\\""
  else if c = '\\' then "\\\\"
  else if c = '\x08' then "\\b"
  else if c = '\x0c' then "\\f"
  else if c = '\n' then "\\n"
  else if c = '\r' then "\\r"
  else if c = '\t' then "\\t"
  else if c.toNat < 0x20 then "\\u" ++ Text.paddedHexadecimal 4 c.toNat
  else c.toString

/-- A string between its marks. -/
def renderString (s : String) : String :=
  "\"" ++ String.join (s.toList.map escape) ++ "\""

end Json

namespace Datum

mutual

/-- **The text of a datum.** -/
def render : Datum → String
  | .null => "null"
  | .bool true => "true"
  | .bool false => "false"
  | .natural n => Text.decimal n.toNat
  | .integer i => Text.signedDecimal i.toInt
  | .single x => (Layout.single.number? x).getD "null"
  | .double x => (Layout.double.number? x).getD "null"
  | .text s => Json.renderString s
  | .bytes b => "[" ++ ",".intercalate (b.map fun byte => Text.decimal byte.toNat) ++ "]"
  | .list items => "[" ++ ",".intercalate (renderItems items) ++ "]"
  | .record members => "\x7b" ++ ",".intercalate (renderMembers members) ++ "\x7d"
  | .invalid => "null"

/-- The texts of a list's items. -/
def renderItems : List Datum → List String
  | [] => []
  | item :: rest => render item :: renderItems rest

/-- The texts of a record's members. -/
def renderMembers : List (Datum × Datum) → List String
  | [] => []
  | (key, value) :: rest => (render key ++ ":" ++ render value) :: renderMembers rest

end

end Datum

/-- The text of a value. -/
def Json.render (j : Json) : String :=
  j.toDatum.render

end LiveLayout
