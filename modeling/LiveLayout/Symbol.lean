import LiveLayout.Datum.Fields
/-!
# Symbols and codes

Attributes and relations are named in a document either by a symbol or by
an integer code. Which of the two was given is kept, whether or not it
names anything.
-/

namespace LiveLayout

/-- A vocabulary word as a document gives it. -/
inductive Symbol where
  | code (value : Int64)
  | name (text : String)
deriving DecidableEq

namespace Symbol

/-- An integer is a code and a text a name; nothing else is a symbol. -/
def ofDatum? (d : Datum) : Option Symbol :=
  match d.signed? with
  | some value => some (.code value)
  | none => d.text?.map .name

/-- The symbol as it was given. -/
def toDatum : Symbol → Datum
  | code value => .ofSigned value
  | name text => .text text

end Symbol

end LiveLayout
