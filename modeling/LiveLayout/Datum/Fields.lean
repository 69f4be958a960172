import LiveLayout.Datum.Basic
/-!
# Named fields

A record with fixed fields is given either as members under their names or
as a list in the order of the fields. Either way the decoder receives one
slot a field, filled or empty, and asks each for a value. Members of other
names are passed over; a field given twice is refused.
-/

namespace LiveLayout

namespace Fields

variable {α : Type}

/-- One value put into the slot of its field: none if the slot is taken. -/
def place? (slots : List (Option α)) (index : Nat) (value : α) : Option (List (Option α)) :=
  match slots[index]? with
  | some none => some (slots.set index (some value))
  | _ => none

/-- The slots filled from members whose keys were looked up already:
`none` for a key that names no field. -/
def ofMembers? : List (Option α) → List (Option Nat × α) → Option (List (Option α))
  | slots, [] => some slots
  | slots, (none, _) :: rest => ofMembers? slots rest
  | slots, (some index, value) :: rest =>
    (place? slots index value).bind fun slots => ofMembers? slots rest

/-- The slots filled from a list in the order of the fields; a longer list
is refused. -/
def ofList? (count : Nat) (items : List α) : Option (List (Option α)) :=
  if items.length ≤ count then
    some (items.map some ++ List.replicate (count - items.length) none)
  else none

/-- The value of a field, or its default where it is absent. -/
def valueOr {β : Type} (default : β) (decode : α → Option β) : Option α → Option β
  | none => some default
  | some value => decode value

/-- The value of a field that has to be there. -/
def value? {β : Type} (decode : α → Option β) (slot : Option α) : Option β :=
  slot.bind decode

/-- A member that is left out where there is no value. -/
def optionalMember {β γ : Type} (name : String) (encode : β → γ) : Option β → List (String × γ)
  | none => []
  | some value => [(name, encode value)]

end Fields

namespace Datum

/-- **The field a key stands for**: a text by its name, bytes by the
spelling of the name, a natural number by its position, and no field for
any other key of these kinds. A key of another kind is refused. -/
def fieldOf? (names : List String) : Datum → Option (Option Nat)
  | text s => some (names.idxOf? s)
  | bytes b => some (names.findIdx? fun name => spelling name == b)
  | natural n => some (if n.toNat < names.length then some n.toNat else none)
  | _ => none

/-- The slots of a record with these fields. -/
def fields? (names : List String) : Datum → Option (List (Option Datum))
  | record members =>
    (members.mapM fun m => (fieldOf? names m.1).map fun index => (index, m.2)).bind
      (Fields.ofMembers? (names.map fun _ => none))
  | d => d.items?.bind (Fields.ofList? names.length)

end Datum

end LiveLayout
