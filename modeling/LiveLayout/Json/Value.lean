import LiveLayout.Datum.Fields
/-!
# JSON values

The loosely typed values of a change document, where the engine decides key
by key what to do with them. An object's members are kept in ascending
order of their keys, each key once, and that is the order in which they
take effect.
-/

namespace LiveLayout

/-- A number: an integer of 64 bits, without a sign or negative, or a
finite floating-point number. -/
inductive Json.Number where
  | natural (n : UInt64)
  | negative (i : Int64)
  | double (x : Binary64)
deriving DecidableEq

/-- A JSON value. -/
inductive Json where
  | null
  | bool (b : Bool)
  | number (n : Json.Number)
  | string (s : String)
  | array (items : List Json)
  | object (members : List (String × Json))

namespace Json

namespace Number

/-- The number as an integer of 64 bits with a sign, if it is given as an
integer and is in range. -/
def signed? : Number → Option Int64
  | natural n => if n ≤ Int64.maxValue.toUInt64 then some n.toInt64 else none
  | negative i => some i
  | double _ => none

/-- The number in the 64-bit floating-point format. -/
def toDouble : Number → Binary64
  | natural n => .ofNat n.toNat
  | negative i => .ofInt i.toInt
  | double x => x

/-- The number as a datum. -/
def toDatum : Number → Datum
  | natural n => .natural n
  | negative i => .integer i
  | double x => .double x

end Number

/-! ## Members in order -/

/-- A member put into its place; a member with the same key gives way. -/
def insertMember {α : Type} (key : String) (value : α) : List (String × α) → List (String × α)
  | [] => [(key, value)]
  | m :: rest =>
    if key < m.1 then (key, value) :: m :: rest
    else if key = m.1 then (key, value) :: rest
    else m :: insertMember key value rest

/-- Members in ascending order of their keys; of a repeated key the last
one stays. -/
def sortMembers {α : Type} (members : List (String × α)) : List (String × α) :=
  members.foldl (fun sorted m => insertMember m.1 m.2 sorted) []

/-- After a member is put into its place its key has its value, and every
other key the value it had. -/
theorem lookup_insertMember {α : Type} (key other : String) (value : α)
    (members : List (String × α)) :
    (insertMember key value members).lookup other =
      if other = key then some value else members.lookup other := by
  -- One member in front decides alone, or leaves it to the rest.
  have front (name : String) (held : α) (rest : List (String × α)) :
      List.lookup other ((name, held) :: rest) =
        if other = name then some held else rest.lookup other := by
    rw [List.lookup_cons]
    by_cases h : other = name
    · rw [if_pos h, beq_iff_eq.2 h]
    · rw [if_neg h, beq_eq_false_iff_ne.2 h]
  induction members with
  | nil => exact front key value []
  | cons m rest ih =>
    obtain ⟨name, held⟩ := m
    unfold insertMember
    split
    · exact front key value _
    · split
      · rename_i hkey
        obtain rfl : key = name := hkey
        rw [front, front]
        split <;> rfl
      · rename_i hne
        have hne : key ≠ name := hne
        rw [front, front, ih]
        by_cases h : other = name
        · rw [if_pos h, if_pos h, if_neg fun he => hne (he.symm.trans h)]
        · rw [if_neg h, if_neg h]

/-! ## Views -/

/-- The value under a key, if this is an object that has it. -/
def member? (key : String) : Json → Option Json
  | object members => members.lookup key
  | _ => none

/-- The text of a string. -/
def string? : Json → Option String
  | string s => some s
  | _ => none

/-- A truth value. -/
def bool? : Json → Option Bool
  | bool b => some b
  | _ => none

/-- The items of an array. -/
def array? : Json → Option (List Json)
  | array items => some items
  | _ => none

/-- The members of an object. -/
def object? : Json → Option (List (String × Json))
  | object members => some members
  | _ => none

/-- A number given as an integer within 64 bits with a sign. -/
def signed? : Json → Option Int64
  | number n => n.signed?
  | _ => none

/-- A number given as an integer within 64 bits without a sign. -/
def unsigned? : Json → Option UInt64
  | number (.natural n) => some n
  | _ => none

/-- Any number, in the 64-bit floating-point format. -/
def double? : Json → Option Binary64
  | number n => some n.toDouble
  | _ => none

/-- A value that may be absent: null is none. -/
def optional? {α : Type} (decode : Json → Option α) : Json → Option (Option α)
  | null => some none
  | j => (decode j).map some

/-- The slots of a record with these fields, given as an object or as an
array. -/
def fields? (names : List String) : Json → Option (List (Option Json))
  | array items => Fields.ofList? names.length items
  | object members =>
    Fields.ofMembers? (names.map fun _ => none)
      (members.map fun m => (names.idxOf? m.1, m.2))
  | _ => none

/-! ## Values and data -/

mutual

/-- A value as a datum. -/
def toDatum : Json → Datum
  | null => .null
  | bool b => .bool b
  | number n => n.toDatum
  | string s => .text s
  | array items => .list (itemsToData items)
  | object members => .record (membersToData members)

/-- Values as data, in order. -/
def itemsToData : List Json → List Datum
  | [] => []
  | item :: rest => item.toDatum :: itemsToData rest

/-- Members as a record's, in order. -/
def membersToData : List (String × Json) → List (Datum × Datum)
  | [] => []
  | (key, value) :: rest => (.text key, value.toDatum) :: membersToData rest

end

mutual

/-- **The value a datum is**, if no part of it is invalid or of a kind that
values lack. -/
def ofDatum? : Datum → Option Json
  | .null => some .null
  | .bool b => some (.bool b)
  | .natural n => some (.number (.natural n))
  | .integer i => some (.number (.negative i))
  | .double x => some (.number (.double x))
  | .text s => some (.string s)
  | .list items => (itemsOfData? items).map .array
  | .record members => (membersOfData? members).map fun ms => .object (sortMembers ms)
  | .single _ => none
  | .bytes _ => none
  | .invalid => none

/-- The values of a list of data. -/
def itemsOfData? : List Datum → Option (List Json)
  | [] => some []
  | item :: rest =>
    match ofDatum? item, itemsOfData? rest with
    | some value, some values => some (value :: values)
    | _, _ => none

/-- The members of a record, in their order. -/
def membersOfData? : List (Datum × Datum) → Option (List (String × Json))
  | [] => some []
  | (.text key, item) :: rest =>
    match ofDatum? item, membersOfData? rest with
    | some value, some values => some ((key, value) :: values)
    | _, _ => none
  | _ :: _ => none

end

end Json

end LiveLayout
