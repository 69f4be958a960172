import LiveLayout.MessagePack.Head
/-!
# Writing MessagePack data

Data in their shortest form: every head takes the fewest bytes it can.
-/

namespace LiveLayout

namespace Datum

mutual

/-- **The bytes of a datum.** -/
def pack : Datum → List UInt8
  | .null => [0xC0]
  | .bool false => [0xC2]
  | .bool true => [0xC3]
  | .natural n => MessagePack.writeNatural n.toNat
  | .integer i => MessagePack.writeInteger i.toInt
  | .single x => 0xCA :: MessagePack.bigEndian 4 x.bits.toNat
  | .double x => 0xCB :: MessagePack.bigEndian 8 x.bits.toNat
  | .text s => MessagePack.writeTextHead (spelling s).length ++ spelling s
  | .bytes b => MessagePack.writeBytesHead b.length ++ b
  | .list items => MessagePack.writeListHead items.length ++ packItems items
  | .record members => MessagePack.writeRecordHead members.length ++ packMembers members
  | .invalid => [0xC0]

/-- The bytes of a list's items, one after the other. -/
def packItems : List Datum → List UInt8
  | [] => []
  | item :: rest => pack item ++ packItems rest

/-- The bytes of a record's keys and values in turn. -/
def packMembers : List (Datum × Datum) → List UInt8
  | [] => []
  | (key, value) :: rest => pack key ++ (pack value ++ packMembers rest)

end

end Datum

end LiveLayout
