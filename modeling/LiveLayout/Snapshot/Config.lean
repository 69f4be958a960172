import LiveLayout.Constraint
import LiveLayout.Symbol
/-!
# Constraint descriptions

A constraint as it travels: two anchors by identifier and attribute, and
everything else optional or with a default. The same description is read
from text, from packed bytes and from a change document, and written to
all of them.
-/

namespace LiveLayout

/-- An anchor by the identifier of its node and a symbol for its
attribute. -/
structure AnchorConfig where
  item : Option String
  symbol : Option Symbol
deriving DecidableEq

/-- A constraint as it travels. -/
structure ConstraintConfig where
  first : AnchorConfig
  second : Option AnchorConfig := none
  relation : Option Symbol := none
  constant : Option Binary64 := none
  multiplier : Option Binary64 := none
  isActive : Bool := true
  priority : Binary32 := requiredPriority
  /-- The position in the node's snapshot list; none asks to be added. -/
  idx : Option UInt64 := none
  added : Bool := false
deriving DecidableEq

namespace AnchorConfig

/-- The fields of an anchor, in their order. -/
def fieldNames : List String := ["item", "attribute"]

/-- The anchor a datum describes. -/
def ofDatum? (d : Datum) : Option AnchorConfig :=
  match d.fields? fieldNames with
  | some [item, symbol] =>
    match Fields.valueOr none (Datum.optional? Datum.text?) item,
      Fields.valueOr none (Datum.optional? Symbol.ofDatum?) symbol with
    | some item, some symbol => some { item, symbol }
    | _, _ => none
  | _ => none

/-- An anchor as data: both fields, null where there is none. -/
def toDatum (a : AnchorConfig) : Datum :=
  .named
    [("item", (a.item.map Datum.text).getD .null),
      ("attribute", (a.symbol.map Symbol.toDatum).getD .null)]

end AnchorConfig

namespace ConstraintConfig

/-- The fields of a constraint, in their order. -/
def fieldNames : List String :=
  ["first", "second", "relation", "constant", "multiplier", "isActive", "priority", "idx", "added"]

/-- **The constraint a datum describes.** Only the first anchor has to be
there. Null stands for absence where a field is optional, and is refused
where it has a default. -/
def ofDatum? (d : Datum) : Option ConstraintConfig :=
  match d.fields? fieldNames with
  | some [first, second, relation, constant, multiplier, isActive, priority, idx, added] => do
    let first ← Fields.value? AnchorConfig.ofDatum? first
    let second ← Fields.valueOr none (Datum.optional? AnchorConfig.ofDatum?) second
    let relation ← Fields.valueOr none (Datum.optional? Symbol.ofDatum?) relation
    let constant ← Fields.valueOr none (Datum.optional? Datum.double?) constant
    let multiplier ← Fields.valueOr none (Datum.optional? Datum.double?) multiplier
    let isActive ← Fields.valueOr true Datum.bool? isActive
    let priority ← Fields.valueOr requiredPriority Datum.single? priority
    let idx ← Fields.valueOr none (Datum.optional? Datum.unsigned?) idx
    let added ← Fields.valueOr false Datum.bool? added
    return { first, second, relation, constant, multiplier, isActive, priority, idx, added }
  | _ => none

/-- The members of a constraint that are written. -/
def members (c : ConstraintConfig) : List (String × Datum) :=
  ("first", c.first.toDatum) ::
    (Fields.optionalMember "second" AnchorConfig.toDatum c.second ++
      Fields.optionalMember "relation" Symbol.toDatum c.relation ++
      Fields.optionalMember "constant" Datum.double c.constant ++
      Fields.optionalMember "multiplier" Datum.double c.multiplier ++
      [("isActive", .bool c.isActive), ("priority", .single c.priority)] ++
      Fields.optionalMember "idx" Datum.natural c.idx ++
      [("added", .bool c.added)])

/-- A constraint as data. -/
def toDatum (c : ConstraintConfig) : Datum := .named c.members

end ConstraintConfig

end LiveLayout
