import LiveLayout.Json.Value
/-!
# Change entries

One entry of a change document: an operation and the view it is about.
Everything but the operation may be left out. The constraints of a view
come in one of two forms, told apart by their shape; any other shape is
kept, so that it can be reported.
-/

namespace LiveLayout

/-- What an entry does. -/
inductive Operation where
  | insert
  | modify
deriving DecidableEq

/-- The operation a tag names. -/
def Operation.ofTag? (tag : String) : Option Operation :=
  if tag = "insert" then some insert
  else if tag = "modify" then some modify
  else none

/-- The constraints of a view. -/
inductive ConstraintsField where
  /-- An expression for each attribute. -/
  | expressions (entries : List (String × String))
  /-- Descriptions, each for a position or to be added. -/
  | indexed (configs : List Json)
  /-- Anything else. -/
  | unsupported (value : Json)

/-- The view of an entry. -/
structure ViewChange where
  id : Option String := none
  superview : Option String := none
  index : Option UInt64 := none
  typeTag : Option String := none
  frame : Option (List (String × Json)) := none
  properties : Option (List (String × Json)) := none
  layer : Option (List (String × Json)) := none
  constraints : Option ConstraintsField := none

/-- One entry of a change document. -/
structure Change where
  operationTag : String
  view : ViewChange

namespace ConstraintsField

/-- Members whose values are all texts. -/
def textMembers? : List (String × Json) → Option (List (String × String))
  | [] => some []
  | (key, .string text) :: rest => (textMembers? rest).map ((key, text) :: ·)
  | _ :: _ => none

/-- **The form of constraints, by their shape**: an object of texts, an
array, or neither. -/
def ofJson (value : Json) : ConstraintsField :=
  match value with
  | .object members =>
    match textMembers? members with
    | some entries => .expressions entries
    | none => .unsupported value
  | .array configs => .indexed configs
  | _ => .unsupported value

/-- Constraints as a value. -/
def toJson : ConstraintsField → Json
  | expressions entries => .object (entries.map fun e => (e.1, .string e.2))
  | indexed configs => .array configs
  | unsupported value => value

end ConstraintsField

namespace ViewChange

/-- The fields of a view, in their order. -/
def fieldNames : List String :=
  ["id", "superview", "index", "type", "frame", "properties", "layer", "constraints"]

/-- The view a value describes. Every field may be left out or null. -/
def ofJson? (value : Json) : Option ViewChange :=
  let text := Fields.valueOr none (Json.optional? Json.string?)
  let bag := Fields.valueOr none (Json.optional? Json.object?)
  match value.fields? fieldNames with
  | some [id, superview, index, typeTag, frame, properties, layer, constraints] => do
    let id ← text id
    let superview ← text superview
    let index ← Fields.valueOr none (Json.optional? Json.unsigned?) index
    let typeTag ← text typeTag
    let frame ← bag frame
    let properties ← bag properties
    let layer ← bag layer
    let constraints ←
      Fields.valueOr none (Json.optional? fun j => some (ConstraintsField.ofJson j)) constraints
    return { id, superview, index, typeTag, frame, properties, layer, constraints }
  | _ => none

/-- A view as a value: its identifier, null if there is none, and the
fields that are there. -/
def toJson (view : ViewChange) : Json :=
  .object
    (("id", (view.id.map Json.string).getD .null) ::
      (Fields.optionalMember "superview" Json.string view.superview ++
        Fields.optionalMember "index" (fun n => .number (.natural n)) view.index ++
        Fields.optionalMember "type" Json.string view.typeTag ++
        Fields.optionalMember "frame" Json.object view.frame ++
        Fields.optionalMember "properties" Json.object view.properties ++
        Fields.optionalMember "layer" Json.object view.layer ++
        Fields.optionalMember "constraints" ConstraintsField.toJson view.constraints))

end ViewChange

namespace Change

/-- The fields of an entry, in their order. -/
def fieldNames : List String := ["operation", "view"]

/-- **The entry a value describes.** The operation has to be there, as a
text; the view may be left out. -/
def ofJson? (value : Json) : Option Change :=
  match value.fields? fieldNames with
  | some [tag, view] =>
    match Fields.value? Json.string? tag, Fields.valueOr {} ViewChange.ofJson? view with
    | some operationTag, some view => some { operationTag, view }
    | _, _ => none
  | _ => none

/-- An entry as a value, its fields in their order. -/
def toJson (change : Change) : Json :=
  .object [("operation", .string change.operationTag), ("view", change.view.toJson)]

/-- The operation of an entry, if its tag names one. -/
def operation? (change : Change) : Option Operation :=
  Operation.ofTag? change.operationTag

end Change

end LiveLayout
