import LiveLayout.Engine.Basic
/-!
# Applying frames

A new node's frame takes numbers only. A modify may also give a field by an
expression, and then every field is resolved against the tree as it was
before the entry's frame, the node's own fields included.
-/

namespace LiveLayout

namespace Frame

/-- The frame a new node is given: every field that is a number. -/
def ofNumbers (fields : List (String × Json)) : Frame :=
  fields.foldl
    (fun frame field => ((field.2.double?.bind (frame.set? field.1)).getD frame)) zero

end Frame

namespace Tree

/-- The value an expression gives a frame field: its offset, on top of a
field of the node it refers to. -/
def frameValue (tree : Tree) (registry : Registry) (idx : NodeIndex) (name text : String) :
    Except TweakError Binary64 :=
  match Expression.parse text with
  | .error cause => .error (.expressionMalformed name cause)
  | .ok (.literal value) => .ok value
  | .ok (.relative target field offset) =>
    match registry.resolve? tree idx (Reference.ofTarget target) with
    | none => .error (.referenceUnresolved target)
    | some node =>
      let otherName := field.getD name
      match (tree.node? node).bind fun n => n.frame.get? otherName with
      | none => .error (.anchorInvalid otherName .notAFrameField)
      | some base => .ok (base.add offset)

/-- **The value one member of a frame object gives its field**: a number, or
what an expression comes to. -/
def fieldValue (tree : Tree) (registry : Registry) (idx : NodeIndex) (field : String × Json) :
    Except TweakError Binary64 :=
  match field.2 with
  | .number n => .ok n.toDouble
  | .string text => tree.frameValue registry idx field.1 text
  | _ => .error (.propertyUnclaimed ("frame." ++ field.1))

/-- One field set in a frame that is being put together. -/
def applyField (tree : Tree) (registry : Registry) (idx : NodeIndex) (id : Identifier)
    (frame : Frame) (field : String × Json) : Frame × List Diagnostic :=
  if (frame.get? field.1).isNone then
    (frame, [⟨some id, .propertyUnclaimed ("frame." ++ field.1)⟩])
  else
    match tree.fieldValue registry idx field with
    | .ok value => ((frame.set? field.1 value).getD frame, [])
    | .error cause => (frame, [⟨some id, cause⟩])

/-- **The frame of an entry applied to a node**, all fields at once. -/
def applyFrame (tree : Tree) (registry : Registry) (idx : NodeIndex)
    (fields : List (String × Json)) : Tree × List Diagnostic :=
  match tree.node? idx with
  | none => (tree, [])
  | some node =>
    let (frame, diagnostics) :=
      Diagnostic.collect (tree.applyField registry idx node.id) node.frame fields
    (tree.modifyNode idx fun n => { n with frame }, diagnostics)

end Tree

end LiveLayout
