import LiveLayout.Change
import LiveLayout.Engine.Basic
import LiveLayout.Snapshot.Live
/-!
# Applying constraints

Constraints come in two forms. An expression ties one attribute of a node
to a constant or to another anchor, and on a modify it takes the place of
the constraint that held the attribute before, so that repeating an entry
neither stacks constraints nor grows the arena. A description addresses the
node's snapshot list: in range it updates the constraint there, otherwise
it adds one to the list.
-/

namespace LiveLayout

namespace Tree

/-! ## Expressions -/

/-- The second anchor an expression gives an attribute: none for a constant,
which only a dimension can take, or an anchor on the same axis. -/
def secondFor (tree : Tree) (registry : Registry) (idx : NodeIndex) (name : String)
    (own : Attribute) : Expression → Except TweakError (Option Anchor)
  | .literal _ =>
    if own.isDimension then .ok none
    else .error (.anchorInvalid name .constantNeedsDimension)
  | .relative target field _ =>
    match registry.resolve? tree idx (Reference.ofTarget target) with
    | none => .error (.referenceUnresolved target)
    | some node =>
      let otherName := field.getD name
      match Attribute.ofName? otherName with
      | none => .error (.anchorInvalid otherName .unknownAttribute)
      | some other =>
        if other.axis = own.axis then .ok (some ⟨node, other⟩)
        else .error (.anchorInvalid name (.unrelatedAxes own other))

/-- **The constraint an expression asks for**, or why it is refused. What
constraints there are already has no part in it. -/
def constraintFor (tree : Tree) (registry : Registry) (idx : NodeIndex) (name text : String) :
    Except TweakError Constraint :=
  match Expression.parse text with
  | .error cause => .error (.expressionMalformed name cause)
  | .ok expression =>
    match Attribute.ofName? name with
    | none => .error (.anchorInvalid name .unknownAttribute)
    | some own =>
      match tree.secondFor registry idx name own expression with
      | .error cause => .error cause
      | .ok second =>
        match tree.ownerFor? ⟨idx, own⟩ second with
        | none => .error (.anchorInvalid name .noCommonAncestor)
        | some _ =>
          .ok { first := ⟨idx, own⟩, second, constant := expression.offset, active := true }

/-- **A constraint put in force** for its first anchor. On a modify it
replaces the first constraint found for that anchor. The node is from then
on positioned by constraints. -/
def constrain (tree : Tree) (modify : Bool) (c : Constraint) : Tree :=
  let prior := if modify then tree.findOnLineage? c.first else none
  let constrained :=
    match prior with
    | some prior => (tree.replaceConstraint prior c).1
    | none => tree.addConstraint c
  constrained.modifyNode c.first.node fun node => { node with autoresizing := false }

/-- One attribute of a node tied to an expression. -/
def applyExpression (registry : Registry) (idx : NodeIndex) (modify : Bool) (tree : Tree)
    (entry : String × String) : Tree × List Diagnostic :=
  match tree.constraintFor registry idx entry.1 entry.2 with
  | .ok c => (tree.constrain modify c, [])
  | .error cause => (tree, [⟨(tree.node? idx).map (·.id), cause⟩])

/-! ## Descriptions -/

/-- The constraint that a description updates: the one its position
addresses on the node's snapshot list. -/
def addressed? (tree : Tree) (idx : NodeIndex) (config : ConstraintConfig) : Option ConstraintId :=
  config.idx.bind fun position => (tree.snapshot idx)[position.toNat]?

/-- **One description applied to a node**, at its position in the list it
came in. -/
def applyConfig (idx : NodeIndex) (tree : Tree) (entry : Json × Nat) : Tree × List Diagnostic :=
  let node := (tree.node? idx).map (·.id)
  match ConstraintConfig.ofDatum? entry.1.toDatum with
  | none => (tree, [⟨node, .entryMalformed (.undecodableConfig entry.2)⟩])
  | some config =>
    match tree.addressed? idx config with
    | some id =>
      (tree.updateConstraint id (config.constant.getD .zero) config.isActive config.priority, [])
    | none =>
      match config.toLive? tree idx with
      | some live =>
        ((tree.addConstraint { live with added := true }).pushSnapshot idx tree.nextConstraint, [])
      | none => (tree, [⟨node, .anchorInvalid (constraintLabel entry.2) .unresolvedConfig⟩])

/-- **The constraints of an entry applied to a node**, in either form. -/
def applyConstraints (tree : Tree) (registry : Registry) (idx : NodeIndex) (modify : Bool) :
    ConstraintsField → Tree × List Diagnostic
  | .expressions entries =>
    Diagnostic.collect (applyExpression registry idx modify) tree entries
  | .indexed configs => Diagnostic.collect (applyConfig idx) tree configs.zipIdx
  | .unsupported value =>
    (tree, [⟨(tree.node? idx).map (·.id), .entryMalformed (.unsupportedConstraints value)⟩])

end Tree

end LiveLayout
