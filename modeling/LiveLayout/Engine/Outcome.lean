import LiveLayout.Engine.Session
/-!
# Runs that break off

Two places take it for granted that a node is there: where a new node is
linked to its parent, and where a constraint is put on the list of its
owner. If it is not there, the run breaks off. A search up the tree ends at
a node without a parent, and if none is above, as when a node is its own
parent, it goes on for good.

Every operation on the way there has an outcome: what it comes to, or none
if the run breaks off or does not come back. The other accesses need no
check, for what they read was put on its list by the tree itself.
-/

namespace LiveLayout

/-- Steps one after another, for as long as each has an outcome. -/
def Diagnostic.collect? {σ α : Type} (step : σ → α → Option (σ × List Diagnostic)) :
    σ → List α → Option (σ × List Diagnostic)
  | state, [] => some (state, [])
  | state, a :: rest =>
    (step state a).bind fun first =>
      (collect? step first.1 rest).map fun others => (others.1, first.2 ++ others.2)

namespace Tree

/-! ## Searches up the tree -/

/-- The way up from a node leads to one without a parent. -/
def ends (tree : Tree) (idx : NodeIndex) : Bool :=
  (tree.ancestors idx).any fun n => (tree.parent? n).isNone

/-- **A search from a node up** comes back with what it found, or else from
the top. -/
def climb? {α : Type} (tree : Tree) (idx : NodeIndex) (found : Option α) : Option (Option α) :=
  if found.isSome || tree.ends idx then some found else none

/-- The search for an owner goes up the whole way from the first node, and
from the second until it meets that way. -/
def searchOwner? (tree : Tree) (first : Anchor) (second : Option Anchor) :
    Option (Option NodeIndex) :=
  match second with
  | some s =>
    if tree.ends first.node then tree.climb? s.node (tree.ownerFor? first second) else none
  | none => some (tree.ownerFor? first second)

/-- The search for the constraint that held an anchor before. -/
def searchPrior? (tree : Tree) (anchor : Anchor) : Option (Option ConstraintId) :=
  tree.climb? anchor.node (tree.findOnLineage? anchor)

/-! ## Unchecked accesses -/

/-- **A new node under a parent that has to be there.** By then the new node
is there too. -/
def insertChild? (tree : Tree) (parent : NodeIndex) (node : Node) (position : Option Nat) :
    Option Tree :=
  if parent ≤ tree.nextIndex then some (tree.insertChild parent node position) else none

/-- **A constraint installed on a node that has to be there.** -/
def install? (tree : Tree) (id : ConstraintId) (owner : NodeIndex) : Option Tree :=
  if owner < tree.size then some (tree.install id owner) else none

/-! ## The arena -/

/-- The outcome of switching a constraint. Switching one off reads nothing
unchecked. -/
def switch? (tree : Tree) (id : ConstraintId) (active : Bool) : Option Tree :=
  match tree.constraint? id with
  | none => some tree
  | some c =>
    if c.active = active then some tree
    else if active then
      (tree.searchOwner? c.first c.second).bind fun
        | some owner => tree.install? id owner
        | none => some tree
    else some (tree.uninstall id c.owner)

/-- The outcome of adding a constraint. -/
def addConstraint? (tree : Tree) (c : Constraint) : Option Tree :=
  let stored : Tree := { tree with constraints := tree.constraints.push c.idle }
  if c.active then stored.switch? tree.nextConstraint true else some stored

/-- The outcome of putting one constraint in place of another. -/
def replaceConstraint? (tree : Tree) (prior : ConstraintId) (c : Constraint) : Option Tree :=
  (tree.switch? prior false).bind fun freed =>
    if freed.isSnapshotted prior ∨ freed.constraints.size ≤ prior then
      freed.addConstraint? c
    else
      let stored := freed.modifyConstraint prior fun _ => c.idle
      if c.active then stored.switch? prior true else some stored

/-- The outcome of changing a constraint in place. -/
def updateConstraint? (tree : Tree) (id : ConstraintId) (constant : Binary64) (active : Bool)
    (priority : Binary32) : Option Tree :=
  (tree.modifyConstraint id fun c => { c with constant, priority }).switch? id active

/-! ## The constraints of an entry -/

/-- The outcome of asking what constraint an expression is for. Once its
second anchor has resolved, an owner is looked for. -/
def constraintFor? (tree : Tree) (registry : Registry) (idx : NodeIndex) (name text : String) :
    Option (Except TweakError Constraint) :=
  let asked := tree.constraintFor registry idx name text
  match Expression.parse text, Attribute.ofName? name with
  | .ok expression, some own =>
    match tree.secondFor registry idx name own expression with
    | .ok second => (tree.searchOwner? ⟨idx, own⟩ second).map fun _ => asked
    | .error _ => some asked
  | _, _ => some asked

/-- The outcome of putting a constraint in force. -/
def constrain? (tree : Tree) (modify : Bool) (c : Constraint) : Option Tree :=
  (if modify then tree.searchPrior? c.first else some none).bind fun prior =>
    let constrained :=
      match prior with
      | some prior => tree.replaceConstraint? prior c
      | none => tree.addConstraint? c
    constrained.map fun tree =>
      tree.modifyNode c.first.node fun node => { node with autoresizing := false }

/-- The outcome of applying one expression. -/
def applyExpression? (registry : Registry) (idx : NodeIndex) (modify : Bool) (tree : Tree)
    (entry : String × String) : Option (Tree × List Diagnostic) :=
  (tree.constraintFor? registry idx entry.1 entry.2).bind fun
    | .ok c => (tree.constrain? modify c).map fun tree => (tree, [])
    | .error cause => some (tree, [⟨(tree.node? idx).map (·.id), cause⟩])

/-- The outcome of applying one description. -/
def applyConfig? (idx : NodeIndex) (tree : Tree) (entry : Json × Nat) :
    Option (Tree × List Diagnostic) :=
  let node := (tree.node? idx).map (·.id)
  match ConstraintConfig.ofDatum? entry.1.toDatum with
  | none => some (tree, [⟨node, .entryMalformed (.undecodableConfig entry.2)⟩])
  | some config =>
    match tree.addressed? idx config with
    | some id =>
      (tree.updateConstraint? id (config.constant.getD .zero) config.isActive
        config.priority).map fun tree => (tree, [])
    | none =>
      match config.toLive? tree idx with
      | some live =>
        (tree.addConstraint? { live with added := true }).map fun grown =>
          (grown.pushSnapshot idx tree.nextConstraint, [])
      | none => some (tree, [⟨node, .anchorInvalid (constraintLabel entry.2) .unresolvedConfig⟩])

/-- **The outcome of applying the constraints of an entry.** -/
def applyConstraints? (tree : Tree) (registry : Registry) (idx : NodeIndex) (modify : Bool) :
    ConstraintsField → Option (Tree × List Diagnostic)
  | .expressions entries =>
    Diagnostic.collect? (applyExpression? registry idx modify) tree entries
  | .indexed configs => Diagnostic.collect? (applyConfig? idx) tree configs.zipIdx
  | .unsupported value =>
    some (tree, [⟨(tree.node? idx).map (·.id), .entryMalformed (.unsupportedConstraints value)⟩])

end Tree

namespace Engine

/-- The outcome of the parts that inserts and modifies share. Of these only
constraints can break a run off. -/
def applyContent? (engine : Engine) (idx : NodeIndex) (modify : Bool) (view : ViewChange) :
    Option (Engine × List Diagnostic) :=
  let (engine, properties) := engine.applyProperties idx (view.properties.getD [])
  let (engine, layer) := engine.applyLayer idx (view.layer.getD [])
  match view.constraints with
  | none => some (engine, properties ++ layer)
  | some field =>
    (engine.tree.applyConstraints? engine.registry idx modify field).map fun changed =>
      ({ engine with tree := changed.1 }, properties ++ layer ++ changed.2)

/-- **The outcome of an insert.** -/
def insert? (engine : Engine) (id : Identifier) (parent : NodeIndex) (type : NodeType)
    (view : ViewChange) : Option (Engine × List Diagnostic) :=
  let node : Node :=
    { id, kind := .ofType type id, frame := (view.frame.map Frame.ofNumbers).getD .zero }
  let idx := engine.tree.nextIndex
  (engine.tree.insertChild? parent node (view.index.map UInt64.toNat)).bind fun tree =>
    (applyContent? { engine with tree } idx false view).map fun filled =>
      ({ filled.1 with
          tree := filled.1.tree.captureSnapshot idx
          registry := filled.1.registry.register id idx }, filled.2)

/-- **The outcome of a modify.** -/
def modify? (engine : Engine) (idx : NodeIndex) (view : ViewChange) :
    Option (Engine × List Diagnostic) :=
  (engine.applyContent? idx true view).map fun changed =>
    match view.frame with
    | none => changed
    | some fields =>
      let (tree, frame) := changed.1.tree.applyFrame changed.1.registry idx fields
      ({ changed.1 with tree }, changed.2 ++ frame)

end Engine

namespace Session

/-- The outcome of an action. -/
def perform? (session : Session) : Action → Option (Session × List Diagnostic)
  | .insert id parent type view =>
    (session.engine.insert? id parent type view).map fun done =>
      (⟨done.1, (id :: (NodeKind.ofType type id).identifiers).foldl .insert session.known⟩, done.2)
  | .modify idx view =>
    (session.engine.modify? idx view).map fun done => (⟨done.1, session.known⟩, done.2)

/-- The outcome of one entry. -/
def applied? (session : Session) (entry : Json) : Option (Session × Report) :=
  match session.resolve entry with
  | .error diagnostic => some (session, ⟨0, [diagnostic]⟩)
  | .ok action => (session.perform? action).map fun done => (done.1, ⟨1, done.2⟩)

/-- **The outcome of a change sequence.** -/
def tweak? (session : Session) : List Json → Option (Session × Report)
  | [] => some (session, .empty)
  | entry :: rest =>
    (session.applied? entry).bind fun first =>
      (first.1.tweak? rest).map fun others => (others.1, first.2.append others.2)

end Session

end LiveLayout
