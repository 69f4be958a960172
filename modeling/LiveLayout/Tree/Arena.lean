import LiveLayout.Tree.Basic
/-!
# The constraint arena

A constraint that is active is installed on a node, the nearest common
ancestor of the nodes it relates. One that is not stays in the arena, so
that its position remains good. Besides its installed constraints a node
has a snapshot list, recorded when the node was finished, by which they can
be addressed later; appending to the list moves nothing on it.
-/

namespace LiveLayout

namespace Tree

/-- **The node a constraint between these anchors is installed on.** With
one anchor that is the anchor's own node. -/
def ownerFor? (tree : Tree) (first : Anchor) (second : Option Anchor) : Option NodeIndex :=
  match second with
  | some second => tree.commonAncestor? first.node second.node
  | none => (tree.node? first.node).map fun _ => first.node

/-- The constraints installed on a node. -/
def installed (tree : Tree) (idx : NodeIndex) : List ConstraintId :=
  ((tree.node? idx).map (·.installed)).getD []

/-- The snapshot list of a node. -/
def snapshot (tree : Tree) (idx : NodeIndex) : List ConstraintId :=
  ((tree.node? idx).map (·.snapshot)).getD []

/-- A stored constraint that is not installed, installed on a node. -/
def install (tree : Tree) (id : ConstraintId) (owner : NodeIndex) : Tree :=
  (tree.modifyNode owner fun n => { n with installed := n.installed ++ [id] }).modifyConstraint id
    fun c => { c with active := true, owner := some owner }

/-- An installed constraint taken off its node. -/
def uninstall (tree : Tree) (id : ConstraintId) (owner : Option NodeIndex) : Tree :=
  let freed :=
    match owner with
    | some owner =>
      tree.modifyNode owner fun n => { n with installed := n.installed.filter (· != id) }
    | none => tree
  freed.modifyConstraint id fun c => { c with active := false, owner := none }

/-- **A constraint switched on or off**, and whether it now is as asked. It
is not if there is no such constraint, or if its nodes have no common
ancestor to install it on. -/
def setActive (tree : Tree) (id : ConstraintId) (active : Bool) : Tree × Bool :=
  match tree.constraint? id with
  | none => (tree, false)
  | some c =>
    if c.active = active then (tree, true)
    else if active then
      match tree.ownerFor? c.first c.second with
      | some owner => (tree.install id owner, true)
      | none => (tree, false)
    else (tree.uninstall id c.owner, true)

/-- The tree after a constraint is switched, as far as it can be. -/
def switch (tree : Tree) (id : ConstraintId) (active : Bool) : Tree := (tree.setActive id active).1

/-- The position the next constraint will have. -/
def nextConstraint (tree : Tree) : ConstraintId := tree.constraints.size

/-- **A constraint added to the arena**, and installed if it asks for it. -/
def addConstraint (tree : Tree) (c : Constraint) : Tree :=
  let stored : Tree := { tree with constraints := tree.constraints.push c.idle }
  if c.active then stored.switch tree.nextConstraint true else stored

/-- Some node's snapshot list has the constraint on it. -/
def isSnapshotted (tree : Tree) (id : ConstraintId) : Bool :=
  tree.nodes.any fun n => n.snapshot.contains id

/-- **One constraint in place of another**, which is switched off, and the
position of the new one. It takes the old one's place in the arena, unless
a snapshot list addresses that; then it is added. -/
def replaceConstraint (tree : Tree) (prior : ConstraintId) (c : Constraint) :
    Tree × ConstraintId :=
  let freed := tree.switch prior false
  if freed.isSnapshotted prior ∨ freed.constraints.size ≤ prior then
    (freed.addConstraint c, freed.nextConstraint)
  else
    let stored := freed.modifyConstraint prior fun _ => c.idle
    (if c.active then stored.switch prior true else stored, prior)

/-- The fields of a constraint that can change in place. -/
def updateConstraint (tree : Tree) (id : ConstraintId) (constant : Binary64) (active : Bool)
    (priority : Binary32) : Tree :=
  (tree.modifyConstraint id fun c => { c with constant, priority }).switch id active

/-! ## Looking constraints up -/

/-- The first constraint installed on a node that starts at an anchor. -/
def findInstalled? (tree : Tree) (owner : NodeIndex) (anchor : Anchor) : Option ConstraintId :=
  (tree.installed owner).find? fun id => (tree.constraint? id).any (·.first = anchor)

/-- **The first constraint that starts at an anchor**, looked for on the
anchor's node and then on its ancestors. -/
def findOnLineage? (tree : Tree) (anchor : Anchor) : Option ConstraintId :=
  (tree.ancestors anchor.node).findSome? fun owner => tree.findInstalled? owner anchor

/-- All active constraints that start at an anchor, wherever they are
installed. -/
def activeOn (tree : Tree) (anchor : Anchor) : List ConstraintId :=
  (List.range tree.constraints.size).filter fun id =>
    (tree.constraint? id).any fun c => c.active && c.first = anchor

/-! ## Snapshot lists -/

/-- The constraints installed on a node recorded as its snapshot list. -/
def captureSnapshot (tree : Tree) (idx : NodeIndex) : Tree :=
  tree.modifyNode idx fun n => { n with snapshot := n.installed }

/-- A constraint added at the end of a node's snapshot list. -/
def pushSnapshot (tree : Tree) (idx : NodeIndex) (id : ConstraintId) : Tree :=
  tree.modifyNode idx fun n => { n with snapshot := n.snapshot ++ [id] }

end Tree

end LiveLayout
