import LiveLayout.Snapshot.Config
import LiveLayout.Tree.Arena
/-!
# Descriptions and live constraints

A description turned into a constraint of a node, and a constraint of the
arena described. The first resolves identifiers on the node itself and its
children only; the second names whatever nodes the constraint relates.
-/

namespace LiveLayout

namespace Tree

/-- The node an identifier names, as seen from a node: itself, or else the
first child of that name. -/
def itemOf? (tree : Tree) (idx : NodeIndex) (item : Identifier) : Option NodeIndex :=
  (tree.node? idx).bind fun node =>
    if node.id = item then some idx else tree.childWithId? idx item

/-- The anchor a description names, as seen from a node. -/
def anchorOf? (tree : Tree) (idx : NodeIndex) (a : AnchorConfig) : Option Anchor :=
  match a.item.bind (tree.itemOf? idx), a.symbol.bind Attribute.ofSymbol? with
  | some node, some attr => some ⟨node, attr⟩
  | _, _ => none

end Tree

namespace ConstraintConfig

/-- The second anchor of a description, as seen from a node: none is given,
or one is and resolves. -/
def secondAnchor? (c : ConstraintConfig) (tree : Tree) (idx : NodeIndex) : Option (Option Anchor) :=
  match c.second with
  | none => some none
  | some second => (tree.anchorOf? idx second).map some

/-- **The constraint of a node that a description asks for.** It is none if
an anchor does not resolve or the two lie on different axes. A relation
that names nothing is equality. -/
def toLive? (c : ConstraintConfig) (tree : Tree) (idx : NodeIndex) : Option Constraint :=
  match tree.anchorOf? idx c.first, c.secondAnchor? tree idx with
  | some first, some second =>
    if second.all fun s => s.attr.axis = first.attr.axis then
      some
        { first, second
          relation := (c.relation.bind Relation.ofSymbol?).getD .equal
          multiplier := c.multiplier.getD .one
          constant := c.constant.getD .zero
          active := c.isActive
          priority := c.priority
          added := c.added }
    else none
  | _, _ => none

/-- An anchor described by its node's identifier and its attribute's
code. -/
def describeAnchor? (tree : Tree) (anchor : Anchor) : Option AnchorConfig :=
  (tree.node? anchor.node).map fun node =>
    ⟨some node.id, some (.code (Int64.ofNat anchor.attr.code))⟩

/-- The description of an anchor that may be absent. -/
def describeSecond? (tree : Tree) : Option Anchor → Option (Option AnchorConfig)
  | none => some none
  | some anchor => (describeAnchor? tree anchor).map some

/-- **A live constraint described**, for a position of a snapshot list. -/
def ofLive? (tree : Tree) (id : ConstraintId) (idx : Nat) : Option ConstraintConfig :=
  (tree.constraint? id).bind fun c =>
    match describeAnchor? tree c.first, describeSecond? tree c.second with
    | some first, some second =>
      some
        { first, second
          relation := some (.code (Int64.ofInt c.relation.code))
          constant := some c.constant
          multiplier := some c.multiplier
          isActive := c.active
          priority := c.priority
          idx := some (UInt64.ofNat idx)
          added := c.added }
    | _, _ => none

end ConstraintConfig

/-- **The baseline of a node**: every constraint of its snapshot list,
described. -/
def Tree.baseline (tree : Tree) (idx : NodeIndex) : List ConstraintConfig :=
  (tree.snapshot idx).zipIdx.filterMap fun entry =>
    ConstraintConfig.ofLive? tree entry.1 entry.2

end LiveLayout
