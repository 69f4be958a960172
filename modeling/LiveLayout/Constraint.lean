import LiveLayout.Node
import LiveLayout.Relation
/-!
# Constraints

One geometric relationship between two anchors, or between an anchor and a
constant: `first (relation) second * multiplier + constant`.
-/

namespace LiveLayout

/-- One end of a constraint: an attribute of a node. -/
structure Anchor where
  node : NodeIndex
  attr : Attribute
deriving DecidableEq

/-- The priority of a constraint that must hold. -/
def requiredPriority : Binary32 := .ofNat 1000

/-- A constraint. Outside the arena `active` is what it asks for; inside, it
says whether the constraint is installed, and `owner` where. -/
structure Constraint where
  first : Anchor
  second : Option Anchor := none
  relation : Relation := .equal
  multiplier : Binary64 := .one
  constant : Binary64 := .zero
  active : Bool := false
  priority : Binary32 := requiredPriority
  /-- Made by a change rather than present from the start. -/
  added : Bool := false
  owner : Option NodeIndex := none
deriving DecidableEq

namespace Constraint

/-- The constraint as it is stored before it is installed. -/
def idle (c : Constraint) : Constraint :=
  { c with active := false, owner := none }

end Constraint

end LiveLayout
