import LiveLayout.Expression
import LiveLayout.Tree.Basic
/-!
# The registry

Which node an identifier stands for at present. Entries are added and
overwritten, never removed: nodes are never deleted either.
-/

namespace LiveLayout

/-- The nodes that can be addressed by identifier. -/
structure Registry where
  entries : List (Identifier × NodeIndex)

namespace Registry

/-- Nothing is registered. -/
def empty : Registry := ⟨[]⟩

/-- An identifier pointed at a node. -/
def register (registry : Registry) (id : Identifier) (idx : NodeIndex) : Registry :=
  ⟨Json.insertMember id idx registry.entries⟩

/-- The node an identifier stands for. -/
def lookup? (registry : Registry) (id : Identifier) : Option NodeIndex :=
  registry.entries.lookup id

/-- The identifier stands for a node. -/
def contains (registry : Registry) (id : Identifier) : Bool :=
  (registry.lookup? id).isSome

/-- How many identifiers stand for a node. -/
def size (registry : Registry) : Nat := registry.entries.length

/-- **The node a reference is to**, seen from a node: itself, its parent,
or the one registered under an identifier. -/
def resolve? (registry : Registry) (tree : Tree) (context : NodeIndex) :
    Reference → Option NodeIndex
  | .self => some context
  | .superview => tree.parent? context
  | .id name => registry.lookup? name

@[simp] theorem lookup?_register (registry : Registry) (id other : Identifier) (idx : NodeIndex) :
    (registry.register id idx).lookup? other =
      if other = id then some idx else registry.lookup? other :=
  Json.lookup_insertMember id other idx registry.entries

end Registry

end LiveLayout
