import LiveLayout.Constraint
/-!
# Trees

The live tree: its nodes in the order they were created, and an arena of
constraints. Neither ever shrinks, so a position in either stays good. A
node knows its parent and its children, and the children their order.

A parent is always created before its children. `Tree.ancestors` takes that
as its measure: it goes up only as long as positions fall, and so it ends
in any tree.
-/

namespace LiveLayout

/-- A tree of nodes and the constraints between them. -/
structure Tree where
  nodes : Array Node
  constraints : Array Constraint
deriving DecidableEq

namespace Tree

/-- The position of the root. -/
def root : NodeIndex := 0

/-- The tree that holds a root view and nothing else. -/
def initial : Tree :=
  ⟨#[{ id := Identifier.root, kind := .view }], #[]⟩

/-- The node at a position. -/
def node? (tree : Tree) (idx : NodeIndex) : Option Node := tree.nodes[idx]?

/-- The constraint at a position of the arena. -/
def constraint? (tree : Tree) (id : ConstraintId) : Option Constraint := tree.constraints[id]?

/-- How many nodes there are. -/
def size (tree : Tree) : Nat := tree.nodes.size

/-- The tree with one node changed; a position without a node changes
nothing. -/
def modifyNode (tree : Tree) (idx : NodeIndex) (change : Node → Node) : Tree :=
  { tree with nodes := tree.nodes.modify idx change }

/-- The tree with one constraint changed. -/
def modifyConstraint (tree : Tree) (id : ConstraintId) (change : Constraint → Constraint) : Tree :=
  { tree with constraints := tree.constraints.modify id change }

/-! ## Shape -/

/-- The parent of a node. -/
def parent? (tree : Tree) (idx : NodeIndex) : Option NodeIndex :=
  (tree.node? idx).bind (·.parent)

/-- The children of a node, in their order. -/
def children (tree : Tree) (idx : NodeIndex) : List NodeIndex :=
  ((tree.node? idx).map (·.children)).getD []

/-- The position the next node will have. -/
def nextIndex (tree : Tree) : NodeIndex := tree.nodes.size

/-- **A new node under a parent**, at a position among its children, or
behind them all where the position is past them or none is given. -/
def insertChild (tree : Tree) (parent : NodeIndex) (node : Node) (position : Option Nat) : Tree :=
  let idx := tree.nextIndex
  let grown : Tree := { tree with nodes := tree.nodes.push { node with parent := some parent } }
  grown.modifyNode parent fun p =>
    let place := (position.map (min · p.children.length)).getD p.children.length
    { p with children := p.children.insertIdx place idx }

/-- The first child of a node with an identifier. -/
def childWithId? (tree : Tree) (parent : NodeIndex) (id : Identifier) : Option NodeIndex :=
  (tree.children parent).find? fun child => (tree.node? child).any (·.id == id)

/-- **A node and its ancestors**, the nearest first. -/
def ancestors (tree : Tree) (idx : NodeIndex) : List NodeIndex :=
  idx ::
    match tree.parent? idx with
    | some parent => if parent < idx then ancestors tree parent else []
    | none => []
termination_by idx

/-- **The nearest common ancestor** of two nodes, each counted among its
own: the first of one lineage that lies on the other. -/
def commonAncestor? (tree : Tree) (a b : NodeIndex) : Option NodeIndex :=
  let lineage := tree.ancestors a
  (tree.ancestors b).find? fun n => lineage.contains n

/-! ## What the operations leave in place -/

/-- One node is changed and no other. -/
theorem node?_modifyNode (tree : Tree) (idx other : NodeIndex) (change : Node → Node) :
    (tree.modifyNode idx change).node? other =
      if idx = other then (tree.node? other).map change else tree.node? other := by
  simp only [node?, modifyNode, Array.getElem?_modify]

/-- One constraint is changed and no other. -/
theorem constraint?_modifyConstraint (tree : Tree) (id other : ConstraintId)
    (change : Constraint → Constraint) :
    (tree.modifyConstraint id change).constraint? other =
      if id = other then (tree.constraint? other).map change else tree.constraint? other := by
  simp only [constraint?, modifyConstraint, Array.getElem?_modify]

@[simp] theorem constraint?_modifyNode (tree : Tree) (idx : NodeIndex) (change : Node → Node)
    (id : ConstraintId) : (tree.modifyNode idx change).constraint? id = tree.constraint? id := rfl

@[simp] theorem node?_modifyConstraint (tree : Tree) (id : ConstraintId)
    (change : Constraint → Constraint) (idx : NodeIndex) :
    (tree.modifyConstraint id change).node? idx = tree.node? idx := rfl

@[simp] theorem size_modifyNode (tree : Tree) (idx : NodeIndex) (change : Node → Node) :
    (tree.modifyNode idx change).size = tree.size := by
  simp only [size, modifyNode, Array.size_modify]

@[simp] theorem size_insertChild (tree : Tree) (parent : NodeIndex) (node : Node)
    (position : Option Nat) : (tree.insertChild parent node position).size = tree.size + 1 := by
  unfold insertChild
  rw [size_modifyNode]
  exact Array.size_push _

/-- A node counts among its own ancestors. -/
theorem mem_ancestors_self (tree : Tree) (idx : NodeIndex) : idx ∈ tree.ancestors idx := by
  rw [ancestors]
  exact List.mem_cons_self

/-- A position is the nearest common ancestor of itself and itself. -/
theorem commonAncestor?_self (tree : Tree) (idx : NodeIndex) :
    tree.commonAncestor? idx idx = some idx := by
  have hself : (tree.ancestors idx).contains idx := by
    rw [List.contains_iff_mem]
    exact tree.mem_ancestors_self idx
  unfold commonAncestor?
  generalize hl : tree.ancestors idx = lineage at hself ⊢
  rw [ancestors] at hl
  subst hl
  exact List.find?_cons_of_pos hself

end Tree

end LiveLayout
