import LiveLayout.Proofs.Ancestry
/-!
# The arena, operation by operation

What each operation on a tree does to what can be read off it: its shape,
the installed list and the snapshot list of a node, and the constraint at a
position. Switching a constraint has three outcomes (`switch_cases`); a
constraint is stored at the end of the arena (`store`) or over another one
(`overwrite`) before it is switched on. Later files read the operations
through these and do not unfold them.
-/

namespace LiveLayout

namespace Tree

variable {tree other : Tree} {idx n owner : NodeIndex} {id j : ConstraintId} {c k : Constraint}

/-! ## Nodes by position -/

/-- A position holds a node exactly if it is in range. -/
theorem isSome_node? : (tree.node? idx).isSome ↔ idx < tree.size := by
  unfold node? size
  rw [isSome_getElem?]

theorem node?_of_lt (h : idx < tree.size) : ∃ node, tree.node? idx = some node :=
  Option.isSome_iff_exists.1 (isSome_node?.2 h)

theorem lt_size_of_node? {node : Node} (h : tree.node? idx = some node) : idx < tree.size :=
  isSome_node?.1 (by rw [h]; rfl)

/-- A position holds a constraint only if it is in range. -/
theorem lt_of_constraint? (h : tree.constraint? id = some c) : id < tree.constraints.size :=
  (Array.getElem?_eq_some_iff.1 h).1

theorem constraint?_of_lt (h : id < tree.constraints.size) : ∃ c, tree.constraint? id = some c :=
  ⟨tree.constraints[id], Array.getElem?_eq_getElem h⟩

theorem installed_of_node? {node : Node} (h : tree.node? idx = some node) :
    tree.installed idx = node.installed := by
  unfold installed
  rw [h]
  rfl

/-- **Trees are equal** if they hold the same nodes and constraints. -/
theorem ext_get (hn : ∀ idx, tree.node? idx = other.node? idx)
    (hc : ∀ id, tree.constraint? id = other.constraint? id) : tree = other := by
  obtain ⟨nodes, constraints⟩ := tree
  obtain ⟨nodes', constraints'⟩ := other
  have hnodes : nodes = nodes' := Array.ext_getElem? hn
  have hconstraints : constraints = constraints' := Array.ext_getElem? hc
  rw [hnodes, hconstraints]

/-! ## Shape -/

/-- **The same nodes in the same places**, under the same identifiers. -/
structure SameShape (tree other : Tree) : Prop where
  size : other.size = tree.size
  parent : ∀ idx, other.parent? idx = tree.parent? idx
  id : ∀ idx, (other.node? idx).map (·.id) = (tree.node? idx).map (·.id)

namespace SameShape

theorem refl (tree : Tree) : tree.SameShape tree := ⟨rfl, fun _ => rfl, fun _ => rfl⟩

theorem symm (h : tree.SameShape other) : other.SameShape tree :=
  ⟨h.size.symm, fun idx => (h.parent idx).symm, fun idx => (h.id idx).symm⟩

theorem trans {last : Tree} (h : tree.SameShape other) (h' : other.SameShape last) :
    tree.SameShape last :=
  ⟨h'.size.trans h.size, fun idx => (h'.parent idx).trans (h.parent idx),
    fun idx => (h'.id idx).trans (h.id idx)⟩

theorem rooted (h : tree.SameShape other) (hr : tree.Rooted) : other.Rooted where
  nonempty := h.size ▸ hr.nonempty
  root := (h.parent _).trans hr.root
  parent idx hidx hne := by
    obtain ⟨p, hp, hlt⟩ := hr.parent idx (h.size ▸ hidx) hne
    exact ⟨p, (h.parent idx).trans hp, hlt⟩

/-- Lineages depend on the shape alone. -/
theorem ancestors_eq (h : tree.SameShape other) (idx : NodeIndex) :
    other.ancestors idx = tree.ancestors idx := by
  induction idx using Nat.strongRecOn with
  | ind idx ih =>
    rw [ancestors, ancestors, h.parent idx]
    cases tree.parent? idx with
    | none => rfl
    | some p =>
      by_cases hlt : p < idx
      · simp only [if_pos hlt]
        rw [ih p hlt]
      · simp only [if_neg hlt]

/-- So does the node a constraint is installed on. -/
theorem ownerFor?_eq (h : tree.SameShape other) (first : Anchor) (second : Option Anchor) :
    other.ownerFor? first second = tree.ownerFor? first second := by
  cases second with
  | some second => simp only [ownerFor?, commonAncestor?, h.ancestors_eq]
  | none =>
    unfold ownerFor?
    by_cases hlt : first.node < tree.size
    · obtain ⟨node, hnode⟩ := node?_of_lt hlt
      obtain ⟨node', hnode'⟩ := node?_of_lt (h.size ▸ hlt : first.node < other.size)
      simp only [hnode, hnode', Option.map_some]
    · have hnone : ∀ t : Tree, t.size = tree.size → t.node? first.node = none := by
        intro t ht
        exact Option.not_isSome_iff_eq_none.1 fun hs => hlt (ht ▸ isSome_node?.1 hs)
      rw [hnone other h.size, hnone tree rfl]

end SameShape

/-- **A constraint's owner stays** as the tree grows, if its nodes were
there. -/
theorem Grows.ownerFor?_eq {grown : Tree} (g : tree.Grows grown) (h : tree.Rooted)
    {first : Anchor} {second : Option Anchor} (hf : first.node < tree.size)
    (hs : ∀ s, second = some s → s.node < tree.size) :
    grown.ownerFor? first second = tree.ownerFor? first second := by
  cases second with
  | some second => exact g.commonAncestor?_eq h hf (hs second rfl)
  | none =>
    obtain ⟨node, hnode⟩ := node?_of_lt hf
    obtain ⟨node', hnode'⟩ := node?_of_lt (Nat.lt_of_lt_of_le hf g.size)
    simp only [ownerFor?, hnode, hnode', Option.map_some]

/-! ## One node changed -/

/-- What a change of a node keeps stays readable where it was. -/
theorem map_node?_modifyNode {β : Type} {view : Node → β} (change : Node → Node)
    (h : ∀ node, view (change node) = view node) (idx n : NodeIndex) :
    ((tree.modifyNode idx change).node? n).map view = (tree.node? n).map view := by
  rw [node?_modifyNode]
  split
  · cases tree.node? n with
    | none => rfl
    | some node => simp only [Option.map_some, h node]
  · rfl

theorem sameShape_modifyNode (change : Node → Node)
    (h : ∀ node, (change node).parent = node.parent) (hid : ∀ node, (change node).id = node.id) :
    tree.SameShape (tree.modifyNode idx change) where
  size := tree.size_modifyNode idx change
  parent n := by
    unfold parent?
    rw [node?_modifyNode]
    split
    · cases tree.node? n with
      | none => rfl
      | some node => exact h node
    · rfl
  id n := map_node?_modifyNode change hid idx n

theorem installed_modifyNode (change : Node → Node)
    (h : ∀ node, (change node).installed = node.installed) :
    (tree.modifyNode idx change).installed n = tree.installed n := by
  simp only [installed, map_node?_modifyNode change h]

theorem snapshot_modifyNode (change : Node → Node)
    (h : ∀ node, (change node).snapshot = node.snapshot) :
    (tree.modifyNode idx change).snapshot n = tree.snapshot n := by
  simp only [snapshot, map_node?_modifyNode change h]

/-- A change of a node that is known is a new node in its place. -/
theorem modifyNode_eq_const (change : Node → Node) {node : Node} (h : tree.node? idx = some node) :
    tree.modifyNode idx change = tree.modifyNode idx fun _ => change node := by
  refine ext_get (fun n => ?_) fun _ => rfl
  rw [node?_modifyNode, node?_modifyNode]
  split
  · rename_i heq
    subst heq
    rw [h]
    rfl
  · rfl

/-- A change that leaves the node as it is leaves the tree as it is. -/
theorem modifyNode_eq_self (change : Node → Node)
    (h : ∀ node, tree.node? idx = some node → change node = node) :
    tree.modifyNode idx change = tree := by
  refine ext_get (fun n => ?_) fun _ => rfl
  rw [node?_modifyNode]
  split
  · rename_i heq
    subst heq
    cases hn : tree.node? idx with
    | none => rfl
    | some node => rw [Option.map_some, h node hn]
  · rfl

/-! ## One constraint changed -/

theorem sameShape_modifyConstraint {change : Constraint → Constraint} :
    tree.SameShape (tree.modifyConstraint id change) :=
  ⟨rfl, fun _ => rfl, fun _ => rfl⟩

@[simp] theorem size_constraints_modifyConstraint {change : Constraint → Constraint} :
    (tree.modifyConstraint id change).constraints.size = tree.constraints.size := by
  simp only [modifyConstraint, Array.size_modify]

@[simp] theorem installed_modifyConstraint {change : Constraint → Constraint} :
    (tree.modifyConstraint id change).installed n = tree.installed n := rfl

@[simp] theorem snapshot_modifyConstraint {change : Constraint → Constraint} :
    (tree.modifyConstraint id change).snapshot n = tree.snapshot n := rfl

/-! ## Installing and uninstalling -/

theorem node?_install (id : ConstraintId) (owner n : NodeIndex) :
    (tree.install id owner).node? n =
      if owner = n then
        (tree.node? n).map fun node => { node with installed := node.installed ++ [id] }
      else tree.node? n := by
  unfold install
  rw [node?_modifyConstraint, node?_modifyNode]

theorem constraint?_install (id : ConstraintId) (owner : NodeIndex) (j : ConstraintId) :
    (tree.install id owner).constraint? j =
      if id = j then
        (tree.constraint? j).map fun c => { c with active := true, owner := some owner }
      else tree.constraint? j := by
  unfold install
  rw [constraint?_modifyConstraint, constraint?_modifyNode]

/-- The owner's list is longer by the constraint, and no other. -/
theorem installed_install (h : owner < tree.size) (n : NodeIndex) :
    (tree.install id owner).installed n =
      if owner = n then tree.installed n ++ [id] else tree.installed n := by
  unfold installed
  rw [node?_install]
  split
  · rename_i heq
    subst heq
    obtain ⟨node, hnode⟩ := node?_of_lt h
    rw [hnode]
    rfl
  · rfl

@[simp] theorem snapshot_install : (tree.install id owner).snapshot n = tree.snapshot n := by
  unfold install
  rw [snapshot_modifyConstraint]
  exact snapshot_modifyNode _ fun _ => rfl

theorem sameShape_install : tree.SameShape (tree.install id owner) := by
  unfold install
  refine SameShape.trans ?_ sameShape_modifyConstraint
  exact sameShape_modifyNode _ (fun _ => rfl) fun _ => rfl

@[simp] theorem size_constraints_install :
    (tree.install id owner).constraints.size = tree.constraints.size := by
  unfold install
  rw [size_constraints_modifyConstraint]
  rfl

theorem node?_uninstall (id : ConstraintId) (owner : Option NodeIndex) (n : NodeIndex) :
    (tree.uninstall id owner).node? n =
      if owner = some n then
        (tree.node? n).map fun node =>
          { node with installed := node.installed.filter (· != id) }
      else tree.node? n := by
  cases owner with
  | none => rfl
  | some owner =>
    unfold uninstall
    rw [node?_modifyConstraint, node?_modifyNode]
    simp only [Option.some.injEq]

theorem constraint?_uninstall (id : ConstraintId) (owner : Option NodeIndex) (j : ConstraintId) :
    (tree.uninstall id owner).constraint? j =
      if id = j then (tree.constraint? j).map Constraint.idle else tree.constraint? j := by
  unfold uninstall
  rw [constraint?_modifyConstraint]
  cases owner <;> rfl

/-- The owner's list loses the constraint, and no other. -/
theorem installed_uninstall {owner : Option NodeIndex} (n : NodeIndex) :
    (tree.uninstall id owner).installed n =
      if owner = some n then (tree.installed n).filter (· != id) else tree.installed n := by
  unfold installed
  rw [node?_uninstall]
  split
  · cases tree.node? n <;> rfl
  · rfl

@[simp] theorem snapshot_uninstall {owner : Option NodeIndex} :
    (tree.uninstall id owner).snapshot n = tree.snapshot n := by
  unfold snapshot
  rw [node?_uninstall]
  split
  · cases tree.node? n <;> rfl
  · rfl

theorem sameShape_uninstall {owner : Option NodeIndex} :
    tree.SameShape (tree.uninstall id owner) := by
  unfold uninstall
  cases owner with
  | none => exact sameShape_modifyConstraint
  | some owner =>
    refine SameShape.trans ?_ sameShape_modifyConstraint
    exact sameShape_modifyNode _ (fun _ => rfl) fun _ => rfl

@[simp] theorem size_constraints_uninstall {owner : Option NodeIndex} :
    (tree.uninstall id owner).constraints.size = tree.constraints.size := by
  unfold uninstall
  rw [size_constraints_modifyConstraint]
  cases owner <;> rfl

/-! ## Switching -/

/-- **The outcomes of a switch**: nothing changes, or a constraint that was
off is installed where it belongs, or one that was on is taken off. Nothing
changes if there is nothing to do or nowhere to install the constraint. -/
inductive Switched (tree : Tree) (id : ConstraintId) (active : Bool) : Tree → Prop
  | kept : (∀ c, tree.constraint? id = some c → c.active = active ∨
        active = true ∧ tree.ownerFor? c.first c.second = none) →
      Switched tree id active tree
  | on {c : Constraint} {owner : NodeIndex} : active = true → tree.constraint? id = some c →
      c.active = false → tree.ownerFor? c.first c.second = some owner →
      Switched tree id active (tree.install id owner)
  | off {c : Constraint} : active = false → tree.constraint? id = some c → c.active = true →
      Switched tree id active (tree.uninstall id c.owner)

theorem switch_cases (tree : Tree) (id : ConstraintId) (active : Bool) :
    Switched tree id active (tree.switch id active) := by
  unfold switch setActive
  cases hc : tree.constraint? id with
  | none =>
    refine .kept fun c hc' => ?_
    rw [hc] at hc'
    cases hc'
  | some c =>
    have hself : ∀ c', tree.constraint? id = some c' → c' = c := by
      intro c' hc'
      rw [hc] at hc'
      exact (Option.some.inj hc').symm
    by_cases hsame : c.active = active
    · simp only [if_pos hsame]
      exact .kept fun c' hc' => .inl (hself c' hc' ▸ hsame)
    · simp only [if_neg hsame]
      cases active with
      | false =>
        rw [Bool.not_eq_false] at hsame
        exact .off rfl hc hsame
      | true =>
        rw [Bool.not_eq_true] at hsame
        simp only [↓reduceIte]
        cases ho : tree.ownerFor? c.first c.second with
        | none => exact .kept fun c' hc' => .inr ⟨rfl, hself c' hc' ▸ ho⟩
        | some owner => exact .on rfl hc hsame ho

namespace Switched

variable {active : Bool} {switched : Tree}

theorem sameShape (h : Switched tree id active switched) : tree.SameShape switched := by
  cases h with
  | kept => exact .refl tree
  | on => exact sameShape_install
  | off => exact sameShape_uninstall

theorem snapshot_eq (h : Switched tree id active switched) :
    switched.snapshot n = tree.snapshot n := by
  cases h with
  | kept => rfl
  | on => exact snapshot_install
  | off => exact snapshot_uninstall

theorem size_constraints (h : Switched tree id active switched) :
    switched.constraints.size = tree.constraints.size := by
  cases h with
  | kept => rfl
  | on => exact size_constraints_install
  | off => exact size_constraints_uninstall

/-- No constraint but the one switched changes. -/
theorem constraint?_of_ne (h : Switched tree id active switched) (hne : id ≠ j) :
    switched.constraint? j = tree.constraint? j := by
  cases h with
  | kept => rfl
  | on => rw [constraint?_install, if_neg hne]
  | off => rw [constraint?_uninstall, if_neg hne]

/-- **Of the one switched nothing changes** but whether it is on, and
where. -/
theorem constraint?_self (h : Switched tree id active switched)
    (hc : tree.constraint? id = some c) :
    ∃ on owner, switched.constraint? id = some { c with active := on, owner } := by
  cases h with
  | kept => exact ⟨c.active, c.owner, hc⟩
  | @on _ owner =>
    refine ⟨true, some owner, ?_⟩
    rw [constraint?_install, if_pos rfl, hc]
    rfl
  | off =>
    refine ⟨false, none, ?_⟩
    rw [constraint?_uninstall, if_pos rfl, hc]
    rfl

/-- Once switched off a constraint is off. -/
theorem off_of_get (h : Switched tree id false switched) (hc : switched.constraint? id = some c) :
    c.active = false := by
  cases h with
  | kept hkept =>
    rcases hkept c hc with hoff | ⟨hon, -⟩
    · exact hoff
    · cases hon
  | on hon => cases hon
  | off _ hc' =>
    rw [constraint?_uninstall, if_pos rfl, hc'] at hc
    cases hc
    rfl

end Switched

theorem sameShape_switch (active : Bool) : tree.SameShape (tree.switch id active) :=
  (tree.switch_cases id active).sameShape

@[simp] theorem snapshot_switch {active : Bool} :
    (tree.switch id active).snapshot n = tree.snapshot n :=
  (tree.switch_cases id active).snapshot_eq

@[simp] theorem size_constraints_switch {active : Bool} :
    (tree.switch id active).constraints.size = tree.constraints.size :=
  (tree.switch_cases id active).size_constraints

/-! ## Storing -/

/-- A constraint at the end of the arena, not installed. -/
def store (tree : Tree) (c : Constraint) : Tree :=
  { tree with constraints := tree.constraints.push c.idle }

/-- A constraint over another one, not installed. -/
def overwrite (tree : Tree) (id : ConstraintId) (c : Constraint) : Tree :=
  tree.modifyConstraint id fun _ => c.idle

theorem addConstraint_eq (tree : Tree) (c : Constraint) :
    tree.addConstraint c =
      if c.active then (tree.store c).switch tree.nextConstraint true else tree.store c := rfl

/-- **A replacement** is added if the constraint before it is addressed by a
snapshot list or is none, and written over it otherwise. -/
theorem replaceConstraint_eq (tree : Tree) (prior : ConstraintId) (c : Constraint) :
    tree.replaceConstraint prior c =
      if (tree.switch prior false).isSnapshotted prior ∨
          (tree.switch prior false).constraints.size ≤ prior then
        ((tree.switch prior false).addConstraint c, (tree.switch prior false).nextConstraint)
      else
        (if c.active then ((tree.switch prior false).overwrite prior c).switch prior true
          else (tree.switch prior false).overwrite prior c, prior) := rfl

theorem sameShape_store : tree.SameShape (tree.store c) :=
  ⟨rfl, fun _ => rfl, fun _ => rfl⟩

theorem constraint?_store (c : Constraint) (j : ConstraintId) :
    (tree.store c).constraint? j =
      if j = tree.nextConstraint then some c.idle else tree.constraint? j :=
  Array.getElem?_push

@[simp] theorem size_constraints_store :
    (tree.store c).constraints.size = tree.constraints.size + 1 :=
  Array.size_push _

theorem sameShape_overwrite : tree.SameShape (tree.overwrite id c) := sameShape_modifyConstraint

theorem constraint?_overwrite (id : ConstraintId) (c : Constraint) (j : ConstraintId) :
    (tree.overwrite id c).constraint? j =
      if id = j then (tree.constraint? j).map fun _ => c.idle else tree.constraint? j :=
  tree.constraint?_modifyConstraint id j _

theorem sameShape_addConstraint : tree.SameShape (tree.addConstraint c) := by
  rw [addConstraint_eq]
  split
  · exact sameShape_store.trans (sameShape_switch true)
  · exact sameShape_store

@[simp] theorem snapshot_addConstraint :
    (tree.addConstraint c).snapshot n = tree.snapshot n := by
  rw [addConstraint_eq]
  split
  · exact snapshot_switch
  · rfl

@[simp] theorem size_constraints_addConstraint :
    (tree.addConstraint c).constraints.size = tree.constraints.size + 1 := by
  rw [addConstraint_eq]
  split
  · rw [size_constraints_switch, size_constraints_store]
  · exact size_constraints_store

/-- What was in the arena stays as it is when a constraint is added. -/
theorem constraint?_addConstraint_of_lt (h : j < tree.constraints.size) :
    (tree.addConstraint c).constraint? j = tree.constraint? j := by
  have hne : j ≠ tree.nextConstraint := Nat.ne_of_lt h
  rw [addConstraint_eq]
  split
  · rw [(switch_cases ..).constraint?_of_ne hne.symm, constraint?_store, if_neg hne]
  · rw [constraint?_store, if_neg hne]

theorem sameShape_replaceConstraint {prior : ConstraintId} :
    tree.SameShape (tree.replaceConstraint prior c).1 := by
  have hoff : tree.SameShape (tree.switch prior false) := sameShape_switch false
  rw [replaceConstraint_eq]
  split
  · exact hoff.trans sameShape_addConstraint
  · split
    · exact (hoff.trans sameShape_overwrite).trans (sameShape_switch true)
    · exact hoff.trans sameShape_overwrite

@[simp] theorem snapshot_replaceConstraint {prior : ConstraintId} :
    (tree.replaceConstraint prior c).1.snapshot n = tree.snapshot n := by
  rw [replaceConstraint_eq]
  split
  · rw [snapshot_addConstraint, snapshot_switch]
  · split
    · rw [snapshot_switch]
      exact snapshot_switch
    · exact snapshot_switch

theorem sameShape_updateConstraint {constant : Binary64} {active : Bool} {priority : Binary32} :
    tree.SameShape (tree.updateConstraint id constant active priority) :=
  sameShape_modifyConstraint.trans (sameShape_switch active)

@[simp] theorem snapshot_updateConstraint {constant : Binary64} {active : Bool}
    {priority : Binary32} :
    (tree.updateConstraint id constant active priority).snapshot n = tree.snapshot n := by
  unfold updateConstraint
  rw [snapshot_switch, snapshot_modifyConstraint]

@[simp] theorem size_constraints_updateConstraint {constant : Binary64} {active : Bool}
    {priority : Binary32} :
    (tree.updateConstraint id constant active priority).constraints.size =
      tree.constraints.size := by
  unfold updateConstraint
  rw [size_constraints_switch, size_constraints_modifyConstraint]

/-! ## Snapshot lists -/

theorem sameShape_captureSnapshot : tree.SameShape (tree.captureSnapshot idx) :=
  sameShape_modifyNode _ (fun _ => rfl) fun _ => rfl

@[simp] theorem installed_captureSnapshot :
    (tree.captureSnapshot idx).installed n = tree.installed n :=
  installed_modifyNode _ fun _ => rfl

theorem snapshot_captureSnapshot (idx n : NodeIndex) :
    (tree.captureSnapshot idx).snapshot n =
      if idx = n then tree.installed n else tree.snapshot n := by
  unfold captureSnapshot snapshot installed
  rw [node?_modifyNode]
  split
  · cases tree.node? n <;> rfl
  · rfl

/-- A list that is what would be recorded stays. -/
theorem captureSnapshot_eq_self (h : tree.installed idx = tree.snapshot idx) :
    tree.captureSnapshot idx = tree := by
  refine modifyNode_eq_self _ fun node hnode => ?_
  unfold installed snapshot at h
  rw [hnode] at h
  exact congrArg (fun ids => { node with snapshot := ids }) h

theorem sameShape_pushSnapshot : tree.SameShape (tree.pushSnapshot idx id) :=
  sameShape_modifyNode _ (fun _ => rfl) fun _ => rfl

@[simp] theorem installed_pushSnapshot :
    (tree.pushSnapshot idx id).installed n = tree.installed n :=
  installed_modifyNode _ fun _ => rfl

/-- A list that is there is longer by the constraint, and no other. -/
theorem snapshot_pushSnapshot (h : idx < tree.size) (id : ConstraintId) (n : NodeIndex) :
    (tree.pushSnapshot idx id).snapshot n =
      if idx = n then tree.snapshot n ++ [id] else tree.snapshot n := by
  unfold pushSnapshot snapshot
  rw [node?_modifyNode]
  split
  · rename_i heq
    subst heq
    obtain ⟨node, hnode⟩ := node?_of_lt h
    rw [hnode]
    rfl
  · rfl

/-- **Addressed by some snapshot list.** -/
theorem isSnapshotted_iff : tree.isSnapshotted id = true ↔ ∃ n, id ∈ tree.snapshot n := by
  unfold isSnapshotted snapshot
  rw [Array.any_eq_true]
  constructor
  · rintro ⟨n, hn, hmem⟩
    refine ⟨n, ?_⟩
    rw [node?, Array.getElem?_eq_getElem hn]
    exact List.contains_iff_mem.1 hmem
  · rintro ⟨n, hmem⟩
    by_cases hn : n < tree.nodes.size
    · refine ⟨n, hn, ?_⟩
      rw [node?, Array.getElem?_eq_getElem hn] at hmem
      exact List.contains_iff_mem.2 hmem
    · rw [node?, Array.getElem?_eq_none (Nat.le_of_not_lt hn)] at hmem
      cases hmem

/-! ## A new node -/

/-- The tree with a node after the others, which its parent does not know
yet. -/
def extend (tree : Tree) (parent : NodeIndex) (node : Node) : Tree :=
  { tree with nodes := tree.nodes.push { node with parent := some parent } }

/-- A node with one more child. -/
def adopt (child : NodeIndex) (position : Option Nat) (node : Node) : Node :=
  { node with
    children := node.children.insertIdx
      ((position.map (min · node.children.length)).getD node.children.length) child }

theorem insertChild_eq (tree : Tree) (parent : NodeIndex) (node : Node) (position : Option Nat) :
    tree.insertChild parent node position =
      (tree.extend parent node).modifyNode parent (adopt tree.nextIndex position) := rfl

theorem node?_extend (tree : Tree) (parent : NodeIndex) (node : Node) (n : NodeIndex) :
    (tree.extend parent node).node? n =
      if n = tree.size then some { node with parent := some parent } else tree.node? n :=
  Array.getElem?_push

theorem node?_size (tree : Tree) : tree.node? tree.size = none :=
  Array.getElem?_eq_none (Nat.le_refl _)

/-- **What is read of nodes beside parents and children** is read of the new
node, and of the others as before. -/
theorem map_node?_insertChild {β : Type} {view : Node → β}
    (hparent : ∀ node parent, view { node with parent } = view node)
    (hchildren : ∀ node children, view { node with children } = view node) (tree : Tree)
    (parent : NodeIndex) (node : Node) (position : Option Nat) (n : NodeIndex) :
    ((tree.insertChild parent node position).node? n).map view =
      if n = tree.size then some (view node) else (tree.node? n).map view := by
  have hadopted : ((tree.insertChild parent node position).node? n).map view =
      ((tree.extend parent node).node? n).map view :=
    map_node?_modifyNode (adopt tree.nextIndex position) (fun node => hchildren node _) parent n
  rw [hadopted, node?_extend]
  split
  · exact congrArg some (hparent node _)
  · rfl

/-- **Under a parent that is there** a new node comes after the others, the
parent has one more child, and nothing else is changed. -/
theorem node?_insertChild {parent : NodeIndex} (hp : parent < tree.size) (node : Node)
    (position : Option Nat) (n : NodeIndex) :
    (tree.insertChild parent node position).node? n =
      if n = tree.size then some { node with parent := some parent }
      else if n = parent then (tree.node? n).map (adopt tree.size position)
      else tree.node? n := by
  rw [insertChild_eq, node?_modifyNode, node?_extend]
  by_cases hsize : n = tree.size
  · have hne : parent ≠ n := fun heq => Nat.ne_of_lt hp (heq.trans hsize)
    rw [if_neg hne, if_pos hsize, if_pos hsize]
  · rw [if_neg hsize, if_neg hsize]
    by_cases hparent : n = parent
    · rw [if_pos hparent, if_pos hparent.symm]
      rfl
    · rw [if_neg hparent, if_neg fun he => hparent he.symm]

/-- So its parent's list of children is longer, and no other. -/
theorem children_insertChild {parent : NodeIndex} (hp : parent < tree.size) {node : Node}
    (hnode : node.children = []) (position : Option Nat) (n : NodeIndex) :
    (tree.insertChild parent node position).children n =
      if n = parent then
        (tree.children n).insertIdx
          ((position.map (min · (tree.children n).length)).getD (tree.children n).length) tree.size
      else tree.children n := by
  unfold children
  rw [node?_insertChild hp]
  by_cases hsize : n = tree.size
  · have hne : n ≠ parent := fun heq => Nat.ne_of_lt hp (heq.symm.trans hsize)
    rw [if_pos hsize, if_neg hne, hsize, node?_size]
    exact hnode
  · rw [if_neg hsize]
    by_cases hparent : n = parent
    · subst hparent
      obtain ⟨old, hold⟩ := node?_of_lt hp
      rw [if_pos rfl, if_pos rfl, hold]
      rfl
    · rw [if_neg hparent, if_neg hparent]

end Tree

end LiveLayout
