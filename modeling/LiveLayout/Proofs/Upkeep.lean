import LiveLayout.Proofs.Edits
/-!
# Upkeep

Kinds of fact that edits keep, each stated once for all facts of its kind.
A reading of nodes that has no part in constraints (`Node.Beside`) is the
same after any number of them, one that has no part in the look of a node
(`Node.Unadorned`) is the same however nodes come to look; a property of
constraints that does not look at whether they are in force
(`Constraint.Unswitched`) holds of the whole arena as long as it holds of
what is put there (`Tree.Throughout`).
-/

namespace LiveLayout

/-- **A reading of a node beside its installed list.** -/
def Node.BesideList {β : Type} (view : Node → β) : Prop :=
  ∀ node ids, view { node with installed := ids } = view node

/-- **A reading of a node beside its constraints**: it looks neither at the
lists of them nor at the mark that they position the node. -/
structure Node.Beside {β : Type} (view : Node → β) : Prop where
  installed : Node.BesideList view
  snapshot : ∀ node ids, view { node with snapshot := ids } = view node
  autoresizing : ∀ node flag, view { node with autoresizing := flag } = view node

/-- **A reading of a node beside its look**: it looks neither at the kind of
the node nor at the attributes of its view and its layer. -/
def Node.Unadorned {β : Type} (view : Node → β) : Prop :=
  ∀ node kind attributes layer, view { node with kind, view := attributes, layer } = view node

/-- **A property of a constraint, in force or not.** -/
def Constraint.Unswitched (P : Constraint → Prop) : Prop :=
  ∀ c on owner, P c → P { c with active := on, owner }

namespace Tree

variable {β : Type} {view : Node → β} {P : Constraint → Prop}
variable {tree other last edited : Tree} {registry : Registry} {idx n : NodeIndex}
variable {id prior : ConstraintId} {c : Constraint} {active : Bool}

/-! ## Readings of nodes -/

/-- The same reading of every node. -/
def Reads (view : Node → β) (tree other : Tree) : Prop :=
  ∀ n, (other.node? n).map view = (tree.node? n).map view

theorem Reads.refl (tree : Tree) : tree.Reads view tree := fun _ => rfl

theorem Reads.trans (h : tree.Reads view other) (h' : other.Reads view last) :
    tree.Reads view last :=
  fun n => (h' n).trans (h n)

theorem reads_modifyNode (change : Node → Node) (h : ∀ node, view (change node) = view node) :
    tree.Reads view (tree.modifyNode idx change) :=
  map_node?_modifyNode change h idx

/-- Switching a constraint rewrites an installed list at most. -/
theorem reads_switch (tree : Tree) (id : ConstraintId) (active : Bool)
    (hv : Node.BesideList view) : tree.Reads view (tree.switch id active) := by
  have hcases := tree.switch_cases id active
  generalize tree.switch id active = switched at hcases ⊢
  cases hcases with
  | kept => exact .refl tree
  | on => exact reads_modifyNode _ fun node => hv node _
  | @off c =>
    unfold uninstall
    cases c.owner with
    | none => exact .refl tree
    | some owner => exact reads_modifyNode _ fun node => hv node _

theorem reads_addConstraint (hv : Node.BesideList view) :
    tree.Reads view (tree.addConstraint c) := by
  rw [addConstraint_eq]
  split
  · exact (tree.store c).reads_switch _ _ hv
  · exact .refl tree

theorem reads_replaceConstraint (hv : Node.BesideList view) :
    tree.Reads view (tree.replaceConstraint prior c).1 := by
  have hfreed : tree.Reads view (tree.switch prior false) := tree.reads_switch _ _ hv
  rw [replaceConstraint_eq]
  split
  · exact hfreed.trans (reads_addConstraint hv)
  · split
    · exact hfreed.trans (((tree.switch prior false).overwrite prior c).reads_switch _ _ hv)
    · exact hfreed

theorem reads_updateConstraint (hv : Node.BesideList view) {constant : Binary64}
    {priority : Binary32} :
    tree.Reads view (tree.updateConstraint id constant active priority) :=
  (tree.modifyConstraint id fun c => { c with constant, priority }).reads_switch _ _ hv

theorem reads_enforce (hv : Node.BesideList view) {modify : Bool} :
    tree.Reads view (tree.enforce modify c) := by
  rcases tree.enforce_cases modify c with ⟨prior, -, -, heq⟩ | ⟨-, heq⟩
  · rw [heq]
    exact reads_replaceConstraint hv
  · rw [heq]
    exact reads_addConstraint hv

theorem reads_constrain (hv : Node.Beside view) {modify : Bool} :
    tree.Reads view (tree.constrain modify c) := by
  rw [constrain_eq]
  exact (reads_enforce hv.installed).trans (reads_modifyNode _ fun node => hv.autoresizing node _)

theorem reads_captureSnapshot (hv : Node.Beside view) :
    tree.Reads view (tree.captureSnapshot idx) :=
  reads_modifyNode _ fun node => hv.snapshot node _

theorem reads_pushSnapshot (hv : Node.Beside view) : tree.Reads view (tree.pushSnapshot idx id) :=
  reads_modifyNode _ fun node => hv.snapshot node _

/-- **The constraints of an entry change nothing beside constraints.** -/
theorem reads_applyConstraints (hv : Node.Beside view) (modify : Bool) (field : ConstraintsField) :
    tree.Reads view (tree.applyConstraints registry idx modify field).1 := by
  cases field with
  | expressions entries =>
    refine Diagnostic.collect_rel (Reads view) .refl .trans (fun tree entry => ?_) tree entries
    unfold applyExpression
    split
    · exact reads_constrain hv
    · exact .refl tree
  | indexed configs =>
    refine Diagnostic.collect_rel (Reads view) .refl .trans (fun tree entry => ?_) tree
      configs.zipIdx
    unfold applyConfig
    split
    · exact .refl tree
    · split
      · exact reads_updateConstraint hv.installed
      · split
        · exact (reads_addConstraint hv.installed).trans (reads_pushSnapshot hv)
        · exact .refl tree
  | unsupported => exact .refl tree

/-- What is read the same of nodes that differ in their looks is read the
same after any edit. -/
theorem Edit.reads (e : Edit registry idx tree edited) (hv : Node.Beside view)
    (hplace : ∀ changed node : Node, changed.SamePlace node → view changed = view node) :
    tree.Reads view edited := by
  cases e with
  | style hn hkeep => exact fun n => map_node?_restyle view hn (hplace _ _ hkeep)
  | express => exact reads_constrain hv
  | update => exact reads_updateConstraint hv.installed
  | append => exact (reads_addConstraint hv.installed).trans (reads_pushSnapshot hv)

theorem beside_children : Node.Beside (·.children) :=
  ⟨fun _ _ => rfl, fun _ _ => rfl, fun _ _ => rfl⟩

theorem Reads.children_eq (h : tree.Reads (·.children) other) (n : NodeIndex) :
    other.children n = tree.children n := by
  unfold children
  rw [h n]

/-- No edit changes who the children of a node are. -/
theorem Edit.children_eq (e : Edit registry idx tree edited) (n : NodeIndex) :
    edited.children n = tree.children n :=
  (e.reads beside_children fun _ _ hkeep => hkeep.children).children_eq n

/-! ## Properties of the arena -/

/-- **Every constraint of the arena has a property.** -/
def Throughout (P : Constraint → Prop) (tree : Tree) : Prop :=
  ∀ id c, tree.constraint? id = some c → P c

namespace Throughout

theorem switch (h : tree.Throughout P) (hP : Constraint.Unswitched P) (id : ConstraintId)
    (active : Bool) : (tree.switch id active).Throughout P := by
  intro j k hk
  by_cases hj : id = j
  · subst hj
    have hlt := lt_of_constraint? hk
    rw [size_constraints_switch] at hlt
    obtain ⟨c, hc⟩ := constraint?_of_lt hlt
    obtain ⟨on, owner, hswitched⟩ := (tree.switch_cases id active).constraint?_self hc
    cases hswitched.symm.trans hk
    exact hP c on owner (h id c hc)
  · rw [(tree.switch_cases id active).constraint?_of_ne hj] at hk
    exact h j k hk

theorem store (h : tree.Throughout P) (hP : Constraint.Unswitched P) (hc : P c) :
    (tree.store c).Throughout P := by
  intro j k hk
  rw [constraint?_store] at hk
  split at hk
  · cases hk
    exact hP c false none hc
  · exact h j k hk

theorem overwrite (h : tree.Throughout P) (hP : Constraint.Unswitched P) (hc : P c)
    (id : ConstraintId) : (tree.overwrite id c).Throughout P := by
  intro j k hk
  rw [constraint?_overwrite] at hk
  split at hk
  · obtain ⟨-, -, rfl⟩ := Option.map_eq_some_iff.1 hk
    exact hP c false none hc
  · exact h j k hk

theorem addConstraint (h : tree.Throughout P) (hP : Constraint.Unswitched P) (hc : P c) :
    (tree.addConstraint c).Throughout P := by
  rw [addConstraint_eq]
  split
  · exact (h.store hP hc).switch hP _ _
  · exact h.store hP hc

theorem replaceConstraint (h : tree.Throughout P) (hP : Constraint.Unswitched P) (hc : P c)
    (prior : ConstraintId) : (tree.replaceConstraint prior c).1.Throughout P := by
  have hfreed := h.switch hP prior false
  rw [replaceConstraint_eq]
  split
  · exact hfreed.addConstraint hP hc
  · split
    · exact (hfreed.overwrite hP hc prior).switch hP _ _
    · exact hfreed.overwrite hP hc prior

theorem constrain (h : tree.Throughout P) (hP : Constraint.Unswitched P) (hc : P c)
    (modify : Bool) : (tree.constrain modify c).Throughout P := by
  have henforced : (tree.enforce modify c).Throughout P := by
    rcases tree.enforce_cases modify c with ⟨prior, -, -, heq⟩ | ⟨-, heq⟩
    · rw [heq]
      exact h.replaceConstraint hP hc prior
    · rw [heq]
      exact h.addConstraint hP hc
  exact henforced

theorem updateConstraint (h : tree.Throughout P) (hP : Constraint.Unswitched P)
    {constant : Binary64} {priority : Binary32}
    (hc : ∀ c, P c → P { c with constant, priority }) (id : ConstraintId) (active : Bool) :
    (tree.updateConstraint id constant active priority).Throughout P := by
  have hamended : (tree.modifyConstraint id fun c => { c with constant, priority }).Throughout
      P := by
    intro j k hk
    rw [constraint?_modifyConstraint] at hk
    split at hk
    · obtain ⟨c, hc', rfl⟩ := Option.map_eq_some_iff.1 hk
      exact hc c (h j c hc')
    · exact h j k hk
  exact hamended.switch hP id active

/-- **Edits keep a property of the arena** that holds of what expressions
and descriptions ask for, and that an update cannot break. -/
theorem edit (h : tree.Throughout P) (e : Edit registry idx tree edited)
    (hP : Constraint.Unswitched P)
    (hexpress : ∀ {name text c}, tree.constraintFor registry idx name text = .ok c → P c)
    (hupdate : ∀ {c} constant priority, P c → P { c with constant, priority })
    (happend : ∀ {config : ConstraintConfig} {live}, config.toLive? tree idx = some live →
      P { live with added := true }) : edited.Throughout P := by
  cases e with
  | style => exact h
  | express modify hc => exact h.constrain hP (hexpress hc) modify
  | update => exact h.updateConstraint hP (fun _ => hupdate _ _) _ _
  | append _ hlive => exact h.addConstraint hP (happend hlive)

end Throughout

end Tree

/-! ## Looks -/

namespace Node

variable {β : Type} {view : Node → β} {node changed : Node} {key : String} {value : Json}

theorem Unadorned.setImage (hv : Unadorned view) (node : Node) (slot : ImageSlot)
    (content : ImageContent) : view (node.setImage slot content) = view node := by
  unfold Node.setImage
  split
  · exact hv node _ node.view node.layer
  · exact hv node _ node.view node.layer
  · rfl

theorem Unadorned.setProperty? (hv : Unadorned view) {level : Nat}
    (h : node.setProperty? level key value = some changed) : view changed = view node := by
  unfold Node.setProperty? at h
  split at h
  · cases h
    exact hv node _ node.view node.layer
  · obtain ⟨attributes, -, rfl⟩ := Option.map_eq_some_iff.1 h
    exact hv node node.kind attributes node.layer

theorem Unadorned.setLayer? (hv : Unadorned view) (h : node.setLayer? key value = some changed) :
    view changed = view node := by
  obtain ⟨layer, -, rfl⟩ := Option.map_eq_some_iff.1 h
  exact hv node node.kind node.view layer

theorem unadorned_children : Unadorned (·.children) := fun _ _ _ _ => rfl

theorem unadorned_installed : Unadorned (·.installed) := fun _ _ _ _ => rfl

theorem unadorned_snapshot : Unadorned (·.snapshot) := fun _ _ _ _ => rfl

theorem unadorned_frame : Unadorned (·.frame) := fun _ _ _ _ => rfl

theorem beside_frame : Beside (·.frame) := ⟨fun _ _ => rfl, fun _ _ => rfl, fun _ _ => rfl⟩

end Node

namespace Engine

variable {β : Type} {view : Node → β} {idx : NodeIndex}

theorem reads_requestImage (hv : Node.Unadorned view) (engine : Engine) (id : Identifier)
    (slot : ImageSlot) (src : String) :
    engine.tree.Reads view (engine.requestImage idx id slot src).1.tree := by
  have hstored : ∀ content, engine.tree.Reads view (engine.storeImage idx slot content).tree :=
    fun content => Tree.reads_modifyNode _ fun node => hv.setImage node slot content
  unfold requestImage
  split
  · split
    · cases engine.images.fetch src with
      | ok content => exact hstored _
      | error reason => exact .refl engine.tree
    · exact .refl engine.tree
  · cases engine.images.named? src with
    | some content => exact hstored _
    | none => exact .refl engine.tree

theorem reads_applyProperty (hv : Node.Unadorned view) (engine : Engine)
    (property : String × Json) :
    engine.tree.Reads view (applyProperty idx engine property).1.tree := by
  unfold applyProperty
  split
  · exact .refl engine.tree
  · rename_i node hnode
    split
    · exact reads_requestImage hv engine _ _ _
    · split
      · rename_i hset
        exact fun _ => Tree.map_node?_restyle view hnode (hv.setProperty? hset)
      · exact .refl engine.tree

theorem reads_applyLayerKey (hv : Node.Unadorned view) (engine : Engine)
    (property : String × Json) :
    engine.tree.Reads view (applyLayerKey idx engine property).1.tree := by
  unfold applyLayerKey
  split
  · exact .refl engine.tree
  · rename_i node hnode
    split
    · rename_i hset
      exact fun _ => Tree.map_node?_restyle view hnode (hv.setLayer? hset)
    · exact .refl engine.tree

/-- **A node is given its look, and nothing else of it changes.** -/
theorem reads_styled (hv : Node.Unadorned view) (engine : Engine) (idx : NodeIndex)
    (change : ViewChange) : engine.tree.Reads view (engine.styled idx change).tree := by
  let Same (e e' : Engine) : Prop := e.tree.Reads view e'.tree
  have hproperties : Same engine (engine.applyProperties idx (change.properties.getD [])).1 :=
    Diagnostic.collect_rel Same (fun e => .refl e.tree) (fun h h' => h.trans h')
      (reads_applyProperty hv) engine _
  have hlayer : Same (engine.applyProperties idx (change.properties.getD [])).1
      (engine.styled idx change) :=
    Diagnostic.collect_rel Same (fun e => .refl e.tree) (fun h h' => h.trans h')
      (reads_applyLayerKey hv) _ _
  exact hproperties.trans hlayer

/-- **The content of an entry changes nothing beside looks and
constraints.** -/
theorem reads_applyContent (hv : Node.Unadorned view) (hv' : Node.Beside view) (engine : Engine)
    (idx : NodeIndex) (modify : Bool) (change : ViewChange) :
    engine.tree.Reads view (engine.applyContent idx modify change).1.tree := by
  have hstyled := reads_styled hv engine idx change
  rw [applyContent_eq]
  cases change.constraints with
  | none => exact hstyled
  | some field => exact hstyled.trans (Tree.reads_applyConstraints hv' modify field)

/-- A look leaves the installed lists as they are. -/
theorem installed_styled (engine : Engine) (idx : NodeIndex) (change : ViewChange)
    (n : NodeIndex) : (engine.styled idx change).tree.installed n = engine.tree.installed n := by
  unfold Tree.installed
  rw [engine.reads_styled Node.unadorned_installed idx change n]

/-- A look leaves the snapshot lists as they are. -/
theorem snapshot_styled (engine : Engine) (idx : NodeIndex) (change : ViewChange)
    (n : NodeIndex) : (engine.styled idx change).tree.snapshot n = engine.tree.snapshot n := by
  unfold Tree.snapshot
  rw [engine.reads_styled Node.unadorned_snapshot idx change n]

end Engine

end LiveLayout
