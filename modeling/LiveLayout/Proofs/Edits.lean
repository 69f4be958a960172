import LiveLayout.Engine.Session
import LiveLayout.Proofs.Installation
/-!
# Edits

What the content of an entry does to a tree, one step at a time. Whatever
the entry holds, it comes to `Edit`s of the node it is about: the node gets
another look, an expression puts a constraint in force, a description
updates a constraint that the node's snapshot list addresses or appends one
to it. Both kinds of entry are runs of these (`edited_modify`,
`edited_filled`), and everything an edit keeps, an entry keeps.
-/

namespace LiveLayout

/-! ## Steps one after another -/

/-- What each step keeps, a whole list of steps keeps. -/
theorem Diagnostic.collect_rel {σ α : Type} {step : σ → α → σ × List Diagnostic}
    (R : σ → σ → Prop) (refl : ∀ s, R s s) (trans : ∀ {a b c}, R a b → R b c → R a c)
    (h : ∀ s a, R s (step s a).1) (s : σ) (l : List α) :
    R s (Diagnostic.collect step s l).1 := by
  induction l generalizing s with
  | nil => exact refl s
  | cons a rest ih => exact trans (h s a) (ih (step s a).1)

/-! ## Looks -/

namespace Node

theorem SamePlace.refl (node : Node) : node.SamePlace node := ⟨rfl, rfl, rfl, rfl, rfl⟩

theorem samePlace_setImage (node : Node) (slot : ImageSlot) (content : ImageContent) :
    (node.setImage slot content).SamePlace node := by
  unfold setImage
  split
  · exact ⟨rfl, rfl, rfl, rfl, rfl⟩
  · exact ⟨rfl, rfl, rfl, rfl, rfl⟩
  · exact .refl node

theorem samePlace_of_setProperty? {level : Nat} {node changed : Node} {key : String} {value : Json}
    (h : node.setProperty? level key value = some changed) : changed.SamePlace node := by
  unfold setProperty? at h
  split at h
  · cases h
    exact ⟨rfl, rfl, rfl, rfl, rfl⟩
  · obtain ⟨view, -, rfl⟩ := Option.map_eq_some_iff.1 h
    exact ⟨rfl, rfl, rfl, rfl, rfl⟩

theorem samePlace_of_setLayer? {node changed : Node} {key : String} {value : Json}
    (h : node.setLayer? key value = some changed) : changed.SamePlace node := by
  obtain ⟨layer, -, rfl⟩ := Option.map_eq_some_iff.1 h
  exact ⟨rfl, rfl, rfl, rfl, rfl⟩

end Node

namespace Tree

variable {tree edited : Tree} {registry : Registry} {idx n : NodeIndex} {id : ConstraintId}
variable {name text : String} {c : Constraint}

/-! ## What an expression asks for -/

/-- A reference depends on the shape alone. -/
theorem SameShape.resolve?_eq {other : Tree} (h : tree.SameShape other) (registry : Registry)
    (idx : NodeIndex) (reference : Reference) :
    registry.resolve? other idx reference = registry.resolve? tree idx reference := by
  cases reference with
  | self => rfl
  | superview => exact h.parent idx
  | id name => rfl

/-- **An expression that is accepted**: it parses, its attribute is known,
its second anchor resolves, and the constraint is the one they make. -/
theorem constraintFor_ok (h : tree.constraintFor registry idx name text = .ok c) :
    ∃ expression own second, Expression.parse text = .ok expression ∧
      Attribute.ofName? name = some own ∧
      tree.secondFor registry idx name own expression = .ok second ∧
      c = { first := ⟨idx, own⟩, second, constant := expression.offset, active := true } := by
  unfold constraintFor at h
  split at h
  · cases h
  · rename_i expression hparse
    split at h
    · cases h
    · rename_i own hown
      split at h
      · cases h
      · rename_i second hsecond
        split at h
        · cases h
        · cases h
          exact ⟨expression, own, second, hparse, hown, hsecond, rfl⟩

/-- What is accepted has a node to be installed on. -/
theorem exists_ownerFor?_of_constraintFor
    (h : tree.constraintFor registry idx name text = .ok c) :
    ∃ owner, tree.ownerFor? c.first c.second = some owner := by
  unfold constraintFor at h
  split at h
  · cases h
  · split at h
    · cases h
    · split at h
      · cases h
      · split at h
        · cases h
        · rename_i owner howner
          cases h
          exact ⟨owner, howner⟩

/-- **And so it relates nodes of the tree**, wherever its identifiers lead. -/
theorem anchored_of_constraintFor (hr : tree.Rooted) (hidx : idx < tree.size)
    (h : tree.constraintFor registry idx name text = .ok c) : tree.Anchored c := by
  obtain ⟨owner, howner⟩ := exists_ownerFor?_of_constraintFor h
  obtain ⟨expression, own, second, -, -, -, rfl⟩ := constraintFor_ok h
  refine ⟨hidx, fun s hs => ?_⟩
  obtain rfl : second = some s := hs
  exact hr.lt_size_of_commonAncestor? hidx howner

/-! ## What a description asks for -/

/-- An item names a node of the tree. -/
theorem itemOf?_lt {item : Identifier} (h : tree.itemOf? idx item = some n) : n < tree.size := by
  obtain ⟨node, hnode, hitem⟩ := Option.bind_eq_some_iff.1 h
  split at hitem
  · cases hitem
    exact lt_size_of_node? hnode
  · have hfound := List.find?_some hitem
    exact isSome_node?.1 (Option.isSome_of_any hfound)

theorem anchorOf?_lt {a : AnchorConfig} {anchor : Anchor}
    (h : tree.anchorOf? idx a = some anchor) : anchor.node < tree.size := by
  unfold anchorOf? at h
  split at h
  · rename_i node attr hitem _
    cases h
    obtain ⟨item, -, hitem⟩ := Option.bind_eq_some_iff.1 hitem
    exact itemOf?_lt hitem
  · cases h

theorem anchored_of_toLive? {config : ConstraintConfig} (h : config.toLive? tree idx = some c) :
    tree.Anchored c := by
  unfold ConstraintConfig.toLive? at h
  split at h
  · rename_i first second hfirst hsecond
    split at h
    · cases h
      refine ⟨anchorOf?_lt hfirst, fun s hs => ?_⟩
      obtain rfl : second = some s := hs
      unfold ConstraintConfig.secondAnchor? at hsecond
      split at hsecond
      · cases hsecond
      · obtain ⟨anchor, hanchor, heq⟩ := Option.map_eq_some_iff.1 hsecond
        cases heq
        exact anchorOf?_lt hanchor
    · cases h
  · cases h

/-! ## One edit -/

/-- **One thing an entry does** to the tree, about one node. -/
inductive Edit (registry : Registry) (idx : NodeIndex) (tree : Tree) : Tree → Prop
  /-- The node gets another look. -/
  | style {node changed : Node} : tree.node? idx = some node → changed.SamePlace node →
      Edit registry idx tree (tree.modifyNode idx fun _ => changed)
  /-- The constraint of an expression is put in force. -/
  | express (modify : Bool) {name text : String} {c : Constraint} :
      tree.constraintFor registry idx name text = .ok c →
      Edit registry idx tree (tree.constrain modify c)
  /-- A description updates the constraint it addresses. -/
  | update {config : ConstraintConfig} {id : ConstraintId} :
      tree.addressed? idx config = some id →
      Edit registry idx tree
        (tree.updateConstraint id (config.constant.getD .zero) config.isActive config.priority)
  /-- A description that addresses nothing is appended. -/
  | append {config : ConstraintConfig} {live : Constraint} :
      tree.addressed? idx config = none → config.toLive? tree idx = some live →
      Edit registry idx tree
        ((tree.addConstraint { live with added := true }).pushSnapshot idx tree.nextConstraint)

/-- Edits in a row. -/
def Edits (registry : Registry) (idx : NodeIndex) : Tree → Tree → Prop :=
  Relation.ReflTransGen (Edit registry idx)

/-- What `constrain` does before it marks the node as positioned. -/
def enforce (tree : Tree) (modify : Bool) (c : Constraint) : Tree :=
  match if modify then tree.findOnLineage? c.first else none with
  | some prior => (tree.replaceConstraint prior c).1
  | none => tree.addConstraint c

/-- A node marked as positioned by constraints. -/
def position (tree : Tree) (idx : NodeIndex) : Tree :=
  tree.modifyNode idx fun node => { node with autoresizing := false }

theorem constrain_eq (tree : Tree) (modify : Bool) (c : Constraint) :
    tree.constrain modify c = (tree.enforce modify c).position c.first.node := rfl

theorem sameShape_position : tree.SameShape (tree.position idx) :=
  sameShape_modifyNode _ (fun _ => rfl) fun _ => rfl

@[simp] theorem installed_position : (tree.position idx).installed n = tree.installed n :=
  installed_modifyNode _ fun _ => rfl

@[simp] theorem snapshot_position : (tree.position idx).snapshot n = tree.snapshot n :=
  snapshot_modifyNode _ fun _ => rfl

/-- A constraint is put in force by a replacement or by an addition. -/
theorem enforce_cases (tree : Tree) (modify : Bool) (c : Constraint) :
    (∃ prior, modify = true ∧ tree.findOnLineage? c.first = some prior ∧
      tree.enforce modify c = (tree.replaceConstraint prior c).1) ∨
    ((modify = true → tree.findOnLineage? c.first = none) ∧
      tree.enforce modify c = tree.addConstraint c) := by
  unfold enforce
  cases modify with
  | false =>
    refine .inr ⟨fun h => ?_, rfl⟩
    cases h
  | true =>
    cases hp : tree.findOnLineage? c.first with
    | none => exact .inr ⟨fun _ => rfl, rfl⟩
    | some prior => exact .inl ⟨prior, rfl, rfl, rfl⟩

theorem sameShape_enforce {modify : Bool} : tree.SameShape (tree.enforce modify c) := by
  rcases tree.enforce_cases modify c with ⟨prior, -, -, heq⟩ | ⟨-, heq⟩
  · rw [heq]
    exact sameShape_replaceConstraint
  · rw [heq]
    exact sameShape_addConstraint

@[simp] theorem snapshot_enforce {modify : Bool} :
    (tree.enforce modify c).snapshot n = tree.snapshot n := by
  rcases tree.enforce_cases modify c with ⟨prior, -, -, heq⟩ | ⟨-, heq⟩
  · rw [heq, snapshot_replaceConstraint]
  · rw [heq, snapshot_addConstraint]

theorem sameShape_constrain {modify : Bool} : tree.SameShape (tree.constrain modify c) := by
  rw [constrain_eq]
  exact sameShape_enforce.trans sameShape_position

@[simp] theorem snapshot_constrain {modify : Bool} :
    (tree.constrain modify c).snapshot n = tree.snapshot n := by
  rw [constrain_eq, snapshot_position, snapshot_enforce]

theorem Coherent.constrain (h : tree.Coherent) (modify : Bool) (hc : tree.Anchored c) :
    (tree.constrain modify c).Coherent := by
  have henforced : (tree.enforce modify c).Coherent := by
    rcases tree.enforce_cases modify c with ⟨prior, -, -, heq⟩ | ⟨-, heq⟩
    · rw [heq]
      exact h.replaceConstraint prior hc
    · rw [heq]
      exact h.addConstraint hc
  rw [constrain_eq]
  exact henforced.of_same sameShape_position (fun _ => installed_position) fun _ => rfl

/-- No edit moves a node. -/
theorem Edit.sameShape (e : Edit registry idx tree edited) : tree.SameShape edited := by
  cases e with
  | style hn hkeep => exact sameShape_restyle hn hkeep
  | express => exact sameShape_constrain
  | update => exact sameShape_updateConstraint
  | append => exact sameShape_addConstraint.trans sameShape_pushSnapshot

/-- **An edit of a node keeps the invariant of the arena.** -/
theorem Edit.coherent (e : Edit registry idx tree edited) (h : tree.Coherent)
    (hidx : idx < tree.size) : edited.Coherent := by
  cases e with
  | style hn hkeep => exact h.restyle hn hkeep
  | express modify hc =>
    exact h.constrain modify (anchored_of_constraintFor h.toRooted hidx hc)
  | update => exact h.updateConstraint _ _ _ _
  | @append _ live _ hlive =>
    have ha := anchored_of_toLive? hlive
    have ha' : tree.Anchored { live with added := true } := ⟨ha.first, ha.second⟩
    exact (h.addConstraint ha').pushSnapshot _ _

namespace Edits

theorem sameShape (e : Edits registry idx tree edited) : tree.SameShape edited := by
  induction e with
  | refl => exact .refl tree
  | tail _ e ih => exact ih.trans e.sameShape

theorem coherent (e : Edits registry idx tree edited) (h : tree.Coherent)
    (hidx : idx < tree.size) : edited.Coherent := by
  induction e with
  | refl => exact h
  | tail before e ih => exact e.coherent ih ((Edits.sameShape before).size ▸ hidx)

end Edits

/-! ## The content of an entry -/

theorem edits_applyExpression (modify : Bool) (entry : String × String) :
    Edits registry idx tree (tree.applyExpression registry idx modify entry).1 := by
  unfold applyExpression
  split
  · rename_i hc
    exact .single (.express modify hc)
  · exact .refl

theorem edits_applyConfig (entry : Json × Nat) :
    Edits registry idx tree (tree.applyConfig idx entry).1 := by
  unfold applyConfig
  split
  · exact .refl
  · split
    · rename_i haddressed
      exact .single (.update haddressed)
    · rename_i haddressed
      split
      · rename_i hlive
        exact .single (.append haddressed hlive)
      · exact .refl

theorem edits_applyConstraints (modify : Bool) (field : ConstraintsField) :
    Edits registry idx tree (tree.applyConstraints registry idx modify field).1 := by
  cases field with
  | expressions entries =>
    exact Diagnostic.collect_rel (Edits registry idx) (fun _ => .refl) .trans
      (fun _ entry => edits_applyExpression modify entry) tree entries
  | indexed configs =>
    exact Diagnostic.collect_rel (Edits registry idx) (fun _ => .refl) .trans
      (fun _ entry => edits_applyConfig entry) tree configs.zipIdx
  | unsupported value => exact .refl

/-- The fields of a node's frame, put together before any is stored. -/
theorem applyFrame_of_node? {node : Node} (hnode : tree.node? idx = some node)
    (fields : List (String × Json)) :
    tree.applyFrame registry idx fields =
      (tree.modifyNode idx fun n =>
          { n with
            frame :=
              (Diagnostic.collect (tree.applyField registry idx node.id) node.frame fields).1 },
        (Diagnostic.collect (tree.applyField registry idx node.id) node.frame fields).2) := by
  simp only [applyFrame, hnode]

/-- A frame has no part in constraints. -/
theorem constraint?_applyFrame (fields : List (String × Json)) (id : ConstraintId) :
    (tree.applyFrame registry idx fields).1.constraint? id = tree.constraint? id := by
  cases hnode : tree.node? idx with
  | none =>
    unfold applyFrame
    rw [hnode]
  | some node =>
    rw [applyFrame_of_node? hnode]
    rfl

theorem edits_applyFrame (fields : List (String × Json)) :
    Edits registry idx tree (tree.applyFrame registry idx fields).1 := by
  cases hnode : tree.node? idx with
  | none =>
    unfold applyFrame
    rw [hnode]
    exact .refl
  | some node =>
    rw [applyFrame_of_node? hnode, modifyNode_eq_const _ hnode]
    exact .single (.style hnode ⟨rfl, rfl, rfl, rfl, rfl⟩)

end Tree

namespace Engine

variable {engine edited last : Engine} {idx : NodeIndex}

/-- **An engine whose tree was edited** about one node. Registry,
configuration and images are as before. -/
structure Edited (idx : NodeIndex) (engine edited : Engine) : Prop where
  registry : edited.registry = engine.registry
  config : edited.config = engine.config
  images : edited.images = engine.images
  tree : Tree.Edits engine.registry idx engine.tree edited.tree

namespace Edited

theorem refl (engine : Engine) : engine.Edited idx engine := ⟨rfl, rfl, rfl, .refl⟩

theorem trans (h : Edited idx engine edited) (h' : Edited idx edited last) :
    Edited idx engine last where
  registry := h'.registry.trans h.registry
  config := h'.config.trans h.config
  images := h'.images.trans h.images
  tree := h.tree.trans (h.registry ▸ h'.tree)

/-- One node that is there gets another look. -/
theorem style {node changed : Node} (hn : engine.tree.node? idx = some node)
    (hkeep : changed.SamePlace node) :
    Edited idx engine { engine with tree := engine.tree.modifyNode idx fun _ => changed } :=
  ⟨rfl, rfl, rfl, .single (.style hn hkeep)⟩

end Edited

theorem edited_storeImage {node : Node} (hn : engine.tree.node? idx = some node) (slot : ImageSlot)
    (content : ImageContent) : Edited idx engine (engine.storeImage idx slot content) := by
  unfold storeImage
  rw [Tree.modifyNode_eq_const _ hn]
  exact .style hn (node.samePlace_setImage slot content)

theorem edited_requestImage {node : Node} (hn : engine.tree.node? idx = some node)
    (id : Identifier) (slot : ImageSlot) (src : String) :
    Edited idx engine (engine.requestImage idx id slot src).1 := by
  unfold requestImage
  cases isRemote src with
  | true =>
    cases engine.config.mode with
    | development =>
      cases engine.images.fetch src with
      | ok content => exact edited_storeImage hn slot _
      | error reason => exact .refl engine
    | production => exact ⟨rfl, rfl, rfl, .refl⟩
  | false =>
    cases engine.images.named? src with
    | some content => exact edited_storeImage hn slot _
    | none => exact .refl engine

theorem edited_applyProperty (engine : Engine) (property : String × Json) :
    Edited idx engine (applyProperty idx engine property).1 := by
  unfold applyProperty
  split
  · exact .refl engine
  · rename_i node hnode
    split
    · exact edited_requestImage hnode _ _ _
    · split
      · rename_i hset
        exact .style hnode (Node.samePlace_of_setProperty? hset)
      · exact .refl engine

theorem edited_applyLayerKey (engine : Engine) (property : String × Json) :
    Edited idx engine (applyLayerKey idx engine property).1 := by
  unfold applyLayerKey
  split
  · exact .refl engine
  · rename_i node hnode
    split
    · rename_i hset
      exact .style hnode (Node.samePlace_of_setLayer? hset)
    · exact .refl engine

theorem edited_applyProperties (engine : Engine) (bag : List (String × Json)) :
    Edited idx engine (engine.applyProperties idx bag).1 :=
  Diagnostic.collect_rel (Edited idx) Edited.refl Edited.trans edited_applyProperty engine bag

theorem edited_applyLayer (engine : Engine) (bag : List (String × Json)) :
    Edited idx engine (engine.applyLayer idx bag).1 :=
  Diagnostic.collect_rel (Edited idx) Edited.refl Edited.trans edited_applyLayerKey engine bag

/-- The engine after the look of a node is applied, before its constraints. -/
def styled (engine : Engine) (idx : NodeIndex) (view : ViewChange) : Engine :=
  ((engine.applyProperties idx (view.properties.getD [])).1.applyLayer idx
    (view.layer.getD [])).1

theorem edited_styled (engine : Engine) (idx : NodeIndex) (view : ViewChange) :
    Edited idx engine (engine.styled idx view) :=
  (edited_applyProperties engine _).trans (edited_applyLayer _ _)

/-- The look of a node has no part in constraints. -/
theorem constraints_applyProperty (engine : Engine) (property : String × Json) :
    (applyProperty idx engine property).1.tree.constraints = engine.tree.constraints := by
  unfold applyProperty
  split
  · rfl
  · split
    · unfold requestImage
      split
      · split
        · cases engine.images.fetch _ <;> rfl
        · rfl
      · cases engine.images.named? _ <;> rfl
    · split <;> rfl

theorem constraints_applyLayerKey (engine : Engine) (property : String × Json) :
    (applyLayerKey idx engine property).1.tree.constraints = engine.tree.constraints := by
  unfold applyLayerKey
  split
  · rfl
  · split <;> rfl

theorem constraints_styled (engine : Engine) (idx : NodeIndex) (view : ViewChange) :
    (engine.styled idx view).tree.constraints = engine.tree.constraints := by
  let Same (e e' : Engine) : Prop := e'.tree.constraints = e.tree.constraints
  have hproperties : Same engine (engine.applyProperties idx (view.properties.getD [])).1 :=
    Diagnostic.collect_rel Same (fun _ => rfl) (fun h h' => h'.trans h) constraints_applyProperty
      engine _
  have hlayer : Same (engine.applyProperties idx (view.properties.getD [])).1
      (engine.styled idx view) :=
    Diagnostic.collect_rel Same (fun _ => rfl) (fun h h' => h'.trans h) constraints_applyLayerKey
      _ _
  exact hlayer.trans hproperties

/-- The constraints of an entry are applied to the node as it then looks. -/
theorem applyContent_eq (engine : Engine) (idx : NodeIndex) (modify : Bool) (view : ViewChange) :
    (engine.applyContent idx modify view).1 =
      match view.constraints with
      | none => engine.styled idx view
      | some field =>
        { engine.styled idx view with
          tree := ((engine.styled idx view).tree.applyConstraints
            (engine.styled idx view).registry idx modify field).1 } := by
  unfold applyContent styled
  cases view.constraints <;> rfl

theorem edited_applyContent (engine : Engine) (idx : NodeIndex) (modify : Bool)
    (view : ViewChange) : Edited idx engine (engine.applyContent idx modify view).1 := by
  rw [applyContent_eq]
  split
  · exact edited_styled engine idx view
  · rename_i field _
    exact (edited_styled engine idx view).trans
      ⟨rfl, rfl, rfl, Tree.edits_applyConstraints modify field⟩

/-- The frame of an entry is applied last. -/
theorem modify_eq (engine : Engine) (idx : NodeIndex) (view : ViewChange) :
    (engine.modify idx view).1 =
      match view.frame with
      | none => (engine.applyContent idx true view).1
      | some fields =>
        { (engine.applyContent idx true view).1 with
          tree := ((engine.applyContent idx true view).1.tree.applyFrame
            (engine.applyContent idx true view).1.registry idx fields).1 } := by
  unfold modify
  cases view.frame <;> rfl

/-- **A modify is a run of edits.** -/
theorem edited_modify (engine : Engine) (idx : NodeIndex) (view : ViewChange) :
    Edited idx engine (engine.modify idx view).1 := by
  rw [modify_eq]
  split
  · exact edited_applyContent engine idx true view
  · rename_i fields _
    exact (edited_applyContent engine idx true view).trans
      ⟨rfl, rfl, rfl, Tree.edits_applyFrame fields⟩

/-! ## Inserts -/

/-- The node an insert makes, before its content is applied. -/
def newNode (id : Identifier) (type : NodeType) (view : ViewChange) : Node :=
  { id, kind := .ofType type id, frame := (view.frame.map Frame.ofNumbers).getD .zero }

/-- The engine once the new node is in the tree, bare. -/
def planted (engine : Engine) (id : Identifier) (parent : NodeIndex) (type : NodeType)
    (view : ViewChange) : Engine :=
  { engine with
    tree := engine.tree.insertChild parent (newNode id type view) (view.index.map UInt64.toNat) }

/-- The new node is in the tree. -/
theorem nextIndex_lt_planted (engine : Engine) (id : Identifier) (parent : NodeIndex)
    (type : NodeType) (view : ViewChange) :
    engine.tree.nextIndex < (engine.planted id parent type view).tree.size := by
  unfold planted
  rw [Tree.size_insertChild]
  exact Nat.lt_succ_self _

/-- The engine once the content of the new node is applied. -/
def filled (engine : Engine) (id : Identifier) (parent : NodeIndex) (type : NodeType)
    (view : ViewChange) : Engine :=
  ((engine.planted id parent type view).applyContent engine.tree.nextIndex false view).1

/-- **An insert** plants a bare node, applies its content as a run of edits,
records its constraints and registers it. -/
theorem insert_eq (engine : Engine) (id : Identifier) (parent : NodeIndex) (type : NodeType)
    (view : ViewChange) :
    (engine.insert id parent type view).1 =
      { engine.filled id parent type view with
        tree := (engine.filled id parent type view).tree.captureSnapshot engine.tree.nextIndex
        registry := (engine.filled id parent type view).registry.register id
          engine.tree.nextIndex } := rfl

theorem edited_filled (engine : Engine) (id : Identifier) (parent : NodeIndex) (type : NodeType)
    (view : ViewChange) :
    Edited engine.tree.nextIndex (engine.planted id parent type view)
      (engine.filled id parent type view) :=
  edited_applyContent _ _ _ _

end Engine

end LiveLayout
