import LiveLayout.Proofs.Footprints
import LiveLayout.Proofs.LastWriter
import LiveLayout.Proofs.Mirrors
/-!
# Modifies of different nodes

Two modifies of different nodes come to the same in either order, but for
the positions of the constraints they append and the order of installed
lists (`modifies_commute`). What a modify makes of its node it reads off the
node and off the frames it refers to, so an engine that is alike except at
another node (`Alike`) is as good to it; what it does to the arena is up to
the constraints that start at its node, and these the other modify leaves
alone.
-/

namespace LiveLayout

namespace Tree

variable {tree other : Tree} {n : NodeIndex} {c : Constraint} {modify : Bool}
variable {accepted : List Acceptance} {spared : NodeIndex}

/-! ## Nodes but for their lists -/

/-- A constraint put in force positions its node, and that is all but for
installed lists. -/
theorem unlisted_constrain (n : NodeIndex) :
    ((tree.constrain modify c).node? n).map Node.unlisted =
      ((tree.node? n).map Node.unlisted).map fun node =>
        if c.first.node = n then { node with autoresizing := false } else node := by
  have henforced : ((tree.enforce modify c).node? n).map Node.unlisted =
      (tree.node? n).map Node.unlisted := reads_enforce Node.besideList_unlisted n
  rw [← henforced, constrain_eq, position, node?_modifyNode]
  split
  · rw [Option.map_map, Option.map_map]
    rfl
  · exact Option.map_id'.symm

/-- So expressions keep two nodes alike that are. -/
theorem unlisted_constrainAll (h : (other.node? n).map Node.unlisted =
      (tree.node? n).map Node.unlisted) :
    ((other.constrainAll modify accepted).node? n).map Node.unlisted =
      ((tree.constrainAll modify accepted).node? n).map Node.unlisted := by
  induction accepted generalizing tree other with
  | nil => exact h
  | cons a rest ih =>
    refine ih ?_
    rw [unlisted_constrain, unlisted_constrain, h]

end Tree

namespace Engine

variable {engine other edited changed : Engine} {idx spared : NodeIndex} {view : ViewChange}

/-- **Two engines alike except at one node**, but for their arenas and
installed lists. -/
structure Alike (spared : NodeIndex) (engine other : Engine) : Prop where
  registry : other.registry = engine.registry
  config : other.config = engine.config
  images : other.images = engine.images
  shape : engine.tree.SameShape other.tree
  nodes : ∀ n, n ≠ spared →
    (other.tree.node? n).map Node.unlisted = (engine.tree.node? n).map Node.unlisted

namespace Alike

/-- After edits only the nodes have to be looked at. -/
theorem of_edited {idx' : NodeIndex} (h : Alike spared engine other) (e : Edited idx engine edited)
    (e' : Edited idx' other changed)
    (hnodes : ∀ n, n ≠ spared →
      (changed.tree.node? n).map Node.unlisted = (edited.tree.node? n).map Node.unlisted) :
    Alike spared edited changed where
  registry := (e'.registry.trans h.registry).trans e.registry.symm
  config := (e'.config.trans h.config).trans e.config.symm
  images := (e'.images.trans h.images).trans e.images.symm
  shape := (e.tree.sameShape.symm.trans h.shape).trans e'.tree.sameShape
  nodes := hnodes

/-- The node of an entry, as both engines have it. -/
theorem exists_node (h : Alike spared engine other) (hidx : idx < engine.tree.size)
    (hne : idx ≠ spared) : ∃ node node', engine.tree.node? idx = some node ∧
      other.tree.node? idx = some node' ∧ node'.unlisted = node.unlisted := by
  obtain ⟨node, hnode⟩ := Tree.node?_of_lt hidx
  obtain ⟨node', hnode'⟩ := Tree.node?_of_lt (h.shape.size ▸ hidx : idx < other.tree.size)
  have hsame := h.nodes idx hne
  rw [hnode, hnode'] at hsame
  exact ⟨node, node', hnode, hnode', Option.some.inj hsame⟩

/-- A node alike put in place of the node. -/
theorem nodes_put (h : Alike spared engine other) {node node' new new' : Node}
    (hnode : engine.tree.node? idx = some node) (hnode' : other.tree.node? idx = some node')
    (hnew : new'.unlisted = new.unlisted) (n : NodeIndex) (hn : n ≠ spared) :
    ((other.put idx new').tree.node? n).map Node.unlisted =
      ((engine.put idx new).tree.node? n).map Node.unlisted := by
  unfold put
  rw [Tree.node?_restyle hnode, Tree.node?_restyle hnode']
  split
  · exact congrArg some hnew
  · exact h.nodes n hn

theorem applyProperties (h : Alike spared engine other)
    (hmode : engine.config.mode = .development) (hidx : idx < engine.tree.size)
    (hne : idx ≠ spared) (bag : List (String × Json)) :
    Alike spared (engine.applyProperties idx bag).1 (other.applyProperties idx bag).1 ∧
      (other.applyProperties idx bag).2 = (engine.applyProperties idx bag).2 := by
  obtain ⟨node, node', hnode, hnode', hsame⟩ := h.exists_node hidx hne
  have hmode' : other.config.mode = .development := h.config.symm ▸ hmode
  have hlevel : other.level = engine.level := congrArg (·.platformLevel.toNat) h.config
  have hid : node'.unlisted.id = node.unlisted.id := congrArg (·.id) hsame
  have hlook : node'.unlisted.look = node.unlisted.look := congrArg Node.look hsame
  have hmade := applyProperties_eq hmode hnode bag
  have hmade' := applyProperties_eq hmode' hnode' bag
  rw [hlevel, h.images, show node'.id = node.id from hid,
    show node'.look = node.look from hlook] at hmade'
  refine ⟨h.of_edited (edited_applyProperties engine bag) (edited_applyProperties other bag) ?_, ?_⟩
  · rw [hmade, hmade']
    exact h.nodes_put hnode hnode' (congrArg (fun m : Node => m.wear _) hsame)
  · rw [hmade, hmade']

theorem applyLayer (h : Alike spared engine other) (hidx : idx < engine.tree.size)
    (hne : idx ≠ spared) (bag : List (String × Json)) :
    Alike spared (engine.applyLayer idx bag).1 (other.applyLayer idx bag).1 ∧
      (other.applyLayer idx bag).2 = (engine.applyLayer idx bag).2 := by
  obtain ⟨node, node', hnode, hnode', hsame⟩ := h.exists_node hidx hne
  have hid : node'.unlisted.id = node.unlisted.id := congrArg (·.id) hsame
  have hlayer : node'.unlisted.layer = node.unlisted.layer := congrArg (·.layer) hsame
  have hbag : Diagnostic.collect (takeLayerKey node'.id) node'.layer bag =
      Diagnostic.collect (takeLayerKey node.id) node.layer bag := by
    rw [show node'.id = node.id from hid, show node'.layer = node.layer from hlayer]
  have hmade := applyLayer_eq hnode bag
  have hmade' := applyLayer_eq hnode' bag
  rw [hbag] at hmade'
  refine ⟨h.of_edited (edited_applyLayer engine bag) (edited_applyLayer other bag) ?_, ?_⟩
  · rw [hmade, hmade']
    refine h.nodes_put hnode hnode' (congrArg (fun m : Node => { m with layer :=
      (Diagnostic.collect (takeLayerKey node.id) node.layer bag).1 }) hsame)
  · rw [hmade, hmade']

/-- The constraints of an entry, in either tree of the two. -/
theorem applyConstraints (h : Alike spared engine other) (idx : NodeIndex) (modify : Bool)
    {field : ConstraintsField} (hplain : ∀ configs, field ≠ .indexed configs) :
    (∀ n, n ≠ spared →
      ((other.tree.applyConstraints other.registry idx modify field).1.node? n).map
          Node.unlisted =
        ((engine.tree.applyConstraints engine.registry idx modify field).1.node? n).map
          Node.unlisted) ∧
      (other.tree.applyConstraints other.registry idx modify field).2 =
        (engine.tree.applyConstraints engine.registry idx modify field).2 := by
  cases field with
  | indexed configs => exact absurd rfl (hplain configs)
  | unsupported value =>
    refine ⟨h.nodes, ?_⟩
    unfold Tree.applyConstraints
    rw [h.shape.id]
  | expressions entries =>
    simp only [Tree.applyConstraints, Tree.collect_applyExpression, h.registry,
      h.shape.acceptances_eq, h.shape.refusal?_eq, and_true]
    exact fun n hn => Tree.unlisted_constrainAll (h.nodes n hn)

/-- **The frame of an entry**, if it refers to other nodes than the one that
may differ. -/
theorem applyFrame (h : Alike spared engine other) (hidx : idx < engine.tree.size)
    (hne : idx ≠ spared) {fields : List (String × Json)}
    (hspares : engine.tree.Spares engine.registry idx spared fields) :
    (∀ n, n ≠ spared →
      ((other.tree.applyFrame other.registry idx fields).1.node? n).map Node.unlisted =
        ((engine.tree.applyFrame engine.registry idx fields).1.node? n).map Node.unlisted) ∧
      (other.tree.applyFrame other.registry idx fields).2 =
        (engine.tree.applyFrame engine.registry idx fields).2 := by
  obtain ⟨node, node', hnode, hnode', hsame⟩ := h.exists_node hidx hne
  have hid : node'.unlisted.id = node.unlisted.id := congrArg (·.id) hsame
  have hframe : node'.unlisted.frame = node.unlisted.frame := congrArg (·.frame) hsame
  have hframes : ∀ n, n ≠ spared →
      (other.tree.node? n).map (·.frame) = (engine.tree.node? n).map (·.frame) := by
    intro n hn
    have hboth := congrArg (Option.map (·.frame)) (h.nodes n hn)
    rw [Option.map_map, Option.map_map] at hboth
    exact hboth
  have hmade : Diagnostic.collect (other.tree.applyField other.registry idx node'.id) node'.frame
      fields = Diagnostic.collect (engine.tree.applyField engine.registry idx node.id) node.frame
        fields := by
    rw [h.registry, show node'.id = node.id from hid, show node'.frame = node.frame from hframe]
    refine Diagnostic.collect_congr (fun field hfield frame => ?_) node.frame
    unfold Tree.applyField
    rw [Tree.fieldValue_eq h.shape hframes hspares hfield]
  rw [Tree.applyFrame_of_node? hnode, Tree.applyFrame_of_node? hnode', hmade]
  refine ⟨fun n hn => ?_, rfl⟩
  rw [Tree.node?_modifyNode, Tree.node?_modifyNode]
  split
  · have hput := congrArg (Option.map fun m : Node => { m with frame :=
      (Diagnostic.collect (engine.tree.applyField engine.registry idx node.id) node.frame
        fields).1 }) (h.nodes n hn)
    rw [Option.map_map, Option.map_map] at hput ⊢
    exact hput
  · exact h.nodes n hn

/-- The content of an entry: its properties, its layer, its constraints. -/
theorem applyContent (h : Alike spared engine other) (hmode : engine.config.mode = .development)
    (hidx : idx < engine.tree.size) (hne : idx ≠ spared) (modify : Bool)
    (hplain : ∀ configs, view.constraints ≠ some (.indexed configs)) :
    Alike spared (engine.applyContent idx modify view).1 (other.applyContent idx modify view).1 ∧
      (other.applyContent idx modify view).2 = (engine.applyContent idx modify view).2 := by
  have hworn : Edited idx engine (engine.applyProperties idx (view.properties.getD [])).1 :=
    edited_applyProperties engine _
  obtain ⟨hproperties, hsaid⟩ := h.applyProperties hmode hidx hne (view.properties.getD [])
  obtain ⟨hstyled, hsaid'⟩ := hproperties.applyLayer (hworn.tree.sameShape.size ▸ hidx) hne
    (view.layer.getD [])
  have hedited := edited_applyContent engine idx modify view
  have hedited' := edited_applyContent other idx modify view
  cases hfield : view.constraints with
  | none =>
    have hnodes := hstyled.nodes
    refine ⟨h.of_edited hedited hedited' ?_, ?_⟩
    · rw [applyContent_eq, applyContent_eq, hfield]
      exact hnodes
    · unfold Engine.applyContent
      rw [hfield]
      simp only [hsaid, hsaid']
  | some field =>
    obtain ⟨hnodes, hsaid''⟩ := hstyled.applyConstraints idx modify
      fun configs heq => hplain configs (hfield.trans (congrArg some heq))
    refine ⟨h.of_edited hedited hedited' ?_, ?_⟩
    · rw [applyContent_eq, applyContent_eq, hfield]
      exact hnodes
    · unfold Engine.applyContent
      rw [hfield]
      simp only [hsaid, hsaid', hsaid'']

/-- **A modify of a node does the same on both**, but for arenas and
installed lists, and says the same. -/
theorem modify (h : Alike spared engine other) (hmode : engine.config.mode = .development)
    (hidx : idx < engine.tree.size) (hne : idx ≠ spared)
    (hplain : ∀ configs, view.constraints ≠ some (.indexed configs))
    (hspares : ∀ fields, view.frame = some fields →
      engine.tree.Spares engine.registry idx spared fields) :
    Alike spared (engine.modify idx view).1 (other.modify idx view).1 ∧
      (other.modify idx view).2 = (engine.modify idx view).2 := by
  obtain ⟨hcontent, hsaid⟩ := h.applyContent hmode hidx hne true hplain
  have hfilled := edited_applyContent engine idx true view
  have hedited := edited_modify engine idx view
  have hedited' := edited_modify other idx view
  cases hframe : view.frame with
  | none =>
    refine ⟨h.of_edited hedited hedited' ?_, ?_⟩
    · rw [modify_eq, modify_eq, hframe]
      exact hcontent.nodes
    · unfold Engine.modify
      rw [hframe]
      exact hsaid
  | some fields =>
    have hspares' : (engine.applyContent idx true view).1.tree.Spares
        (engine.applyContent idx true view).1.registry idx spared fields := by
      rw [hfilled.registry]
      exact (hspares fields hframe).of_sameShape hfilled.tree.sameShape
    obtain ⟨hnodes, hsaid'⟩ := hcontent.applyFrame (hfilled.tree.sameShape.size ▸ hidx) hne hspares'
    refine ⟨h.of_edited hedited hedited' ?_, ?_⟩
    · rw [modify_eq, modify_eq, hframe]
      exact hnodes
    · unfold Engine.modify
      rw [hframe]
      simp only [hsaid, hsaid']

end Alike

/-! ## The arena -/

/-- In development a modify leaves nothing to the host. -/
theorem pending_modify (hmode : engine.config.mode = .development) (hidx : idx < engine.tree.size)
    (view : ViewChange) : (engine.modify idx view).1.pending = engine.pending := by
  obtain ⟨node, hnode⟩ := Tree.node?_of_lt hidx
  have hstyled : (engine.styled idx view).pending = engine.pending := by
    unfold styled
    rw [applyProperties_eq hmode hnode, applyLayer_eq (node?_put hnode _)]
    rfl
  have hcontent : (engine.applyContent idx true view).1.pending = engine.pending := by
    rw [applyContent_eq]
    split
    · exact hstyled
    · exact hstyled
  rw [modify_eq]
  split
  · exact hcontent
  · exact hcontent

/-- The look of a node is nothing to expressions. -/
theorem resembles_styled (engine : Engine) (idx : NodeIndex) (view : ViewChange) :
    engine.tree.Resembles (engine.styled idx view).tree where
  shape := (edited_styled engine idx view).tree.sameShape
  constraint? j := by
    unfold Tree.constraint?
    rw [constraints_styled]
  installed n := engine.installed_styled idx view n
  snapshot n := engine.snapshot_styled idx view n
  autoresizing n := engine.reads_styled (fun _ _ _ _ => rfl) idx view n

/-- **A modify comes to what it accepts**, as far as expressions can see. -/
theorem resembles_constrainAll (engine : Engine) (idx : NodeIndex)
    (hplain : ∀ configs, view.constraints ≠ some (.indexed configs)) :
    ((engine.styled idx view).tree.constrainAll true (engine.accepted idx true view)).Resembles
      (engine.modify idx view).1.tree := by
  have hcontent : (engine.styled idx view).tree.constrainAll true
      (engine.accepted idx true view) = (engine.applyContent idx true view).1.tree := by
    rw [applyContent_eq]
    unfold accepted
    cases hfield : view.constraints with
    | none => rfl
    | some field =>
      cases field with
      | indexed configs => exact absurd hfield (hplain configs)
      | unsupported value => rfl
      | expressions entries =>
        simp only [Tree.accepted_eq, Tree.applyConstraints, Tree.collect_applyExpression]
  rw [hcontent]
  exact resembles_modify engine idx view

/-- What a modify accepts is about nodes that are there. -/
theorem anchored_accepted (h : engine.tree.Coherent) (hidx : idx < engine.tree.size)
    (view : ViewChange) : ∀ a ∈ engine.accepted idx true view,
      (engine.styled idx view).tree.Anchored a.constraint ∧ a.target.node = idx := by
  have hedited := edited_styled engine idx view
  have hstyled : (engine.styled idx view).tree.Coherent := hedited.tree.coherent h hidx
  have hidx' : idx < (engine.styled idx view).tree.size := hedited.tree.sameShape.size ▸ hidx
  intro a ha
  unfold accepted at ha
  split at ha
  · rw [Tree.accepted_eq] at ha
    obtain ⟨entry, -, haccept⟩ := List.mem_filterMap.1 ha
    exact ⟨Tree.anchored_of_mem_acceptances hstyled.toRooted hidx' ha,
      (Tree.accept?_eq_some haccept).1⟩
  · exact absurd ha List.not_mem_nil

/-- What is accepted is the same for trees of one shape. -/
theorem accepted_of_sameShape (hshape : engine.tree.SameShape other.tree)
    (hregistry : other.registry = engine.registry) (idx : NodeIndex) (view : ViewChange) :
    other.accepted idx true view = engine.accepted idx true view := by
  have hedited := edited_styled engine idx view
  have hedited' := edited_styled other idx view
  have hstyled : (engine.styled idx view).tree.SameShape (other.styled idx view).tree :=
    (hedited.tree.sameShape.symm.trans hshape).trans hedited'.tree.sameShape
  unfold accepted
  split
  · rw [Tree.accepted_eq, Tree.accepted_eq, hstyled.acceptances_eq, hedited.registry,
      hedited'.registry, hregistry]
  · rfl

/-- **A modify leaves the constraints of other nodes alone.** -/
theorem agrees_modify (h : engine.tree.Coherent) (hidx : idx < engine.tree.size)
    (hplain : ∀ configs, view.constraints ≠ some (.indexed configs)) {x : NodeIndex}
    (hx : x ≠ idx) : engine.tree.Agrees x (engine.modify idx view).1.tree := by
  have hstyled : (engine.styled idx view).tree.Coherent :=
    (edited_styled engine idx view).tree.coherent h hidx
  have haccepted := anchored_accepted h hidx view
  have hrun : (engine.styled idx view).tree.Agrees x
      ((engine.styled idx view).tree.constrainAll true (engine.accepted idx true view)) :=
    hstyled.agrees_constrainAll (fun a ha => (haccepted a ha).1)
      fun a ha heq => hx (heq.symm.trans (haccepted a ha).2)
  exact ((resembles_styled engine idx view).agrees.trans hrun).trans
    (resembles_constrainAll engine idx hplain).agrees

/-- **Where the constraints of its node are mirrored, a modify keeps them
so.** -/
theorem mirrors_modify {base shift : Nat} (h : engine.tree.Coherent) (h' : other.tree.Coherent)
    (hidx : idx < engine.tree.size) (hregistry : other.registry = engine.registry)
    (hplain : ∀ configs, view.constraints ≠ some (.indexed configs))
    (hmirror : Tree.Mirrors idx base shift engine.tree other.tree) :
    Tree.Mirrors idx base shift (engine.modify idx view).1.tree (other.modify idx view).1.tree := by
  have hstyled : (engine.styled idx view).tree.Coherent :=
    (edited_styled engine idx view).tree.coherent h hidx
  have hstyled' : (other.styled idx view).tree.Coherent :=
    (edited_styled other idx view).tree.coherent h' (hmirror.shape.size ▸ hidx)
  have haccepted := anchored_accepted h hidx view
  have hrun : Tree.Mirrors idx base shift
      ((engine.styled idx view).tree.constrainAll true (engine.accepted idx true view))
      ((other.styled idx view).tree.constrainAll true (engine.accepted idx true view)) :=
    (hmirror.of_resembles (resembles_styled engine idx view)
      (resembles_styled other idx view)).constrainAll hstyled hstyled'
        (fun a ha => (haccepted a ha).1) fun a ha => (haccepted a ha).2
  have hother := resembles_constrainAll other idx hplain
  rw [accepted_of_sameShape hmirror.shape hregistry] at hother
  exact hrun.of_resembles (resembles_constrainAll engine idx hplain) hother

/-! ## Two modifies -/

section Two

variable {a b : NodeIndex} {view' : ViewChange}

/-- A modify leaves an engine that is alike except at its node. -/
theorem alike_modify (h : engine.tree.Orderly) (hidx : idx < engine.tree.size)
    (view : ViewChange) : Alike idx engine (engine.modify idx view).1 where
  registry := (edited_modify engine idx view).registry
  config := (edited_modify engine idx view).config
  images := (edited_modify engine idx view).images
  shape := (edited_modify engine idx view).tree.sameShape
  nodes := (footprint_modify h hidx view).1.nodes

/-- **What a modify makes of its node, and says,** is the same after a modify
of a node that its frame does not refer to. -/
theorem modify_of_modify (h : engine.tree.Orderly) (hmode : engine.config.mode = .development)
    (ha : a < engine.tree.size) (hb : b < engine.tree.size) (hne : a ≠ b) (view' : ViewChange)
    (hplain : ∀ configs, view.constraints ≠ some (.indexed configs))
    (hspares : ∀ fields, view.frame = some fields →
      engine.tree.Spares engine.registry a b fields) :
    (∀ n, n ≠ b →
      (((engine.modify b view').1.modify a view).1.tree.node? n).map Node.unlisted =
        ((engine.modify a view).1.tree.node? n).map Node.unlisted) ∧
      ((engine.modify b view').1.modify a view).2 = (engine.modify a view).2 := by
  obtain ⟨hafter, hsaid⟩ :=
    (alike_modify h hb view').modify hmode ha hne hplain hspares
  exact ⟨hafter.nodes, hsaid⟩

/-- **Modifies of different nodes**, in either order. -/
theorem modify_modify_comm (h : engine.tree.Orderly) (hmode : engine.config.mode = .development)
    (ha : a < engine.tree.size) (hb : b < engine.tree.size) (hne : a ≠ b)
    (hplain : ∀ configs, view.constraints ≠ some (.indexed configs))
    (hplain' : ∀ configs, view'.constraints ≠ some (.indexed configs))
    (hspares : ∀ fields, view.frame = some fields →
      engine.tree.Spares engine.registry a b fields)
    (hspares' : ∀ fields, view'.frame = some fields →
      engine.tree.Spares engine.registry b a fields) :
    let first := (engine.modify a view).1.modify b view'
    let second := (engine.modify b view').1.modify a view
    second.1 = { first.1 with tree := second.1.tree } ∧
      (∀ n, (second.1.tree.node? n).map Node.unlisted =
        (first.1.tree.node? n).map Node.unlisted) ∧
      Tree.Interchanged engine.tree.constraints.size first.1.tree second.1.tree ∧
      first.2 = (engine.modify b view').2 ∧ second.2 = (engine.modify a view).2 := by
  intro first second
  have hone := edited_modify engine a view
  have htwo := edited_modify engine b view'
  have hfirst := edited_modify (engine.modify a view).1 b view'
  have hsecond := edited_modify (engine.modify b view').1 a view
  -- each node is there, and each tree in order, after the other's modify
  have ha' : a < (engine.modify b view').1.tree.size := htwo.tree.sameShape.size ▸ ha
  have hb' : b < (engine.modify a view).1.tree.size := hone.tree.sameShape.size ▸ hb
  have horderly : (engine.modify a view).1.tree.Orderly := h.edits ha hone.tree
  have horderly' : (engine.modify b view').1.tree.Orderly := h.edits hb htwo.tree
  obtain ⟨hnodes, hsaid⟩ := modify_of_modify h hmode ha hb hne view' hplain hspares
  obtain ⟨hnodes', hsaid'⟩ := modify_of_modify h hmode hb ha hne.symm view hplain' hspares'
  refine ⟨?_, fun n => ?_, ?_, hsaid', hsaid⟩
  · have hrest : ∀ e e' : Engine, e'.registry = e.registry → e'.config = e.config →
        e'.images = e.images → e'.pending = e.pending → e' = { e with tree := e'.tree } := by
      rintro ⟨⟩ ⟨⟩ rfl rfl rfl rfl
      rfl
    refine hrest _ _ ?_ ?_ ?_ ?_
    · rw [hsecond.registry, htwo.registry, hfirst.registry, hone.registry]
    · rw [hsecond.config, htwo.config, hfirst.config, hone.config]
    · rw [hsecond.images, htwo.images, hfirst.images, hone.images]
    · have hmode₁ : (engine.modify a view).1.config.mode = .development := hone.config.symm ▸ hmode
      have hmode₂ : (engine.modify b view').1.config.mode = .development :=
        htwo.config.symm ▸ hmode
      rw [pending_modify hmode₂ ha', pending_modify hmode hb, pending_modify hmode₁ hb',
        pending_modify hmode ha]
  · by_cases hn : n = b
    · subst hn
      -- the second modify is of another node
      have hkept := (footprint_modify horderly' ha' view).1.nodes n hne.symm
      exact hkept.trans (hnodes' n hne.symm).symm
    · have hkept := (footprint_modify horderly hb' view').1.nodes n hn
      exact (hnodes n hn).trans hkept.symm
  · have hagree : engine.tree.Agrees a (engine.modify b view').1.tree :=
      agrees_modify h.coherent hb hplain' hne
    have hagree' : engine.tree.Agrees b (engine.modify a view).1.tree :=
      agrees_modify h.coherent ha hplain hne.symm
    refine Tree.interchanged_of_crossed hne ?_ ?_ (fun x hx => agrees_modify h.coherent ha hplain hx)
      (fun x hx => agrees_modify h.coherent hb hplain' hx)
      (fun x hx => agrees_modify horderly.coherent hb' hplain' hx)
      (fun x hx => agrees_modify horderly'.coherent ha' hplain hx) ?_ ?_
    · exact hfirst.tree.coherent horderly.coherent hb'
    · exact hsecond.tree.coherent horderly'.coherent ha'
    · exact mirrors_modify h.coherent horderly.coherent hb hone.registry hplain'
        (hagree'.mirrors h.recorded)
    · exact mirrors_modify h.coherent horderly'.coherent ha htwo.registry hplain
        (hagree.mirrors h.recorded)

end Two

end Engine

namespace Session

variable {session : Session} {one two : Json} {a b : NodeIndex} {view view' : ViewChange}

/-- With the same registry a modify is resolved as before. -/
theorem resolve_of_registry {other : Session}
    (hregistry : other.engine.registry = session.engine.registry)
    (hr : session.resolve one = .ok (.modify a view)) :
    other.resolve one = .ok (.modify a view) := by
  obtain ⟨change, hchange, ⟨-, hinsert⟩ | ⟨hop, hmodify⟩⟩ := resolve_ok hr
  · obtain ⟨_, _, _, -, -, -, heq⟩ := resolveInsert_ok hinsert
    cases heq
  · unfold resolve
    rw [hchange]
    simp only [hop]
    unfold resolveModify at hmodify ⊢
    rw [hregistry]
    exact hmodify

/-- Two entries that each modify a node. -/
theorem tweak_modify_modify (hone : session.resolve one = .ok (.modify a view))
    (htwo : session.resolve two = .ok (.modify b view')) :
    session.tweak [one, two] =
      (⟨((session.engine.modify a view).1.modify b view').1, session.known⟩,
        ⟨2, (session.engine.modify a view).2 ++
          ((session.engine.modify a view).1.modify b view').2⟩) := by
  let next : Session := ⟨(session.engine.modify a view).1, session.known⟩
  have hnext : next.resolve two = .ok (.modify b view') :=
    resolve_of_registry (Engine.edited_modify session.engine a view).registry htwo
  rw [tweak_of_resolve hone]
  show ((next.tweak [two]).1,
    Report.append ⟨1, (session.engine.modify a view).2⟩ (next.tweak [two]).2) = _
  rw [tweak_of_resolve hnext]
  simp only [tweak, Report.append, Report.empty, List.append_nil]
  rfl

/-- **Modifies of different nodes commute.** In a session that was reached,
in development, take two entries that modify different nodes, their
constraints, if they have any, not given as descriptions, and neither frame
referring to the other's node. In either order they lead to sessions that
are the same but for the tree, and to trees whose nodes are the same but for
installed lists. The arenas hold what was there before at the same positions,
and then what each entry appends, one after the other or the other way
round; on every node the same constraints are installed. Both entries count
as applied, and the same things are said. -/
theorem modifies_commute (h : session.Reached)
    (hmode : session.engine.config.mode = .development)
    (hone : session.resolve one = .ok (.modify a view))
    (htwo : session.resolve two = .ok (.modify b view')) (hne : a ≠ b)
    (hplain : ∀ configs, view.constraints ≠ some (.indexed configs))
    (hplain' : ∀ configs, view'.constraints ≠ some (.indexed configs))
    (hspares : ∀ fields, view.frame = some fields →
      session.engine.tree.Spares session.engine.registry a b fields)
    (hspares' : ∀ fields, view'.frame = some fields →
      session.engine.tree.Spares session.engine.registry b a fields) :
    let first := session.tweak [one, two]
    let second := session.tweak [two, one]
    second.1 = { first.1 with
        engine := { first.1.engine with tree := second.1.engine.tree } } ∧
      (∀ n, (second.1.engine.tree.node? n).map Node.unlisted =
        (first.1.engine.tree.node? n).map Node.unlisted) ∧
      Tree.Interchanged session.engine.tree.constraints.size first.1.engine.tree
        second.1.engine.tree ∧
      first.2.applied = 2 ∧ second.2.applied = 2 ∧
      second.2.diagnostics.Perm first.2.diagnostics := by
  intro first second
  obtain ⟨⟨id, -, hid⟩, -⟩ := resolve_modify hone
  obtain ⟨⟨id', -, hid'⟩, -⟩ := resolve_modify htwo
  have hfirst : first = _ := tweak_modify_modify hone htwo
  have hsecond : second = _ := tweak_modify_modify htwo hone
  obtain ⟨hrest, hnodes, harena, hsaid, hsaid'⟩ := Engine.modify_modify_comm h.orderly hmode
    (h.sound.within id a hid) (h.sound.within id' b hid') hne hplain hplain' hspares hspares'
  rw [hfirst, hsecond]
  refine ⟨congrArg (Session.mk · session.known) hrest, hnodes, harena, rfl, rfl, ?_⟩
  rw [hsaid, hsaid']
  exact List.perm_append_comm

/-- Two boxes beside each other. -/
def boxes : Session :=
  ((initial .standard .none).tweak [viewInserted "left" "root", viewInserted "right" "root"]).1

/-- An entry that makes the left box as wide as the right one, and places it
by the frame of the root. -/
def leftWidened : Json :=
  .object [("operation", .string "modify"),
    ("view", .object [("constraints", .object [("width", .string "$(right)")]),
      ("frame", .object [("x", .string "$(superview).width")]), ("id", .string "left")])]

/-- An entry that gives the right box its size. -/
def rightSized : Json :=
  .object [("operation", .string "modify"),
    ("view", .object [
      ("constraints", .object [("height", .string "5"), ("width", .string "20")]),
      ("id", .string "right")])]

/-- The arena of the boxes depends on which entry comes first, and nothing
else does but the positions in it. -/
theorem modifies_commute_of_boxes :
    let first := boxes.tweak [leftWidened, rightSized]
    let second := boxes.tweak [rightSized, leftWidened]
    first.1.engine.tree.constraints ≠ second.1.engine.tree.constraints ∧
      Tree.Interchanged 0 first.1.engine.tree second.1.engine.tree ∧
      ∀ n, (second.1.engine.tree.node? n).map Node.unlisted =
        (first.1.engine.tree.node? n).map Node.unlisted := by
  intro first second
  have hreached : boxes.Reached := .tweak _ (.initial _ _ _)
  obtain ⟨view, hleft, hid, hconstraints, hframe⟩ : ∃ view,
      Change.ofJson? leftWidened = some ⟨"modify", view⟩ ∧ view.id = some "left" ∧
        view.constraints = some (.expressions [("width", "$(right)")]) ∧
        view.frame = some [("x", .string "$(superview).width")] :=
    ⟨_, rfl, rfl, rfl, rfl⟩
  obtain ⟨view', hright, hid', hconstraints', hframe'⟩ : ∃ view,
      Change.ofJson? rightSized = some ⟨"modify", view⟩ ∧ view.id = some "right" ∧
        view.constraints = some (.expressions [("height", "5"), ("width", "20")]) ∧
        view.frame = none :=
    ⟨_, rfl, rfl, rfl, rfl⟩
  have hone : boxes.resolve leftWidened = .ok (.modify 1 view) :=
    resolve_modify_of_lookup hid (by decide +kernel) hleft
  have htwo : boxes.resolve rightSized = .ok (.modify 2 view') :=
    resolve_modify_of_lookup hid' (by decide +kernel) hright
  have hread : (Expression.parse "$(superview).width").toOption =
      some (.relative "superview" (some "width") .zero) := by
    decide +kernel
  have hbase : boxes.engine.tree.constraints.size = 0 := by decide +kernel
  obtain ⟨-, hnodes, harena, -⟩ := modifies_commute hreached rfl hone htwo (by decide)
    (fun configs hindexed => by cases hconstraints.symm.trans hindexed)
    (fun configs hindexed => by cases hconstraints'.symm.trans hindexed)
    (fun fields hfields => by
      cases hframe.symm.trans hfields
      intro field hfield text target name offset htext hparse
      obtain rfl := List.mem_singleton.1 hfield
      cases htext
      rw [hparse] at hread
      cases hread
      decide +kernel)
    (fun fields hfields => by cases hframe'.symm.trans hfields)
  rw [hbase] at harena
  exact ⟨by decide +kernel, harena, hnodes⟩

end Session

end LiveLayout
