import LiveLayout.Proofs.Appearance
import LiveLayout.Proofs.Repetition
/-!
# Repeated modifies

A modify that is repeated changes nothing the second time and reports the
same (`modify_idempotent`). Each part of it reads only what it wrote: bags
the records of the node, expressions the arena and the installed lists, the
frame the frames of other nodes. So each part, applied again to where all
of them ended, leaves that as it is.
-/

namespace LiveLayout

/-- What neither expressions nor a frame touch of a node. -/
def Node.bare (node : Node) : Node :=
  { node with frame := .zero, autoresizing := true, installed := [] }

namespace Tree

variable {tree other : Tree} {registry : Registry} {idx n : NodeIndex} {modify : Bool}
variable {ps : List Placement} {accepted : List Acceptance}

/-! ## What expressions read -/

/-- **Two trees that are the same to expressions**: shape, arena, lists, and
which nodes are positioned. -/
structure Resembles (tree other : Tree) : Prop where
  shape : tree.SameShape other
  constraint? : ∀ j, other.constraint? j = tree.constraint? j
  installed : ∀ n, other.installed n = tree.installed n
  snapshot : ∀ n, other.snapshot n = tree.snapshot n
  autoresizing : ∀ n, (other.node? n).map (·.autoresizing) = (tree.node? n).map (·.autoresizing)

theorem Resembles.refl (tree : Tree) : tree.Resembles tree :=
  ⟨.refl tree, fun _ => rfl, fun _ => rfl, fun _ => rfl, fun _ => rfl⟩

/-- A frame is none of it. -/
theorem resembles_setFrame (idx : NodeIndex) (frame : Frame) :
    tree.Resembles (tree.modifyNode idx fun node => { node with frame }) where
  shape := sameShape_modifyNode _ (fun _ => rfl) fun _ => rfl
  constraint? _ := rfl
  installed _ := installed_modifyNode _ fun _ => rfl
  snapshot _ := snapshot_modifyNode _ fun _ => rfl
  autoresizing n := map_node?_modifyNode (fun node => { node with frame }) (fun _ => rfl) idx n

/-- A frame is put into one node, or there is no such node. -/
theorem applyFrame_cases (tree : Tree) (registry : Registry) (idx : NodeIndex)
    (fields : List (String × Json)) : (tree.applyFrame registry idx fields).1 = tree ∨
      ∃ frame, (tree.applyFrame registry idx fields).1 =
        tree.modifyNode idx fun node => { node with frame } := by
  cases hn : tree.node? idx with
  | none =>
    unfold applyFrame
    rw [hn]
    exact .inl rfl
  | some node =>
    rw [applyFrame_of_node? hn]
    exact .inr ⟨_, rfl⟩

theorem resembles_applyFrame (fields : List (String × Json)) :
    tree.Resembles (tree.applyFrame registry idx fields).1 := by
  rcases tree.applyFrame_cases registry idx fields with heq | ⟨frame, heq⟩
  · rw [heq]
    exact .refl tree
  · rw [heq]
    exact resembles_setFrame idx frame

theorem bare_applyFrame (fields : List (String × Json)) (n : NodeIndex) :
    ((tree.applyFrame registry idx fields).1.node? n).map Node.bare =
      (tree.node? n).map Node.bare := by
  rcases tree.applyFrame_cases registry idx fields with heq | ⟨frame, heq⟩
  · rw [heq]
  · rw [heq]
    exact map_node?_modifyNode (fun node => { node with frame }) (fun _ => rfl) idx n

theorem Settled.of_resembles (hs : tree.Settled ps) (h : tree.Resembles other) :
    other.Settled ps where
  inPlace p hp := (hs.inPlace p hp).of_same h.shape h.constraint? h.snapshot h.autoresizing
  last n := by
    rw [h.installed]
    exact hs.last n

theorem Coherent.constrainAll (h : tree.Coherent) (modify : Bool)
    (hanchored : ∀ a ∈ accepted, tree.Anchored a.constraint) :
    (tree.constrainAll modify accepted).Coherent := by
  induction accepted generalizing tree with
  | nil => exact h
  | cons a rest ih =>
    have hshape : tree.SameShape (tree.constrain modify a.constraint) := sameShape_constrain
    exact ih (h.constrain modify (hanchored a List.mem_cons_self)) fun b hb =>
      hshape.anchored (hanchored b (List.mem_cons_of_mem _ hb))

/-- Expressions leave the rest of every node alone. -/
theorem Coherent.bare_constrainAll (h : tree.Coherent)
    (hanchored : ∀ a ∈ accepted, tree.Anchored a.constraint) (n : NodeIndex) :
    ((tree.constrainAll modify accepted).node? n).map Node.bare = (tree.node? n).map Node.bare := by
  induction accepted generalizing tree with
  | nil => rfl
  | cons a rest ih =>
    have ha := hanchored a List.mem_cons_self
    have hshape : tree.SameShape (tree.constrain modify a.constraint) := sameShape_constrain
    obtain ⟨owner, ho, -⟩ := h.exists_ownerFor? ha
    have hrest := ih (h.constrain modify ha) fun b hb =>
      hshape.anchored (hanchored b (List.mem_cons_of_mem _ hb))
    refine hrest.trans ?_
    rw [h.node?_constrain rfl ho, Option.map_map]
    rfl

/-! ## Constraints again -/

/-- **Constraints that can be applied again**: no list of descriptions, and
no attribute that is given an expression is held by several constraints. -/
structure Repeatable (tree : Tree) (idx : NodeIndex) (field : ConstraintsField) : Prop where
  plain : ∀ configs, field ≠ .indexed configs
  sole : ∀ entries, field = .expressions entries → ∀ entry ∈ entries, ∀ own,
    Attribute.ofName? entry.1 = some own → (tree.activeOn ⟨idx, own⟩).length ≤ 1

variable {field : ConstraintsField}

/-- Only the arena counts. -/
theorem Repeatable.of_constraints (h : tree.Repeatable idx field)
    (hc : other.constraints = tree.constraints) : other.Repeatable idx field where
  plain := h.plain
  sole entries hentries entry hentry own hown := by
    have hsame : other.activeOn ⟨idx, own⟩ = tree.activeOn ⟨idx, own⟩ := by
      unfold activeOn constraint?
      rw [hc]
    rw [hsame]
    exact h.sole entries hentries entry hentry own hown

theorem bare_applyConstraints (h : tree.Coherent) (hidx : idx < tree.size)
    (hrep : tree.Repeatable idx field) (n : NodeIndex) :
    ((tree.applyConstraints registry idx modify field).1.node? n).map Node.bare =
      (tree.node? n).map Node.bare := by
  cases field with
  | indexed configs => exact absurd rfl (hrep.plain configs)
  | unsupported value => rfl
  | expressions entries =>
    simp only [applyConstraints, collect_applyExpression]
    exact h.bare_constrainAll (fun a => anchored_of_mem_acceptances h.toRooted hidx) n

/-- **The constraints of a modify applied again** change nothing and report
the same, on any tree that is to them as they left it. -/
theorem applyConstraints_again (h : tree.Coherent) (hrec : tree.Recorded) (hidx : idx < tree.size)
    (hrep : tree.Repeatable idx field)
    (hnames : ∀ entries, field = .expressions entries → (entries.map (·.1)).Nodup)
    (hlater : (tree.applyConstraints registry idx true field).1.Resembles other) :
    other.applyConstraints registry idx true field =
      (other, (tree.applyConstraints registry idx true field).2) := by
  cases field with
  | indexed configs => exact absurd rfl (hrep.plain configs)
  | unsupported value =>
    simp only [applyConstraints, hlater.shape.id]
  | expressions entries =>
    simp only [applyConstraints, collect_applyExpression] at hlater ⊢
    have hanchored : ∀ a ∈ tree.acceptances registry idx entries,
        tree.Anchored a.constraint := fun a =>
      anchored_of_mem_acceptances h.toRooted hidx
    have hsole : ∀ a ∈ tree.acceptances registry idx entries, tree.Sole a.target := by
      intro a ha
      obtain ⟨entry, hentry, haccept⟩ := List.mem_filterMap.1 ha
      obtain ⟨hnode, hattr⟩ := accept?_eq_some haccept
      have hshort := hrep.sole entries rfl entry hentry _ hattr
      subst hnode
      exact sole_iff_length_le.2 hshort
    have hnone : tree.Settled [] :=
      ⟨fun p hp => absurd hp List.not_mem_nil, fun n => List.nil_suffix⟩
    obtain ⟨ps, hps, hsettled⟩ := hnone.constrainAll h hrec hanchored hsole
      (nodup_targets (hnames entries rfl))
    have hcoherent : other.Coherent :=
      (h.constrainAll true hanchored).of_same hlater.shape hlater.installed hlater.constraint?
    have hshape : tree.SameShape other :=
      (sameShape_constrainAll (tree.acceptances registry idx entries)).trans hlater.shape
    rw [hshape.acceptances_eq, hshape.refusal?_eq, ← hps]
    exact congrArg (·, _) ((hsettled.of_resembles hlater).constrainAll_eq hcoherent)

end Tree

namespace Engine

variable {engine : Engine} {idx : NodeIndex} {view : ViewChange}

/-! ## Modifies -/

/-- **A modify that can be repeated**: constraints by expressions, for
attributes that at most one constraint holds, and a frame that does not
refer to the node itself. -/
structure Repeatable (engine : Engine) (idx : NodeIndex) (view : ViewChange) : Prop where
  constraints : ∀ field, view.constraints = some field → engine.tree.Repeatable idx field
  frame : ∀ fields, view.frame = some fields →
    engine.tree.RefersElsewhere engine.registry idx fields

/-- What a modify does after its constraints is nothing to expressions. -/
theorem resembles_modify (engine : Engine) (idx : NodeIndex) (view : ViewChange) :
    (engine.applyContent idx true view).1.tree.Resembles (engine.modify idx view).1.tree := by
  rw [modify_eq]
  split
  · exact .refl _
  · exact Tree.resembles_applyFrame _

/-- Neither its constraints nor its frame touch the rest of the node. -/
theorem Sound.bare_modify (h : engine.Sound) (hidx : idx < engine.tree.size)
    (hrep : engine.Repeatable idx view) :
    ((engine.modify idx view).1.tree.node? idx).map Node.bare =
      ((engine.styled idx view).tree.node? idx).map Node.bare := by
  have hedited := edited_styled engine idx view
  have hstyled : (engine.styled idx view).Sound := h.of_edited hidx hedited
  have hidx' : idx < (engine.styled idx view).tree.size := hedited.tree.sameShape.size ▸ hidx
  have hcontent : ((engine.applyContent idx true view).1.tree.node? idx).map Node.bare =
      ((engine.styled idx view).tree.node? idx).map Node.bare := by
    rw [applyContent_eq]
    split
    · rfl
    · rename_i field hfield
      have hfield' := (hrep.constraints field hfield).of_constraints
        (constraints_styled engine idx view)
      exact Tree.bare_applyConstraints hstyled.coherent hidx' hfield' idx
  rw [modify_eq]
  split
  · exact hcontent
  · exact (Tree.bare_applyFrame _ idx).trans hcontent

/-- A bag that is left out is empty. -/
theorem ordered_getD {bag : Option (List (String × Json))}
    (h : ∀ members, bag = some members → (Json.object members).Ordered) :
    (Json.object (bag.getD [])).Ordered := by
  cases bag with
  | none => exact .object .nil fun m hm => absurd hm List.not_mem_nil
  | some members => exact h members rfl

/-- **The bags of a modify again**, on the engine the whole modify left:
the node has kept the look and the layer they gave it. -/
theorem Sound.applyBags_again (h : engine.Sound) (hmode : engine.config.mode = .development)
    (hidx : idx < engine.tree.size) (hview : view.Ordered) (hrep : engine.Repeatable idx view) :
    (engine.modify idx view).1.applyProperties idx (view.properties.getD []) =
        ((engine.modify idx view).1,
          (engine.applyProperties idx (view.properties.getD [])).2) ∧
      (engine.modify idx view).1.applyLayer idx (view.layer.getD []) =
        ((engine.modify idx view).1,
          ((engine.applyProperties idx (view.properties.getD [])).1.applyLayer idx
            (view.layer.getD [])).2) := by
  have hedited := edited_modify engine idx view
  have hbare := h.bare_modify hidx hrep
  generalize (engine.modify idx view).1 = later at hedited hbare ⊢
  -- the node as it was, once its properties are applied, and in the end
  obtain ⟨node, hnode⟩ := Tree.node?_of_lt hidx
  have hfirst : Edited idx engine (engine.applyProperties idx (view.properties.getD [])).1 :=
    edited_applyProperties engine _
  obtain ⟨worn, hworn⟩ := Tree.node?_of_lt (hfirst.tree.sameShape.size ▸ hidx)
  obtain ⟨node', hnode'⟩ := Tree.node?_of_lt (hedited.tree.sameShape.size ▸ hidx)
  have hid : node'.id = node.id := by
    have hsame := hedited.tree.sameShape.id idx
    rw [hnode, hnode'] at hsame
    exact Option.some.inj hsame
  have hmade := applyLayer_eq hworn (view.layer.getD [])
  have hstyled : (engine.styled idx view).tree.node? idx = some { worn with
      layer := (Diagnostic.collect (takeLayerKey worn.id) worn.layer (view.layer.getD [])).1 } := by
    unfold styled
    rw [hmade]
    exact node?_put hworn _
  rw [hnode', hstyled] at hbare
  have hbare := Option.some.inj hbare
  constructor
  · refine applyProperties_again hmode hnode (ordered_getD hview.properties) hedited.config
      hedited.images hnode' hid fun changed hchanged => ?_
    rw [hworn] at hchanged
    cases hchanged
    have hsame := congrArg Node.look hbare
    exact hsame
  · refine applyLayer_again hworn (ordered_getD hview.layer) hnode' (congrArg (·.id) hbare)
      fun changed hchanged => ?_
    rw [hmade, node?_put hworn] at hchanged
    cases hchanged
    exact congrArg (·.layer) hbare

/-- **The content of a modify again**, on the engine the whole modify
left. -/
theorem Sound.applyContent_again (h : engine.Sound) (hmode : engine.config.mode = .development)
    (hidx : idx < engine.tree.size) (hview : view.Ordered) (hrep : engine.Repeatable idx view) :
    (engine.modify idx view).1.applyContent idx true view =
      ((engine.modify idx view).1, (engine.applyContent idx true view).2) := by
  have hedited := edited_modify engine idx view
  have hresembles := resembles_modify engine idx view
  rw [applyContent_eq] at hresembles
  obtain ⟨hproperties, hlayer⟩ := h.applyBags_again hmode hidx hview hrep
  generalize (engine.modify idx view).1 = later at hedited hresembles hproperties hlayer ⊢
  unfold applyContent
  simp only [hproperties, hlayer]
  cases hfield : view.constraints with
  | none => rfl
  | some field =>
    rw [hfield] at hresembles
    have hstyle := edited_styled engine idx view
    have hsound : (engine.styled idx view).Sound := h.of_edited hidx hstyle
    have hidx' : idx < (engine.styled idx view).tree.size := hstyle.tree.sameShape.size ▸ hidx
    have hregistry : (engine.styled idx view).registry = later.registry :=
      hstyle.registry.trans hedited.registry.symm
    have hagain := Tree.applyConstraints_again hsound.coherent hsound.recorded hidx'
      ((hrep.constraints field hfield).of_constraints (constraints_styled engine idx view))
      (fun entries hentries => hview.expressions entries (hfield.trans (congrArg some hentries)))
      hresembles
    rw [hregistry] at hagain
    have hreport : ((engine.styled idx view).tree.applyConstraints (engine.styled idx view).registry
        idx true field).2 = (later.tree.applyConstraints later.registry idx true field).2 := by
      rw [hagain, hregistry]
    simp only [hagain] at hreport ⊢
    exact congrArg (fun report => (later, _ ++ _ ++ report)) hreport.symm

/-- **A modify repeated** changes nothing and reports the same. -/
theorem Sound.modify_modify (h : engine.Sound) (hmode : engine.config.mode = .development)
    (hidx : idx < engine.tree.size) (hview : view.Ordered) (hrep : engine.Repeatable idx view) :
    (engine.modify idx view).1.modify idx view = engine.modify idx view := by
  have hcontent := h.applyContent_again hmode hidx hview hrep
  have hedited := edited_applyContent engine idx true view
  have hregistry := (edited_modify engine idx view).registry.trans hedited.registry.symm
  have htree := congrArg Engine.tree (modify_eq engine idx view)
  have hpair : engine.modify idx view =
      ((engine.modify idx view).1, (engine.modify idx view).2) := rfl
  rw [hpair]
  generalize (engine.modify idx view).1 = later at hcontent hregistry htree ⊢
  simp only [Engine.modify, hcontent]
  cases hframe : view.frame with
  | none => rfl
  | some fields =>
    rw [hframe] at htree
    have hsame := hedited.tree.sameShape
    obtain ⟨node, hnode⟩ := Tree.node?_of_lt (hsame.size ▸ hidx)
    have hagain := Tree.applyFrame_again hnode (hview.frame fields hframe)
      (Tree.Spares.of_sameShape (hrep.frame fields hframe) hsame)
    have hframed : later.tree = ((engine.applyContent idx true view).1.tree.applyFrame
        (engine.applyContent idx true view).1.registry idx fields).1 := htree
    have hlater : later.tree.applyFrame later.registry idx fields =
        (later.tree, ((engine.applyContent idx true view).1.tree.applyFrame
          (engine.applyContent idx true view).1.registry idx fields).2) := by
      rw [hregistry, hframed, hedited.registry]
      exact hagain
    simp only [hlater]

end Engine

namespace Session

variable {session : Session} {entry : Json} {change : Change}

/-- **Modifies are idempotent.** In development, a modify that is read from
a text (`Json.ordered_of_parse?`) and can be repeated, or is refused, leaves
what it left and reports what it reported when it is applied again. -/
theorem modify_idempotent (h : session.Reached)
    (hmode : session.engine.config.mode = .development) (hordered : entry.Ordered)
    (hchange : Change.ofJson? entry = some change) (hmodify : change.operation? = some .modify)
    (hrep : ∀ id idx, change.view.id = some id → session.engine.registry.lookup? id = some idx →
      session.engine.Repeatable idx change.view) :
    (session.tweak [entry]).1.tweak [entry] = session.tweak [entry] := by
  have hview := Change.ordered_of_ofJson? hordered hchange
  have hresolve : ∀ s : Session, s.resolve entry = s.resolveModify change.view := by
    intro s
    unfold resolve
    rw [hchange]
    simp only [hmodify]
  suffices hagain : (session.apply entry).1.apply entry = session.apply entry by
    simp only [tweak, hagain]
  cases hr : session.resolve entry with
  | error diagnostic =>
    have hrefused : session.apply entry = (session, ⟨0, [diagnostic]⟩) := by
      unfold apply
      rw [hr]
    rw [hrefused]
    exact hrefused
  | ok action =>
    obtain ⟨id, idx, hid, hidx, rfl⟩ := resolveModify_ok ((hresolve session).symm.trans hr)
    have hlt : idx < session.engine.tree.size := h.sound.within _ _ hidx
    have htwice := h.sound.modify_modify hmode hlt hview (hrep id idx hid hidx)
    have happlied : session.apply entry =
        (⟨(session.engine.modify idx change.view).1, session.known⟩,
          ⟨1, (session.engine.modify idx change.view).2⟩) := by
      unfold apply
      rw [hr]
      rfl
    -- only inserts register, so the entry is of the same node
    have hregistry := (Engine.edited_modify session.engine idx change.view).registry
    have hlater : (⟨(session.engine.modify idx change.view).1, session.known⟩ : Session).resolve
        entry = .ok (.modify idx change.view) := by
      rw [hresolve]
      unfold resolveModify
      simp only [hid, hregistry, hidx]
    rw [happlied]
    unfold apply
    rw [hlater]
    simp only [perform, htwice]

/-- An entry that inserts a square panel. -/
def panelInserted : Json :=
  .object [("operation", .string "insert"),
    ("view", .object [("constraints", .object [("width", .string "$(self).height")]),
      ("id", .string "panel"), ("superview", .string "root"), ("type", .string "View")])]

/-- An entry that changes the panel in all its parts. -/
def panelChanged : Json :=
  .object [("operation", .string "modify"),
    ("view", .object [
      ("constraints", .object [("height", .string "44"), ("width", .string "$(superview)")]),
      ("frame", .object [("width", .string "$(superview).height"),
        ("x", .number (.natural 10))]),
      ("id", .string "panel"),
      ("layer", .object [("cornerRadius", .number (.natural 4))]),
      ("properties", .object [("alpha", .number (.natural 1)), ("text", .string "none")])])]

/-- The panel's width is recorded, so its new width comes behind it in the
arena. When the entry is repeated, it stays there. -/
theorem modify_idempotent_of_panel :
    let session := ((initial .standard .none).tweak [panelInserted]).1
    session.engine.tree.snapshot 1 = [0] ∧
      (session.tweak [panelChanged]).1.engine.tree.activeOn ⟨1, .width⟩ = [2] ∧
      (session.tweak [panelChanged]).1.tweak [panelChanged] = session.tweak [panelChanged] := by
  intro session
  have hreached : session.Reached := .tweak _ (.initial _ _ _)
  obtain ⟨change, hchange⟩ : ∃ change, Change.ofJson? panelChanged = some change :=
    ⟨_, rfl⟩
  have hconstraints : change.view.constraints =
      some (.expressions [("height", "44"), ("width", "$(superview)")]) := by
    cases hchange
    rfl
  have hframe : change.view.frame =
      some [("width", .string "$(superview).height"), ("x", .number (.natural 10))] := by
    cases hchange
    rfl
  have hid : change.view.id = some "panel" := by
    cases hchange
    rfl
  have hmodify : change.operation? = some .modify := by
    cases hchange
    rfl
  have hread : (Expression.parse "$(superview).height").toOption =
      some (.relative "superview" (some "height") .zero) := by
    decide +kernel
  refine ⟨by decide +kernel, by decide +kernel,
    modify_idempotent hreached rfl (by decide +kernel) hchange hmodify ?_⟩
  intro id idx hsome hidx
  cases hid.symm.trans hsome
  have hpanel : session.engine.registry.lookup? "panel" = some 1 := by decide +kernel
  cases hpanel.symm.trans hidx
  refine ⟨fun field hfield => ?_, fun fields hfields => ?_⟩
  · cases hconstraints.symm.trans hfield
    refine ⟨fun configs hindexed => ?_, fun entries hentries entry hentry own hown => ?_⟩
    · cases hindexed
    · cases hentries
      simp only [List.mem_cons, List.not_mem_nil, or_false] at hentry
      rcases hentry with rfl | rfl
      · cases hown
        decide +kernel
      · cases hown
        decide +kernel
  · cases hframe.symm.trans hfields
    intro field hfield text target name offset htext hparse
    simp only [List.mem_cons, List.not_mem_nil, or_false] at hfield
    rcases hfield with rfl | rfl
    · cases htext
      rw [hparse] at hread
      cases hread
      decide +kernel
    · cases htext

end Session

end LiveLayout
