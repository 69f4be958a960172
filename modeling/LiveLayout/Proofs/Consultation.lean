import LiveLayout.Proofs.Lookups
import Mathlib.Data.List.Forall2
/-!
# Identifiers that others gave out

Identifiers are given out across engines, so an engine meets a table that
knows more of them than its own. Where a text is looked up, be it in the
registry or among the items of a description, the table could be asked first,
and a text that it does not know be found nowhere (`tweakAmong`). As long as
the table covers the engine's nodes that comes to the same, and what else it
knows shows in one place only: in whether a refused insert is reported under
its identifier (`unaffected_by_known`).
-/

namespace LiveLayout

namespace KnownIdentifiers

variable {known more : KnownIdentifiers} {tree other : Tree} {id : Identifier}

/-- All that one table knows the other knows too. -/
def Within (known more : KnownIdentifiers) : Prop :=
  ∀ id, known.contains id = true → more.contains id = true

/-- **The table covers a tree**: the identifier of every node is known. -/
def Covers (known : KnownIdentifiers) (tree : Tree) : Prop :=
  ∀ n node, tree.node? n = some node → known.contains node.id = true

theorem Covers.mono (h : known.Covers tree) (hmore : known.Within more) : more.Covers tree :=
  fun n node hnode => hmore node.id (h n node hnode)

/-- Identifiers are all that counts of the nodes. -/
theorem covers_iff : known.Covers tree ↔
    ∀ n id, (tree.node? n).map (·.id) = some id → known.contains id = true := by
  constructor
  · intro h n id hid
    obtain ⟨node, hnode, rfl⟩ := Option.map_eq_some_iff.1 hid
    exact h n node hnode
  · intro h n node hnode
    refine h n node.id ?_
    rw [hnode]
    rfl

theorem Covers.of_sameShape (h : known.Covers tree) (hshape : tree.SameShape other) :
    known.Covers other := by
  rw [covers_iff] at h ⊢
  intro n id hid
  exact h n id ((hshape.id n).symm.trans hid)

/-- One more node takes one more identifier. -/
theorem Covers.insertChild {node : Node} (h : known.Covers tree)
    (hnew : known.contains node.id = true) (parent : NodeIndex) (position : Option Nat) :
    known.Covers (tree.insertChild parent node position) := by
  rw [covers_iff] at h ⊢
  intro n id hid
  rw [Tree.map_node?_insertChild (fun _ _ => rfl) fun _ _ => rfl] at hid
  split at hid
  · cases hid
    exact hnew
  · exact h n id hid

theorem contains_foldl_insert (ids : List Identifier) (known : KnownIdentifiers)
    (id : Identifier) :
    (ids.foldl insert known).contains id = true ↔ known.contains id = true ∨ id ∈ ids := by
  induction ids generalizing known with
  | nil => simp only [List.foldl_nil, List.not_mem_nil, or_false]
  | cons name rest ih =>
    rw [List.foldl_cons, ih, contains_insert, Bool.or_eq_true, beq_iff_eq, List.mem_cons, or_assoc]

/-- What is found in both is the same; the larger table may find more. -/
theorem Within.find? (h : known.Within more) (id : Identifier) :
    more.find? id = known.find? id ∨ known.find? id = none ∧ more.find? id = some id := by
  unfold KnownIdentifiers.find?
  by_cases hid : known.contains id = true
  · rw [if_pos hid, if_pos (h id hid)]
    exact .inl rfl
  · rw [if_neg hid]
    by_cases hmore : more.contains id = true
    · rw [if_pos hmore]
      exact .inr ⟨rfl, rfl⟩
    · rw [if_neg hmore]
      exact .inl rfl

end KnownIdentifiers

/-! ## Asking the table first -/

namespace Registry

variable {registry : Registry} {known : KnownIdentifiers}

/-- The entries of a registry whose identifiers are known. -/
def among (registry : Registry) (known : KnownIdentifiers) : Registry :=
  ⟨registry.entries.filter fun e => known.contains e.1⟩

/-- **Among the known entries** a text is found as when the table is asked
first and what it knows is looked up. -/
theorem lookup?_among (registry : Registry) (known : KnownIdentifiers) (id : Identifier) :
    (registry.among known).lookup? id = (known.find? id).bind registry.lookup? := by
  unfold among lookup? KnownIdentifiers.find?
  cases hid : known.contains id with
  | false =>
    refine List.lookup_eq_none_iff.2 fun e he => bne_iff_ne.2 fun heq => ?_
    have hknown := (List.mem_filter.1 he).2
    rw [← heq, hid] at hknown
    cases hknown
  | true =>
    show List.lookup id (registry.entries.filter _) = registry.entries.lookup id
    induction registry.entries with
    | nil => rfl
    | cons e rest ih =>
      rw [List.filter_cons]
      split
      · rw [List.lookup_cons, List.lookup_cons, ih]
      · rename_i hunknown
        have hne : (id == e.1) = false := by
          refine beq_eq_false_iff_ne.2 fun heq => hunknown ?_
          rw [← heq]
          exact hid
        rw [List.lookup_cons, hne, ih]

theorem among_eq_self
    (h : ∀ id, registry.contains id = true → known.contains id = true) :
    registry.among known = registry := by
  have hall : registry.entries.filter (fun e => known.contains e.1) = registry.entries := by
    refine List.filter_eq_self.2 fun e he => h e.1 ?_
    exact List.lookup_isSome_iff.2 ⟨e, he, beq_self_eq_true e.1⟩
  unfold among
  rw [hall]

end Registry

/-- An anchor's description whose item is kept only if it is known. -/
def AnchorConfig.among (known : KnownIdentifiers) (a : AnchorConfig) : AnchorConfig :=
  { a with item := a.item.bind known.find? }

/-- A description whose items are kept only if they are known. -/
def ConstraintConfig.among (known : KnownIdentifiers) (c : ConstraintConfig) : ConstraintConfig :=
  { c with first := c.first.among known, second := c.second.map (AnchorConfig.among known) }

namespace Tree

variable {tree : Tree} {registry : Registry} {known : KnownIdentifiers} {idx n : NodeIndex}

/-- A description applied as by `applyConfig`, its items looked for among
known identifiers. -/
def applyConfigAmong (known : KnownIdentifiers) (idx : NodeIndex) (tree : Tree)
    (entry : Json × Nat) : Tree × List Diagnostic :=
  let node := (tree.node? idx).map (·.id)
  match ConstraintConfig.ofDatum? entry.1.toDatum with
  | none => (tree, [⟨node, .entryMalformed (.undecodableConfig entry.2)⟩])
  | some config =>
    match tree.addressed? idx config with
    | some id =>
      (tree.updateConstraint id (config.constant.getD .zero) config.isActive config.priority, [])
    | none =>
      match (config.among known).toLive? tree idx with
      | some live =>
        ((tree.addConstraint { live with added := true }).pushSnapshot idx tree.nextConstraint, [])
      | none => (tree, [⟨node, .anchorInvalid (constraintLabel entry.2) .unresolvedConfig⟩])

/-- The constraints of an entry applied, all that they name looked for among
known identifiers. -/
def applyConstraintsAmong (tree : Tree) (known : KnownIdentifiers) (registry : Registry)
    (idx : NodeIndex) (modify : Bool) : ConstraintsField → Tree × List Diagnostic
  | .expressions entries =>
    Diagnostic.collect (applyExpression (registry.among known) idx modify) tree entries
  | .indexed configs => Diagnostic.collect (applyConfigAmong known idx) tree configs.zipIdx
  | .unsupported value =>
    (tree, [⟨(tree.node? idx).map (·.id), .entryMalformed (.unsupportedConstraints value)⟩])

/-- An item names a node that has the identifier. -/
theorem exists_node_of_itemOf? {item : Identifier} (h : tree.itemOf? idx item = some n) :
    ∃ m node, tree.node? m = some node ∧ node.id = item := by
  obtain ⟨node, hnode, hn⟩ := Option.bind_eq_some_iff.1 h
  split at hn
  · rename_i hid
    exact ⟨idx, node, hnode, hid⟩
  · have hchild := List.find?_some hn
    obtain ⟨child, hchild, hid⟩ := (Option.any_eq_true _ _).1 hchild
    exact ⟨n, child, hchild, beq_iff_eq.1 hid⟩

/-- **What is not known names no node of a tree that is covered.** -/
theorem anchorOf?_among (h : known.Covers tree) (a : AnchorConfig) :
    tree.anchorOf? idx (a.among known) = tree.anchorOf? idx a := by
  have hitem : (a.item.bind known.find?).bind (tree.itemOf? idx) =
      a.item.bind (tree.itemOf? idx) := by
    cases a.item with
    | none => rfl
    | some item =>
      simp only [Option.bind_some]
      unfold KnownIdentifiers.find?
      split
      · rfl
      · rename_i hunknown
        refine (Option.eq_none_iff_forall_ne_some.2 fun n hn => ?_).symm
        obtain ⟨m, node, hnode, rfl⟩ := exists_node_of_itemOf? hn
        exact hunknown (h m node hnode)
  unfold anchorOf? AnchorConfig.among
  rw [hitem]

theorem toLive?_among (h : known.Covers tree) (config : ConstraintConfig) :
    (config.among known).toLive? tree idx = config.toLive? tree idx := by
  have hsecond : (config.among known).secondAnchor? tree idx = config.secondAnchor? tree idx := by
    unfold ConstraintConfig.secondAnchor? ConstraintConfig.among
    cases config.second with
    | none => rfl
    | some second => exact congrArg (Option.map some) (anchorOf?_among h second)
  have hfirst : tree.anchorOf? idx (config.among known).first = tree.anchorOf? idx config.first :=
    anchorOf?_among h config.first
  unfold ConstraintConfig.toLive?
  rw [hsecond, hfirst]
  rfl

theorem applyConfigAmong_eq (h : known.Covers tree) (entry : Json × Nat) :
    tree.applyConfigAmong known idx entry = tree.applyConfig idx entry := by
  unfold applyConfigAmong applyConfig
  cases ConstraintConfig.ofDatum? entry.1.toDatum with
  | none => rfl
  | some config =>
    have hlive : (config.among known).toLive? tree idx = config.toLive? tree idx :=
      toLive?_among h config
    dsimp only
    generalize (config.among known).toLive? tree idx = live at hlive ⊢
    subst hlive
    rfl

/-- **The table makes no difference to constraints** as long as it covers the
tree and what is registered. -/
theorem applyConstraintsAmong_eq (h : known.Covers tree)
    (hregistered : ∀ id, registry.contains id = true → known.contains id = true) (modify : Bool)
    (field : ConstraintsField) :
    tree.applyConstraintsAmong known registry idx modify field =
      tree.applyConstraints registry idx modify field := by
  cases field with
  | expressions entries =>
    unfold applyConstraintsAmong
    rw [Registry.among_eq_self hregistered]
    rfl
  | unsupported value => rfl
  | indexed configs =>
    show Diagnostic.collect (applyConfigAmong known idx) tree configs.zipIdx =
      Diagnostic.collect (applyConfig idx) tree configs.zipIdx
    induction configs.zipIdx generalizing tree with
    | nil => rfl
    | cons entry rest ih =>
      have hedits : Edits .empty idx tree (tree.applyConfig idx entry).1 := edits_applyConfig entry
      simp only [Diagnostic.collect, applyConfigAmong_eq h, ih (h.of_sameShape hedits.sameShape)]

end Tree

namespace Engine

variable {engine : Engine} {known : KnownIdentifiers} {idx parent : NodeIndex} {modify : Bool}
variable {view : ViewChange}

/-- The content of an entry applied, all that its constraints name looked for
among known identifiers. -/
def applyContentAmong (engine : Engine) (known : KnownIdentifiers) (idx : NodeIndex)
    (modify : Bool) (view : ViewChange) : Engine × List Diagnostic :=
  let (engine, properties) := engine.applyProperties idx (view.properties.getD [])
  let (engine, layer) := engine.applyLayer idx (view.layer.getD [])
  match view.constraints with
  | none => (engine, properties ++ layer)
  | some field =>
    let (tree, constraints) :=
      engine.tree.applyConstraintsAmong known engine.registry idx modify field
    ({ engine with tree }, properties ++ layer ++ constraints)

/-- An insert that looks for all that it names among known identifiers. -/
def insertAmong (engine : Engine) (known : KnownIdentifiers) (id : Identifier)
    (parent : NodeIndex) (type : NodeType) (view : ViewChange) : Engine × List Diagnostic :=
  let idx := engine.tree.nextIndex
  let (filled, diagnostics) :=
    (engine.planted id parent type view).applyContentAmong known idx false view
  ({ filled with
      tree := filled.tree.captureSnapshot idx
      registry := filled.registry.register id idx }, diagnostics)

/-- A modify that looks for all that it names among known identifiers. -/
def modifyAmong (engine : Engine) (known : KnownIdentifiers) (idx : NodeIndex)
    (view : ViewChange) : Engine × List Diagnostic :=
  let (engine, content) := engine.applyContentAmong known idx true view
  match view.frame with
  | none => (engine, content)
  | some fields =>
    let (tree, frame) := engine.tree.applyFrame (engine.registry.among known) idx fields
    ({ engine with tree }, content ++ frame)

/-- **A table covers an engine**: it knows the identifiers of the nodes and
whatever is registered. -/
structure CoveredBy (engine : Engine) (known : KnownIdentifiers) : Prop where
  nodes : known.Covers engine.tree
  registered : ∀ id, engine.registry.contains id = true → known.contains id = true

theorem CoveredBy.of_edited {edited : Engine} (h : engine.CoveredBy known)
    (e : Edited idx engine edited) : edited.CoveredBy known where
  nodes := h.nodes.of_sameShape e.tree.sameShape
  registered id hid := h.registered id (e.registry ▸ hid)

theorem CoveredBy.applyContentAmong_eq (h : engine.CoveredBy known) (idx : NodeIndex)
    (modify : Bool) (view : ViewChange) :
    engine.applyContentAmong known idx modify view = engine.applyContent idx modify view := by
  have hstyled := h.of_edited (edited_styled engine idx view)
  unfold styled at hstyled
  unfold applyContentAmong applyContent
  cases view.constraints with
  | none => rfl
  | some field =>
    simp only [Tree.applyConstraintsAmong_eq hstyled.nodes hstyled.registered]

theorem CoveredBy.modifyAmong_eq (h : engine.CoveredBy known) (idx : NodeIndex)
    (view : ViewChange) : engine.modifyAmong known idx view = engine.modify idx view := by
  have hcontent := h.of_edited (edited_applyContent engine idx true view)
  unfold modifyAmong modify
  rw [h.applyContentAmong_eq]
  cases view.frame with
  | none => rfl
  | some fields => simp only [Registry.among_eq_self hcontent.registered]

/-- The new node's identifier is given out before its content is applied. -/
theorem CoveredBy.planted (h : engine.CoveredBy known) {id : Identifier}
    (hid : known.contains id = true) (parent : NodeIndex) (type : NodeType) (view : ViewChange) :
    (engine.planted id parent type view).CoveredBy known where
  nodes := h.nodes.insertChild hid _ _
  registered := h.registered

theorem CoveredBy.insertAmong_eq (h : engine.CoveredBy known) {id : Identifier}
    (hid : known.contains id = true) (parent : NodeIndex) (type : NodeType) (view : ViewChange) :
    engine.insertAmong known id parent type view = engine.insert id parent type view := by
  unfold insertAmong
  simp only [(h.planted hid parent type view).applyContentAmong_eq]
  rfl

end Engine

namespace Session

variable {session other : Session} {entry : Json}

/-- What an entry does, all that it names looked for among known
identifiers. -/
def resolveAmong (session : Session) (entry : Json) : Except Diagnostic Action :=
  let registry := session.engine.registry.among session.known
  ({ session with engine := { session.engine with registry } } : Session).resolve entry

/-- An action performed. An insert gives out its identifiers before it looks
for any. -/
def performAmong (session : Session) : Action → Session × List Diagnostic
  | .insert id parent type view =>
    let known := (id :: (NodeKind.ofType type id).identifiers).foldl .insert session.known
    let (engine, diagnostics) := session.engine.insertAmong known id parent type view
    (⟨engine, known⟩, diagnostics)
  | .modify idx view =>
    let (engine, diagnostics) := session.engine.modifyAmong session.known idx view
    (⟨engine, session.known⟩, diagnostics)

/-- One entry applied, all that it names looked for among known
identifiers. -/
def applyAmong (session : Session) (entry : Json) : Session × Report :=
  match session.resolveAmong entry with
  | .error diagnostic => (session, ⟨0, [diagnostic]⟩)
  | .ok action =>
    let (session, diagnostics) := session.performAmong action
    (session, ⟨1, diagnostics⟩)

/-- **A change sequence applied by asking the table first**, wherever a text
is looked up. -/
def tweakAmong (session : Session) : List Json → Session × Report
  | [] => (session, .empty)
  | entry :: rest =>
    let (session, first) := session.applyAmong entry
    let (session, others) := session.tweakAmong rest
    (session, first.append others)

/-- The identifiers an entry gives out: those of the node it inserts, if it
does, and of the title of a button. -/
def givenOutBy (session : Session) (entry : Json) : List Identifier :=
  match session.resolve entry with
  | .ok (.insert id _ type _) => if type = .button then [id, id.suffixed "label"] else [id]
  | _ => []

/-- **An entry makes known what it gives out**, and nothing else. -/
theorem contains_known_apply (session : Session) (entry : Json) (id : Identifier) :
    (session.apply entry).1.known.contains id = true ↔
      session.known.contains id = true ∨ id ∈ session.givenOutBy entry := by
  unfold apply givenOutBy
  cases hr : session.resolve entry with
  | error diagnostic => simp only [List.not_mem_nil, or_false]
  | ok action =>
    cases action with
    | modify idx view => simp only [perform, List.not_mem_nil, or_false]
    | insert name parent type view =>
      have hnames : name :: (NodeKind.ofType type name).identifiers =
          if type = .button then [name, name.suffixed "label"] else [name] := by
        cases type <;> rfl
      show ((name :: (NodeKind.ofType type name).identifiers).foldl .insert
        session.known).contains id = true ↔ _
      rw [KnownIdentifiers.contains_foldl_insert, hnames]

theorem contains_known_tweak (session : Session) (changes : List Json) (id : Identifier) :
    (session.tweak changes).1.known.contains id = true ↔
      session.known.contains id = true ∨ id ∈ session.account givenOutBy changes := by
  induction changes generalizing session with
  | nil => simp only [tweak, account, met, List.flatMap_nil, List.not_mem_nil, or_false]
  | cons entry rest ih =>
    have hrest := ih (session.apply entry).1
    rw [contains_known_apply, or_assoc] at hrest
    unfold account
    rw [met, List.flatMap_cons, List.mem_append]
    exact hrest

/-! ## A table that covers the nodes -/

/-- **Entries keep the nodes covered**: an insert makes the identifier of its
node known. -/
theorem covers_apply (h : session.known.Covers session.engine.tree) (entry : Json) :
    (session.apply entry).1.known.Covers (session.apply entry).1.engine.tree := by
  have hmore : session.known.Within (session.apply entry).1.known :=
    fun id hid => (session.contains_known_apply entry id).2 (.inl hid)
  have hcases := session.apply_cases entry
  generalize (session.apply entry).1.engine = after at hcases ⊢
  cases hcases with
  | refused => exact h.mono hmore
  | modified => exact (h.mono hmore).of_sameShape (Engine.edited_modify ..).tree.sameShape
  | @inserted id parent type view hr =>
    have hid : (session.apply entry).1.known.contains id = true := by
      refine (session.contains_known_apply entry id).2 (.inr ?_)
      unfold givenOutBy
      rw [hr]
      show id ∈ if type = .button then _ else _
      split <;> exact List.mem_cons_self
    have hplanted : (session.apply entry).1.known.Covers
        (session.engine.planted id parent type view).tree :=
      (h.mono hmore).insertChild hid _ _
    exact hplanted.of_sameShape (session.engine.sameShape_insert id parent type view)

theorem covers_tweak (h : session.known.Covers session.engine.tree) (changes : List Json) :
    (session.tweak changes).1.known.Covers (session.tweak changes).1.engine.tree := by
  induction changes generalizing session with
  | nil => exact h
  | cons entry rest ih => exact ih (covers_apply h entry)

/-- What is registered is covered with the nodes. -/
theorem coveredBy_of_catalogued {made : List (Identifier × NodeIndex)}
    (h : session.known.Covers session.engine.tree) (hmade : session.engine.Catalogued made) :
    session.engine.CoveredBy session.known where
  nodes := h
  registered id hid := by
    obtain ⟨n, hn⟩ := Option.isSome_iff_exists.1 hid
    obtain ⟨node, hnode, rfl⟩ := hmade.exists_node hn
    exact h n node hnode

/-- **Asking the table first makes no difference to an entry.** -/
theorem applyAmong_eq (h : session.engine.CoveredBy session.known) (entry : Json) :
    session.applyAmong entry = session.apply entry := by
  unfold applyAmong apply resolveAmong
  rw [Registry.among_eq_self h.registered]
  cases hr : session.resolve entry with
  | error diagnostic => rfl
  | ok action =>
    cases action with
    | modify idx view =>
      simp only [performAmong, perform, h.modifyAmong_eq]
    | insert id parent type view =>
      let known := (id :: (NodeKind.ofType type id).identifiers).foldl .insert session.known
      have hmore : session.known.Within known := fun name hname =>
        (KnownIdentifiers.contains_foldl_insert _ _ name).2 (.inl hname)
      have hid : known.contains id = true :=
        (KnownIdentifiers.contains_foldl_insert _ _ id).2 (.inr List.mem_cons_self)
      have hcovered : session.engine.CoveredBy known :=
        ⟨h.nodes.mono hmore, fun name hname => hmore name (h.registered name hname)⟩
      have hinsert := hcovered.insertAmong_eq hid parent type view
      simp only [performAmong, perform]
      rw [hinsert]

theorem tweakAmong_eq {made : List (Identifier × NodeIndex)}
    (hmade : session.engine.Catalogued made) (h : session.known.Covers session.engine.tree)
    (changes : List Json) : session.tweakAmong changes = session.tweak changes := by
  induction changes generalizing session made with
  | nil => rfl
  | cons entry rest ih =>
    unfold tweakAmong tweak
    rw [applyAmong_eq (coveredBy_of_catalogued h hmade)]
    simp only [ih (catalogued_apply hmade entry) (covers_apply h entry)]

/-! ## Two tables -/

/-- **Two sessions over one engine**, the second of which knows whatever the
first does. -/
structure Alike (session other : Session) : Prop where
  engine : other.engine = session.engine
  known : session.known.Within other.known

/-- **Two entries answered alike**: the same entry by the same engine, with
the same report, or it is an insert that both refuse for the same cause, and
the second names the node where the first does not. -/
def AnsweredAlike (m m' : Session × Json) : Prop :=
  m'.2 = m.2 ∧ m'.1.engine = m.1.engine ∧
    ((m'.1.apply m'.2).2 = (m.1.apply m.2).2 ∨
      ∃ change id cause, Change.ofJson? m.2 = some change ∧
        change.operation? = some .insert ∧ change.view.id = some id ∧
        (m.1.apply m.2).2 = ⟨0, [⟨none, cause⟩]⟩ ∧
        (m'.1.apply m'.2).2 = ⟨0, [⟨some id, cause⟩]⟩)

theorem AnsweredAlike.applied {m m' : Session × Json} (h : AnsweredAlike m m') :
    (m'.1.apply m'.2).2.applied = (m.1.apply m.2).2.applied := by
  obtain ⟨-, -, hsame | ⟨_, _, _, -, -, -, hnone, hsome⟩⟩ := h
  · rw [hsame]
  · rw [hnone, hsome]

namespace Alike

/-- Only the refusal of an insert looks at what else is known. -/
theorem resolveInsert (h : session.Alike other) (view : ViewChange) :
    other.resolveInsert view = session.resolveInsert view ∨
      ∃ id cause, view.id = some id ∧ session.resolveInsert view = .error ⟨none, cause⟩ ∧
        other.resolveInsert view = .error ⟨some id, cause⟩ := by
  unfold Session.resolveInsert
  rw [h.engine]
  cases hid : view.id with
  | none => exact .inl rfl
  | some id =>
    simp only
    rcases h.known.find? id with hsame | ⟨hnone, hsome⟩
    · rw [hsame]
      exact .inl rfl
    · rw [hnone, hsome]
      cases session.engine.registry.lookup? (view.superview.getD "") with
      | none => exact .inr ⟨id, _, rfl, rfl, rfl⟩
      | some parent =>
        simp only
        cases NodeType.ofTag? (view.typeTag.getD "") with
        | none => exact .inr ⟨id, _, rfl, rfl, rfl⟩
        | some type => exact .inl rfl

/-- **What an entry does is up to the engine**, and so is why it is refused,
but for the name under which the refusal of an insert is reported. -/
theorem resolve (h : session.Alike other) (entry : Json) :
    other.resolve entry = session.resolve entry ∨
      ∃ change id cause, Change.ofJson? entry = some change ∧
        change.operation? = some .insert ∧ change.view.id = some id ∧
        session.resolve entry = .error ⟨none, cause⟩ ∧
        other.resolve entry = .error ⟨some id, cause⟩ := by
  cases hchange : Change.ofJson? entry with
  | none =>
    refine .inl ?_
    simp only [Session.resolve, hchange]
  | some change =>
    cases hop : change.operation? with
    | none =>
      refine .inl ?_
      simp only [Session.resolve, hchange, hop]
    | some op =>
      cases op with
      | modify =>
        refine .inl ?_
        simp only [Session.resolve, hchange, hop, resolveModify, h.engine]
      | insert =>
        have hinsert : ∀ s : Session, s.resolve entry = s.resolveInsert change.view := by
          intro s
          simp only [Session.resolve, hchange, hop]
        rw [hinsert, hinsert]
        rcases h.resolveInsert change.view with hsame | ⟨id, cause, hid, hnone, hsome⟩
        · exact .inl hsame
        · exact .inr ⟨change, id, cause, rfl, hop, hid, hnone, hsome⟩

/-- **Alike sessions answer an entry alike**, and are alike afterwards. -/
theorem apply (h : session.Alike other) (entry : Json) :
    (session.apply entry).1.Alike (other.apply entry).1 ∧
      AnsweredAlike (session, entry) (other, entry) ∧
      other.givenOutBy entry = session.givenOutBy entry := by
  have hgiven : other.givenOutBy entry = session.givenOutBy entry := by
    unfold givenOutBy
    rcases h.resolve entry with hsame | ⟨_, _, _, -, -, -, hnone, hsome⟩
    · rw [hsame]
    · rw [hnone, hsome]
  have hknown : (session.apply entry).1.known.Within (other.apply entry).1.known := by
    intro id hid
    rw [contains_known_apply] at hid ⊢
    rw [hgiven]
    exact hid.imp_left (h.known id)
  rcases h.resolve entry with hsame | ⟨change, id, cause, hchange, hop, hid, hnone, hsome⟩
  · have hperform : ∀ action, (other.perform action).1.engine = (session.perform action).1.engine ∧
        (other.perform action).2 = (session.perform action).2 := by
      intro action
      cases action <;> simp only [perform, h.engine, and_self]
    have hanswer : (other.apply entry).1.engine = (session.apply entry).1.engine ∧
        (other.apply entry).2 = (session.apply entry).2 := by
      unfold Session.apply
      rw [hsame]
      cases session.resolve entry with
      | error diagnostic => exact ⟨h.engine, rfl⟩
      | ok action =>
        obtain ⟨hengine, hdiagnostics⟩ := hperform action
        exact ⟨hengine, congrArg (Report.mk 1) hdiagnostics⟩
    exact ⟨⟨hanswer.1, hknown⟩, ⟨rfl, h.engine, .inl hanswer.2⟩, hgiven⟩
  · have hfirst : session.apply entry = (session, ⟨0, [⟨none, cause⟩]⟩) := by
      unfold Session.apply
      rw [hnone]
    have hsecond : other.apply entry = (other, ⟨0, [⟨some id, cause⟩]⟩) := by
      unfold Session.apply
      rw [hsome]
    refine ⟨⟨?_, hknown⟩, ⟨rfl, h.engine, .inr ?_⟩, hgiven⟩
    · rw [hfirst, hsecond]
      exact h.engine
    · refine ⟨change, id, cause, hchange, hop, hid, ?_, ?_⟩
      · rw [hfirst]
      · rw [hsecond]

/-- **And so a change sequence**, entry by entry. -/
theorem tweak (h : session.Alike other) (changes : List Json) :
    (session.tweak changes).1.Alike (other.tweak changes).1 ∧
      (other.tweak changes).2.applied = (session.tweak changes).2.applied ∧
      List.Forall₂ AnsweredAlike (session.met changes) (other.met changes) ∧
      other.account givenOutBy changes = session.account givenOutBy changes := by
  induction changes generalizing session other with
  | nil => exact ⟨h, rfl, .nil, rfl⟩
  | cons entry rest ih =>
    obtain ⟨hafter, hanswered, hgiven⟩ := h.apply entry
    obtain ⟨hlast, happlied, hrest, hgivens⟩ := ih hafter
    refine ⟨hlast, ?_, .cons hanswered hrest, ?_⟩
    · show (other.apply entry).2.applied + ((other.apply entry).1.tweak rest).2.applied = _
      rw [hanswered.applied, happlied]
      rfl
    · show other.givenOutBy entry ++ (other.apply entry).1.account givenOutBy rest = _
      rw [hgiven, hgivens]
      rfl

end Alike

/-- **What is reported of a change sequence** is what is reported of its
entries, each as it is met. -/
theorem diagnostics_tweak (session : Session) (changes : List Json) :
    (session.tweak changes).2.diagnostics =
      (session.met changes).flatMap fun m => (m.1.apply m.2).2.diagnostics := by
  induction changes generalizing session with
  | nil => rfl
  | cons entry rest ih => exact congrArg (_ ++ ·) (ih (session.apply entry).1)

/-- **What others gave out does not show.** Take the engine of a session
reached, and two tables of known identifiers that cover its nodes, the one
within the other. Whether texts are looked up directly or by asking the table
first comes to the same with either. The two runs of a change sequence lead to
the same engine and count as many entries as applied; their reports agree
entry by entry, except that an insert that is refused may be named in the one
and not in the other. What each run makes known are the identifiers of the
nodes that were inserted and of their titles, and the nodes stay covered. -/
theorem unaffected_by_known (h : session.Reached) {known more : KnownIdentifiers}
    (hcovers : known.Covers session.engine.tree) (hmore : known.Within more)
    (changes : List Json) :
    let first : Session := ⟨session.engine, known⟩
    let second : Session := ⟨session.engine, more⟩
    (first.tweakAmong changes = first.tweak changes ∧
        second.tweakAmong changes = second.tweak changes) ∧
      ((second.tweak changes).1.engine = (first.tweak changes).1.engine ∧
        (second.tweak changes).2.applied = (first.tweak changes).2.applied) ∧
      ((first.tweak changes).2.diagnostics =
          ((first.met changes).flatMap fun m => (m.1.apply m.2).2.diagnostics) ∧
        (second.tweak changes).2.diagnostics =
          ((second.met changes).flatMap fun m => (m.1.apply m.2).2.diagnostics) ∧
        List.Forall₂ AnsweredAlike (first.met changes) (second.met changes)) ∧
      (∀ id, ((first.tweak changes).1.known.contains id = true ↔
          known.contains id = true ∨ id ∈ first.account givenOutBy changes) ∧
        ((second.tweak changes).1.known.contains id = true ↔
          more.contains id = true ∨ id ∈ first.account givenOutBy changes)) ∧
      (first.tweak changes).1.known.Covers (first.tweak changes).1.engine.tree := by
  intro first second
  obtain ⟨made, hmade⟩ := h.exists_course insertedBy
  have hcatalogued : first.engine.Catalogued ((Identifier.root, Tree.root) :: made) :=
    hmade.catalogued
  have hcatalogued' : second.engine.Catalogued ((Identifier.root, Tree.root) :: made) :=
    hmade.catalogued
  have halike : first.Alike second := ⟨rfl, hmore⟩
  obtain ⟨hlast, happlied, hanswered, hgiven⟩ := halike.tweak changes
  refine ⟨⟨tweakAmong_eq hcatalogued hcovers changes,
      tweakAmong_eq hcatalogued' (hcovers.mono hmore) changes⟩, ⟨hlast.engine, happlied⟩,
    ⟨first.diagnostics_tweak changes, second.diagnostics_tweak changes, hanswered⟩,
    fun id => ⟨first.contains_known_tweak changes id, ?_⟩, covers_tweak hcovers changes⟩
  rw [← hgiven]
  exact second.contains_known_tweak changes id

/-- A box, a description of it that names a ghost, a ghost that is refused
for want of its parent, and a button in the box. -/
def haunting : List Json :=
  [viewInserted "box" "root",
    .object [("operation", .string "modify"),
      ("view", .object [("id", .string "box"),
        ("constraints", .array [.object [("constant", .number (.natural 10)),
          ("first", .object [("attribute", .string "width"), ("item", .string "ghost")])]])])],
    viewInserted "ghost" "shelf",
    .object [("operation", .string "insert"),
      ("view", .object [("id", .string "save"), ("superview", .string "box"),
        ("type", .string "Button")])]]

/-- Where the ghost is known from elsewhere it is named as what was refused.
The description resolves no better for it, and nothing else is different. -/
theorem unaffected_by_known_of_ghost :
    let engine := (initial .standard .none).engine
    let first : Session := ⟨engine, ⟨["root"]⟩⟩
    let second : Session := ⟨engine, ⟨["root", "ghost", "shelf"]⟩⟩
    second.tweakAmong haunting = second.tweak haunting ∧
      (second.tweak haunting).1.engine = (first.tweak haunting).1.engine ∧
      (first.tweak haunting).2.diagnostics.map (·.node) = [some "box", none] ∧
      (second.tweak haunting).2.diagnostics.map (·.node) = [some "box", some "ghost"] ∧
      ∀ id, (first.tweak haunting).1.known.contains id = true ↔
        id ∈ ["root", "box", "save", "save_label"] := by
  intro engine first second
  have hcovers : KnownIdentifiers.Covers ⟨["root"]⟩ engine.tree := by
    intro n node hnode
    cases n with
    | zero =>
      cases hnode
      rfl
    | succ n => cases hnode
  have hmore : KnownIdentifiers.Within ⟨["root"]⟩ ⟨["root", "ghost", "shelf"]⟩ := by
    intro id hid
    obtain rfl := List.mem_singleton.1 (List.contains_iff_mem.1 hid)
    rfl
  have hgiven : first.account givenOutBy haunting = ["box", "save", "save_label"] := by
    decide +kernel
  have hreached : (initial .standard .none).Reached := .initial _ _ _
  obtain ⟨⟨-, hamong⟩, ⟨hengine, -⟩, -, hknown, -⟩ :=
    unaffected_by_known hreached hcovers hmore haunting
  refine ⟨hamong, hengine, by decide +kernel, by decide +kernel, fun id => ?_⟩
  have hroot : KnownIdentifiers.contains ⟨["root"]⟩ id = true ↔ id = "root" := by
    unfold KnownIdentifiers.contains
    rw [List.contains_iff_mem, List.mem_singleton]
  refine (hknown id).1.trans ?_
  show _ ∨ id ∈ first.account givenOutBy haunting ↔ _
  rw [hgiven]
  exact (or_congr_left hroot).trans List.mem_cons.symm

end Session

end LiveLayout
