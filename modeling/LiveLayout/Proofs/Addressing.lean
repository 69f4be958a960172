import LiveLayout.Proofs.Documents
import LiveLayout.Proofs.Expressions
import LiveLayout.Proofs.Upkeep
/-!
# One constraint for an attribute

An expression takes the place of the constraint that holds its attribute, on
the assumption that there is one at most. A description goes by its position
alone: it may switch a constraint on while another one holds the attribute,
such as one that an expression has put in its place. So the assumption is
kept exactly by descriptions that switch nothing on where something else is
in force (`Addressing.Apart`, `Coherent.single_updateConstraint_iff`). With
these alone, and every position in range, no attribute is ever held twice
(`one_in_force`); to have every position in range is not enough
(`in_range_not_enough`).
-/

namespace LiveLayout

namespace Tree

variable {tree other : Tree} {registry : Registry} {idx : NodeIndex} {id j : ConstraintId}
variable {c k : Constraint} {accepted : List Acceptance}

/-- **No attribute is held twice.** -/
def Single (tree : Tree) : Prop := ∀ anchor, tree.Sole anchor

/-- Only the constraints count. -/
theorem Single.of_same (h : tree.Single)
    (hc : ∀ id, other.constraint? id = tree.constraint? id) : other.Single := by
  intro anchor i j hi hj
  rw [mem_activeOn, hc] at hi hj
  exact h anchor i j (mem_activeOn.2 hi) (mem_activeOn.2 hj)

/-! ## Expressions -/

/-- **A constraint that replaces the one before it** leaves no attribute held
twice. -/
theorem Coherent.single_constrain (h : tree.Coherent) (hsingle : tree.Single)
    (hc : tree.Anchored c) (hon : c.active = true) : (tree.constrain true c).Single := by
  obtain ⟨owner, ho, -⟩ := h.exists_ownerFor? hc
  intro anchor
  obtain ⟨held, hheld⟩ := (hsingle anchor).exists_holds
  by_cases heq : anchor = c.first
  · subst heq
    exact (h.holds_constrain hon ho hheld (.inl rfl)).sole
  · exact (h.holds_constrain_of_ne hon ho heq hheld).sole

theorem Coherent.single_constrainAll (h : tree.Coherent) (hsingle : tree.Single)
    (hanchored : ∀ a ∈ accepted, tree.Anchored a.constraint) :
    (tree.constrainAll true accepted).Single := by
  induction accepted generalizing tree with
  | nil => exact hsingle
  | cons a rest ih =>
    have ha := hanchored a List.mem_cons_self
    have hshape : tree.SameShape (tree.constrain true a.constraint) := sameShape_constrain
    refine ih (h.constrain true ha) (h.single_constrain hsingle ha rfl) fun b hb => ?_
    exact hshape.anchored (hanchored b (List.mem_cons_of_mem _ hb))

/-! ## Descriptions -/

/-- **A constraint that is switched is on or off as asked**: there is always
a node to install it on. -/
theorem Coherent.active_switch {active : Bool} (h : tree.Coherent)
    (hk : (tree.switch id active).constraint? id = some k) : k.active = active := by
  have hcases := tree.switch_cases id active
  generalize tree.switch id active = switched at hcases hk
  cases hcases with
  | kept hkept =>
    rcases hkept k hk with hsame | ⟨-, hnone⟩
    · exact hsame
    · obtain ⟨owner, ho, -⟩ := h.exists_ownerFor? (h.anchored id k hk)
      rw [hnone] at ho
      cases ho
  | on hon hc =>
    rw [constraint?_install, if_pos rfl, hc] at hk
    cases hk
    exact hon.symm
  | off hoff hc =>
    rw [constraint?_uninstall, if_pos rfl, hc] at hk
    cases hk
    exact hoff.symm

/-- **What an update leaves**: the constraint with its new terms, on or off
as asked, and every other one as it was. -/
theorem Coherent.constraint?_updateConstraint (h : tree.Coherent)
    (hc : tree.constraint? id = some c) (constant : Binary64) (active : Bool)
    (priority : Binary32) :
    (∃ owner, (tree.updateConstraint id constant active priority).constraint? id =
      some { c with constant, priority, active, owner }) ∧
    ∀ j, id ≠ j →
      (tree.updateConstraint id constant active priority).constraint? j = tree.constraint? j := by
  let amended := tree.modifyConstraint id fun c => { c with constant, priority }
  have hamended : amended.Coherent := h.amend constant priority
  have hself : amended.constraint? id = some { c with constant, priority } := by
    show (tree.modifyConstraint id _).constraint? id = _
    rw [constraint?_modifyConstraint, if_pos rfl, hc]
    rfl
  have hother : ∀ j, id ≠ j → amended.constraint? j = tree.constraint? j := by
    intro j hne
    show (tree.modifyConstraint id _).constraint? j = _
    rw [constraint?_modifyConstraint, if_neg hne]
  have hcases := amended.switch_cases id active
  refine ⟨?_, fun j hne => (hcases.constraint?_of_ne hne).trans (hother j hne)⟩
  obtain ⟨on, owner, hget⟩ := hcases.constraint?_self hself
  have hon : on = active := hamended.active_switch hget
  subst hon
  exact ⟨owner, hget⟩

/-- **An update leaves no attribute held twice** exactly if it leaves the
constraint off, or no other one holds the attribute. -/
theorem Coherent.single_updateConstraint_iff (h : tree.Coherent) (hsingle : tree.Single)
    (hc : tree.constraint? id = some c) (constant : Binary64) (active : Bool)
    (priority : Binary32) :
    (tree.updateConstraint id constant active priority).Single ↔
      (active = true → ∀ j ∈ tree.activeOn c.first, j = id) := by
  obtain ⟨⟨owner, hself⟩, hother⟩ := h.constraint?_updateConstraint hc constant active priority
  generalize tree.updateConstraint id constant active priority = updated at hself hother ⊢
  constructor
  · intro hupdated hon j hj
    refine Classical.byContradiction fun hne => hne ?_
    -- both would hold the attribute afterwards
    obtain ⟨k, hk, hkon, hfirst⟩ := mem_activeOn.1 hj
    have hmine : id ∈ updated.activeOn c.first := mem_activeOn.2 ⟨_, hself, hon, rfl⟩
    have hits : j ∈ updated.activeOn c.first :=
      mem_activeOn.2 ⟨k, (hother j (Ne.symm hne)).trans hk, hkon, hfirst⟩
    exact hupdated c.first j id hits hmine
  · intro hapart
    -- what else holds an attribute afterwards held it before
    have hbefore : ∀ anchor j, j ∈ updated.activeOn anchor → id ≠ j →
        j ∈ tree.activeOn anchor := by
      intro anchor j hj hne
      rw [mem_activeOn, hother j hne] at hj
      exact mem_activeOn.2 hj
    have hmine : ∀ anchor, id ∈ updated.activeOn anchor → active = true ∧ c.first = anchor := by
      intro anchor hid
      obtain ⟨k, hk, hkon, hfirst⟩ := mem_activeOn.1 hid
      rw [hself] at hk
      cases hk
      exact ⟨hkon, hfirst⟩
    intro anchor i j hi hj
    by_cases hid : id = i
    · subst hid
      obtain ⟨hon, rfl⟩ := hmine anchor hi
      by_cases hjd : id = j
      · exact hjd
      · exact (hapart hon j (hbefore _ j hj hjd)).symm
    · by_cases hjd : id = j
      · subst hjd
        obtain ⟨hon, rfl⟩ := hmine anchor hj
        exact hapart hon i (hbefore _ i hi hid)
      · exact hsingle anchor i j (hbefore anchor i hi hid) (hbefore anchor j hj hjd)

end Tree

/-! ## What descriptions meet -/

/-- **A description with the tree it meets**, and the node it is for. -/
structure Addressing where
  tree : Tree
  node : NodeIndex
  config : ConstraintConfig

namespace Addressing

/-- **In range**: the position is one of the node's snapshot list. -/
def InRange (a : Addressing) : Prop := ∃ id, a.tree.addressed? a.node a.config = some id

/-- **Apart**: the constraint at the position is left off, or no other one
is in force for its attribute. -/
def Apart (a : Addressing) : Prop :=
  ∀ id c, a.tree.addressed? a.node a.config = some id → a.tree.constraint? id = some c →
    a.config.isActive = true → ∀ j ∈ a.tree.activeOn c.first, j = id

instance : DecidablePred InRange := fun a =>
  decidable_of_iff ((a.tree.addressed? a.node a.config).isSome = true) Option.isSome_iff_exists

instance : DecidablePred Apart := fun a =>
  decidable_of_iff
    (∀ id ∈ a.tree.addressed? a.node a.config, ∀ c ∈ a.tree.constraint? id,
      a.config.isActive = true → ∀ j ∈ a.tree.activeOn c.first, j = id)
    ⟨fun h id c hid hc => h id hid c hc, fun h id hid c hc => h id c hid hc⟩

end Addressing

namespace Tree

variable {tree : Tree} {registry : Registry} {idx : NodeIndex}

/-- **The descriptions of a list, each with the tree it meets**, as the ones
before it left it. -/
def addressings (idx : NodeIndex) : Tree → List (Json × Nat) → List Addressing
  | _, [] => []
  | tree, entry :: rest =>
    ((ConstraintConfig.ofDatum? entry.1.toDatum).map fun config => ⟨tree, idx, config⟩).toList ++
      addressings idx (tree.applyConfig idx entry).1 rest

/-- **One description in range** leaves no attribute held twice exactly if it
is apart. -/
theorem Coherent.single_applyConfig_iff (h : tree.Coherent) (hrec : tree.Recorded)
    (hsingle : tree.Single) {entry : Json × Nat} {config : ConstraintConfig}
    (hconfig : ConstraintConfig.ofDatum? entry.1.toDatum = some config)
    (hrange : Addressing.InRange ⟨tree, idx, config⟩) :
    (tree.applyConfig idx entry).1.Single ↔ Addressing.Apart ⟨tree, idx, config⟩ := by
  obtain ⟨id, hid⟩ := hrange
  have hmem : id ∈ tree.snapshot idx := by
    obtain ⟨position, -, hget⟩ := Option.bind_eq_some_iff.1 hid
    exact List.mem_of_getElem? hget
  obtain ⟨c, hc⟩ := constraint?_of_lt (hrec idx id hmem)
  have hupdate : (tree.applyConfig idx entry).1 =
      tree.updateConstraint id (config.constant.getD .zero) config.isActive config.priority := by
    unfold applyConfig
    simp only [hconfig, hid]
  rw [hupdate, h.single_updateConstraint_iff hsingle hc]
  constructor
  · intro hapart id' c' hid' hc'
    have hsame : id' = id := Option.some.inj (hid'.symm.trans hid)
    subst hsame
    have hsame : c' = c := Option.some.inj (hc'.symm.trans hc)
    subst hsame
    exact hapart
  · intro hapart
    exact hapart id c hid hc

/-- **A list of descriptions**, all in range and apart. -/
theorem Coherent.single_applyConfigs (h : tree.Coherent) (hrec : tree.Recorded)
    (hidx : idx < tree.size) (hsingle : tree.Single) {configs : List (Json × Nat)}
    (hall : ∀ a ∈ addressings idx tree configs, a.InRange ∧ a.Apart) :
    (Diagnostic.collect (applyConfig idx) tree configs).1.Single := by
  induction configs generalizing tree with
  | nil => exact hsingle
  | cons entry rest ih =>
    have hedits : Edits Registry.empty idx tree (tree.applyConfig idx entry).1 :=
      edits_applyConfig entry
    have hsize := hedits.sameShape.size
    have hstep : (tree.applyConfig idx entry).1.Single := by
      cases hconfig : ConstraintConfig.ofDatum? entry.1.toDatum with
      | none =>
        unfold applyConfig
        simp only [hconfig]
        exact hsingle
      | some config =>
        have hfirst := hall ⟨tree, idx, config⟩ (List.mem_append_left _ (by
          rw [hconfig]
          exact List.mem_singleton_self _))
        exact (h.single_applyConfig_iff hrec hsingle hconfig hfirst.1).2 hfirst.2
    refine ih (hedits.coherent h hidx) (hedits.recorded hrec)
      (Nat.lt_of_lt_of_eq hidx hsize.symm) hstep ?_
    exact fun a ha => hall a (List.mem_append_right _ ha)

end Tree

/-! ## Entries -/

namespace Engine

variable {engine : Engine} {idx : NodeIndex} {view : ViewChange} {modify : Bool}

/-- The descriptions of an entry, once the node has its look. -/
def addressings (engine : Engine) (idx : NodeIndex) (view : ViewChange) : List Addressing :=
  match view.constraints with
  | some (.indexed configs) => Tree.addressings idx (engine.styled idx view).tree configs.zipIdx
  | _ => []

/-- **The content of an entry leaves no attribute held twice**, if its
descriptions are in range and apart. Expressions replace, or there is
nothing to replace. -/
theorem Sound.single_applyContent (h : engine.Sound) (hidx : idx < engine.tree.size)
    (hsingle : engine.tree.Single) (hview : view.Ordered)
    (hfree : modify = true ∨ ∀ anchor, anchor.node = idx → engine.tree.activeOn anchor = [])
    (hall : ∀ a ∈ engine.addressings idx view, a.InRange ∧ a.Apart) :
    (engine.applyContent idx modify view).1.tree.Single := by
  have hedited := edited_styled engine idx view
  have hsound : (engine.styled idx view).Sound := h.of_edited hidx hedited
  have hidx' : idx < (engine.styled idx view).tree.size :=
    Nat.lt_of_lt_of_eq hidx hedited.tree.sameShape.size.symm
  have hconstraints := constraints_styled engine idx view
  have hstyled : (engine.styled idx view).tree.Single := by
    refine hsingle.of_same fun id => ?_
    unfold Tree.constraint?
    rw [hconstraints]
  rw [applyContent_eq]
  unfold addressings at hall
  cases hfield : view.constraints with
  | none => exact hstyled
  | some field =>
    cases field with
    | unsupported value => exact hstyled
    | indexed configs =>
      rw [hfield] at hall
      exact hsound.coherent.single_applyConfigs hsound.recorded hidx' hstyled hall
    | expressions entries =>
      simp only [Tree.applyConstraints, Tree.collect_applyExpression]
      have hanchored : ∀ a ∈ (engine.styled idx view).tree.acceptances
          (engine.styled idx view).registry idx entries,
          (engine.styled idx view).tree.Anchored a.constraint := fun a =>
        Tree.anchored_of_mem_acceptances hsound.coherent.toRooted hidx'
      have hmodify := hsound.coherent.single_constrainAll hstyled hanchored
      rcases hfree with rfl | hfree
      · exact hmodify
      · cases modify with
        | true => exact hmodify
        | false =>
          rw [← hsound.coherent.constrainAll_of_free hanchored (fun a ha => ?_)
            (Tree.nodup_targets (hview.expressions entries hfield))]
          · exact hmodify
          · obtain ⟨entry, -, haccept⟩ := List.mem_filterMap.1 ha
            unfold Tree.activeOn Tree.constraint?
            rw [hconstraints]
            exact hfree a.target (Tree.accept?_eq_some haccept).1

end Engine

namespace Session

variable {session : Session} {entry : Json} {P : Addressing → Prop}

/-- **The descriptions of an entry**, each with what it meets. -/
def addressingsOf (session : Session) (entry : Json) : List Addressing :=
  match session.resolve entry with
  | .error _ => []
  | .ok (.insert id parent type view) =>
    (session.engine.planted id parent type view).addressings session.engine.tree.nextIndex view
  | .ok (.modify idx view) => session.engine.addressings idx view

/-- The descriptions of a change sequence, in order. -/
def addressings (session : Session) (changes : List Json) : List Addressing :=
  (session.met changes).flatMap fun m => m.1.addressingsOf m.2

/-- **A session reached with descriptions of one kind only**: what each of
them meets has the property. Entries are as they are read, in order. -/
inductive ReachedWith (P : Addressing → Prop) : Session → Prop
  | initial (config : EngineConfig) (images : ImageLoader) (known : KnownIdentifiers) :
      ReachedWith P ⟨.initial config images, known⟩
  | tweak {session : Session} {changes : List Json} : ReachedWith P session →
      (∀ entry ∈ changes, entry.Ordered) → (∀ a ∈ session.addressings changes, P a) →
      ReachedWith P (session.tweak changes).1

theorem ReachedWith.reached (h : session.ReachedWith P) : session.Reached := by
  induction h with
  | initial config images known => exact .initial config images known
  | tweak _ _ _ ih => exact .tweak _ ih

/-- **Every entry leaves no attribute held twice.** The node of an insert has
no constraints before. -/
theorem single_apply (h : session.engine.Sound) (hsingle : session.engine.tree.Single)
    (hordered : entry.Ordered)
    (hall : ∀ a ∈ session.addressingsOf entry, a.InRange ∧ a.Apart) :
    (session.apply entry).1.engine.tree.Single := by
  unfold addressingsOf at hall
  unfold apply
  cases hr : session.resolve entry with
  | error diagnostic => exact hsingle
  | ok action =>
    rw [hr] at hall
    cases action with
    | insert id parent type view =>
      obtain ⟨hparent, change, hchange, rfl⟩ := resolve_insert hr
      have hplanted := h.planted (h.within _ _ hparent) id type change.view
      have hidx := session.engine.nextIndex_lt_planted id parent type change.view
      have hnew : ∀ anchor : Anchor, anchor.node = session.engine.tree.nextIndex →
          (session.engine.planted id parent type change.view).tree.activeOn anchor = [] :=
        fun anchor hanchor =>
          h.coherent.activeOn_of_size_le (Nat.le_of_eq hanchor.symm)
      have hsame : (session.engine.planted id parent type change.view).tree.Single :=
        hsingle.of_same fun _ => rfl
      have hfilled : (session.engine.filled id parent type change.view).tree.Single :=
        hplanted.single_applyContent hidx hsame (Change.ordered_of_ofJson? hordered hchange)
          (.inr hnew) hall
      exact hfilled.of_same fun _ => rfl
    | modify idx view =>
      obtain ⟨⟨id, -, hid⟩, change, hchange, rfl⟩ := resolve_modify hr
      have hcontent := h.single_applyContent (h.within _ _ hid) hsingle
        (Change.ordered_of_ofJson? hordered hchange) (.inl rfl) hall
      -- the frame that may follow leaves the arena alone
      refine hcontent.of_same fun j => ?_
      show (session.engine.modify idx change.view).1.tree.constraint? j = _
      rw [Engine.modify_eq]
      cases change.view.frame with
      | none => rfl
      | some fields => exact Tree.constraint?_applyFrame fields j

theorem single_tweak {changes : List Json} (h : session.engine.Sound)
    (hsingle : session.engine.tree.Single) (hordered : ∀ entry ∈ changes, entry.Ordered)
    (hall : ∀ a ∈ session.addressings changes, a.InRange ∧ a.Apart) :
    (session.tweak changes).1.engine.tree.Single := by
  induction changes generalizing session with
  | nil => exact hsingle
  | cons entry rest ih =>
    unfold addressings at hall
    rw [met, List.flatMap_cons] at hall
    have hstep := single_apply h hsingle (hordered entry List.mem_cons_self) fun a ha =>
      hall a (List.mem_append_left _ ha)
    refine ih (sound_apply h entry) hstep (fun e he => ?_) fun a ha => ?_
    · exact hordered e (List.mem_cons_of_mem _ he)
    · exact hall a (List.mem_append_right _ ha)

/-- **One constraint in force for an attribute.** In a session reached with
descriptions that were all in range, and each left its constraint off or met
no other one in force for the attribute, every attribute of every node has at
most one constraint in force. Nothing less will do: one more description in
range keeps it so exactly if it is of this kind. -/
theorem one_in_force (h : session.ReachedWith fun a => a.InRange ∧ a.Apart) :
    (∀ anchor, (session.engine.tree.activeOn anchor).length ≤ 1) ∧
      ∀ (idx : NodeIndex) (entry : Json × Nat) (config : ConstraintConfig),
        ConstraintConfig.ofDatum? entry.1.toDatum = some config →
        Addressing.InRange ⟨session.engine.tree, idx, config⟩ →
        ((∀ anchor,
            ((session.engine.tree.applyConfig idx entry).1.activeOn anchor).length ≤ 1) ↔
          Addressing.Apart ⟨session.engine.tree, idx, config⟩) := by
  have hsingle : session.engine.tree.Single := by
    induction h with
    | initial config images known =>
      intro anchor i j hi _
      obtain ⟨c, hc, -, -⟩ := Tree.mem_activeOn.1 hi
      cases hc
    | tweak hbefore hordered hall ih => exact single_tweak hbefore.reached.sound ih hordered hall
  have hsound := h.reached.sound
  refine ⟨fun anchor => Tree.sole_iff_length_le.1 (hsingle anchor), ?_⟩
  intro idx entry config hconfig hrange
  rw [← hsound.coherent.single_applyConfig_iff hsound.recorded hsingle hconfig hrange]
  exact forall_congr' fun anchor => Tree.sole_iff_length_le.symm

/-- An entry that inserts a tile of a height and a width. -/
def tileInserted : Json :=
  .object [("operation", .string "insert"),
    ("view", .object [("constraints", .object [("height", .string "10"), ("width", .string "20")]),
      ("id", .string "tile"), ("superview", .string "root"), ("type", .string "View")])]

/-- An entry that gives the tile constraints. -/
def tileConstrained (constraints : Json) : Json :=
  .object [("operation", .string "modify"),
    ("view", .object [("constraints", constraints), ("id", .string "tile")])]

/-- An entry that gives the tile another width. -/
def tileWidened : Json := tileConstrained (.object [("width", .string "30")])

/-- A description of the tile's width, for a position. -/
def tileWidth (idx : UInt64) (isActive : Bool) : Json :=
  .object [("first", .object [("attribute", .string "width"), ("item", .string "tile")]),
    ("idx", .number (.natural idx)), ("isActive", .bool isActive)]

/-- **To have every position in range is not enough.** A tile's width is
replaced by an expression. What it replaced is still addressed, and a
description switches it on again beside the expression's. -/
theorem in_range_not_enough :
    ¬∀ session : Session, session.ReachedWith Addressing.InRange →
      ∀ anchor, (session.engine.tree.activeOn anchor).length ≤ 1 := by
  intro hclaim
  let changes := [tileInserted, tileWidened, tileConstrained (.array [tileWidth 1 true])]
  have hreached : ((initial .standard .none).tweak changes).1.ReachedWith Addressing.InRange :=
    .tweak (.initial _ _ _) (by decide +kernel) (by decide +kernel)
  have hlength := hclaim _ hreached ⟨1, .width⟩
  have htwo : (((initial .standard .none).tweak changes).1.engine.tree.activeOn
      ⟨1, .width⟩).length = 2 := by
    decide +kernel
  omega

/-- A tile's width is replaced, and then descriptions reach its height, which
nothing else holds, and the width it had, which stays off. Each attribute has
one constraint in force, until the width it had is switched on. -/
theorem one_in_force_of_tile :
    let session := ((initial .standard .none).tweak [tileInserted, tileWidened,
      tileConstrained (.array [tileWidth 0 true, tileWidth 1 false])]).1
    session.ReachedWith (fun a => a.InRange ∧ a.Apart) ∧
      (∀ anchor, (session.engine.tree.activeOn anchor).length ≤ 1) ∧
      session.engine.tree.activeOn ⟨1, .width⟩ = [2] ∧
      ¬∀ anchor, ((session.engine.tree.applyConfig 1 (tileWidth 1 true, 0)).1.activeOn
        anchor).length ≤ 1 := by
  intro session
  have hreached : session.ReachedWith fun a => a.InRange ∧ a.Apart :=
    .tweak (.initial _ _ _) (by decide +kernel) (by decide +kernel)
  obtain ⟨hone, hiff⟩ := one_in_force hreached
  refine ⟨hreached, hone, by decide +kernel, ?_⟩
  have hconfig : ConstraintConfig.ofDatum? (tileWidth 1 true).toDatum =
      some { first := ⟨some "tile", some (.name "width")⟩, idx := some 1 } := by
    decide +kernel
  rw [hiff 1 (tileWidth 1 true, 0) _ hconfig (by decide +kernel)]
  decide +kernel

end Session

end LiveLayout
