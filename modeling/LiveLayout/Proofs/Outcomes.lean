import LiveLayout.Engine.Outcome
import LiveLayout.Proofs.Growth
/-!
# What a run that comes back comes to

An operation that has an outcome comes to what it does without regard to
missing nodes (`Outcome`), from the two unchecked accesses up to change
sequences (`outcome_tweak`). On a coherent tree every operation has one: the
way up ends, and what a constraint relates has an owner in the tree
(`Coherent.switch?_eq`). So an entry about nodes that are there never breaks
a run off (`applied?_eq_of_host`), and where every registered identifier stands
for a node, no change sequence does (`tweak?_eq_of_sound`).
-/

namespace LiveLayout

/-- The node an action is about: the parent of a new one, or the one that is
modified. -/
def Action.host : Action → NodeIndex
  | .insert _ parent _ _ => parent
  | .modify node _ => node

/-- **What an operation comes to if it has an outcome.** -/
structure Outcome {α : Type} (outcome : Option α) (result : α) : Prop where
  eq_of_some : ∀ r, outcome = some r → r = result

namespace Outcome

variable {α β : Type} {outcome : Option α} {result : α}

theorem some (result : α) : Outcome (some result) result :=
  ⟨fun _ h => (Option.some.inj h).symm⟩

/-- A check can only take the outcome away. -/
theorem check (p : Prop) [Decidable p] (h : Outcome outcome result) :
    Outcome (if p then outcome else none) result := by
  refine ⟨fun r hr => ?_⟩
  split at hr
  · exact h.eq_of_some r hr
  · cases hr

theorem map (h : Outcome outcome result) (f : α → β) : Outcome (outcome.map f) (f result) := by
  refine ⟨fun r hr => ?_⟩
  obtain ⟨a, ha, rfl⟩ := Option.map_eq_some_iff.1 hr
  rw [h.eq_of_some a ha]

theorem bind {next : α → Option β} {last : β} (h : Outcome outcome result)
    (hnext : Outcome (next result) last) : Outcome (outcome.bind next) last := by
  refine ⟨fun r hr => ?_⟩
  obtain ⟨a, ha, hr⟩ := Option.bind_eq_some_iff.1 hr
  rw [h.eq_of_some a ha] at hr
  exact hnext.eq_of_some r hr

/-- Where there is an outcome it is known. -/
theorem eq_some (h : Outcome outcome result) (hsome : outcome.isSome = true) :
    outcome = .some result := by
  obtain ⟨r, hr⟩ := Option.isSome_iff_exists.1 hsome
  rw [hr, h.eq_of_some r hr]

end Outcome

namespace Diagnostic

variable {σ α : Type} {step : σ → α → σ × List Diagnostic}
variable {step? : σ → α → Option (σ × List Diagnostic)} {s : σ} {l : List α}

theorem outcome_collect (h : ∀ s a, Outcome (step? s a) (step s a)) (s : σ) (l : List α) :
    Outcome (collect? step? s l) (collect step s l) := by
  induction l generalizing s with
  | nil => exact .some _
  | cons a rest ih => exact (h s a).bind ((ih (step s a).1).map _)

/-- **Steps that each keep what lets the next one come back** come back as a
whole. -/
theorem collect?_eq {P : σ → Prop}
    (h : ∀ s, P s → ∀ a ∈ l, step? s a = some (step s a) ∧ P (step s a).1) (hs : P s) :
    collect? step? s l = some (collect step s l) := by
  induction l generalizing s with
  | nil => rfl
  | cons a rest ih =>
    obtain ⟨hstep, hkept⟩ := h s hs a List.mem_cons_self
    unfold collect?
    rw [hstep, Option.bind_some, ih (fun s hs a ha => h s hs a (List.mem_cons_of_mem _ ha)) hkept]
    rfl

end Diagnostic

namespace Tree

variable {tree : Tree} {registry : Registry} {idx n parent : NodeIndex} {id : ConstraintId}
variable {c : Constraint} {modify : Bool}

/-! ## The way up -/

/-- **No parent comes after its child.** -/
def Upward (tree : Tree) : Prop := ∀ n p, tree.parent? n = some p → p ≤ n

theorem Rooted.upward (h : tree.Rooted) : tree.Upward := fun _ _ hp => Nat.le_of_lt (h.parent_lt hp)

/-- **The way up ends** exactly if the walk from parent to parent does. -/
theorem Upward.ends_iff (h : tree.Upward) :
    tree.ends n = true ↔ ∃ steps, tree.above? n steps = none := by
  unfold ends
  simp only [List.any_eq_true, Option.isNone_iff_eq_none]
  constructor
  · rintro ⟨top, hmem, htop⟩
    induction n using Nat.strongRecOn with
    | ind n ih =>
      rw [ancestors] at hmem
      rcases List.mem_cons.1 hmem with rfl | hmem
      · exact ⟨1, by rw [above?, htop]; rfl⟩
      · cases hp : tree.parent? n with
        | none =>
          rw [hp] at hmem
          cases hmem
        | some p =>
          simp only [hp] at hmem
          split at hmem
          · rename_i hlt
            obtain ⟨steps, hsteps⟩ := ih p hlt hmem
            exact ⟨steps + 1, by rw [above?, hp]; exact hsteps⟩
          · cases hmem
  · rintro ⟨steps, hsteps⟩
    induction steps generalizing n with
    | zero => cases hsteps
    | succ steps ih =>
      rw [above?] at hsteps
      cases hp : tree.parent? n with
      | none => exact ⟨n, tree.mem_ancestors_self n, hp⟩
      | some p =>
        rw [hp] at hsteps
        obtain ⟨top, hmem, htop⟩ := ih hsteps
        -- where the lineage stops short, the node is its own parent
        rcases Nat.lt_or_eq_of_le (h n p hp) with hlt | rfl
        · refine ⟨top, ?_, htop⟩
          rw [ancestors, hp]
          simp only [if_pos hlt]
          exact List.mem_cons_of_mem _ hmem
        · exact ⟨top, hmem, htop⟩

/-- Grown from its root, a tree is never gone up for good. -/
theorem Rooted.ends (h : tree.Rooted) (n : NodeIndex) : tree.ends n = true := by
  refine h.upward.ends_iff.2 ⟨(tree.ancestors n).length, ?_⟩
  rw [h.above?_eq]
  exact List.getElem?_eq_none (Nat.le_refl _)

theorem SameShape.upward {other : Tree} (h : tree.SameShape other) (hup : tree.Upward) :
    other.Upward := fun n p hp => hup n p ((h.parent n).symm.trans hp)

/-- A node that is its own parent is never left. -/
theorem above?_of_own_parent (h : tree.parent? n = some n) (steps : Nat) :
    tree.above? n steps = some n := by
  induction steps with
  | zero => rfl
  | succ steps ih =>
    rw [above?, h]
    exact ih

/-- A new node under one that is there by then keeps parents first. -/
theorem Upward.insertChild {node : Node} {position : Option Nat} (h : tree.Upward)
    (hparent : parent ≤ tree.nextIndex) : (tree.insertChild parent node position).Upward := by
  intro n p hp
  rw [parent?_insertChild] at hp
  split at hp
  · rename_i heq
    cases hp
    exact heq ▸ hparent
  · exact h n p hp

/-! ## The outcomes of the operations -/

theorem outcome_climb {α : Type} (idx : NodeIndex) (found : Option α) :
    Outcome (tree.climb? idx found) found := .check _ (.some found)

theorem outcome_searchOwner (first : Anchor) (second : Option Anchor) :
    Outcome (tree.searchOwner? first second) (tree.ownerFor? first second) := by
  unfold searchOwner?
  cases second with
  | none => exact .some _
  | some s => exact .check _ (outcome_climb s.node _)

theorem outcome_insertChild (parent : NodeIndex) (node : Node) (position : Option Nat) :
    Outcome (tree.insertChild? parent node position) (tree.insertChild parent node position) :=
  .check _ (.some _)

theorem outcome_switch (id : ConstraintId) (active : Bool) :
    Outcome (tree.switch? id active) (tree.switch id active) := by
  unfold switch? switch setActive
  cases tree.constraint? id with
  | none => exact .some _
  | some c =>
    dsimp only
    split
    · exact .some _
    · split
      · refine (outcome_searchOwner c.first c.second).bind ?_
        cases tree.ownerFor? c.first c.second with
        | none => exact .some _
        | some owner => exact .check _ (.some _)
      · exact .some _

theorem outcome_addConstraint (c : Constraint) :
    Outcome (tree.addConstraint? c) (tree.addConstraint c) := by
  unfold addConstraint? addConstraint
  dsimp only
  split
  · exact outcome_switch _ true
  · exact .some _

theorem outcome_replaceConstraint (prior : ConstraintId) (c : Constraint) :
    Outcome (tree.replaceConstraint? prior c) (tree.replaceConstraint prior c).1 := by
  refine (outcome_switch prior false).bind ?_
  rw [replaceConstraint_eq]
  split
  · exact outcome_addConstraint c
  · dsimp only
    split
    · exact outcome_switch prior true
    · exact .some _

theorem outcome_constraintFor (registry : Registry) (idx : NodeIndex) (name text : String) :
    Outcome (tree.constraintFor? registry idx name text)
      (tree.constraintFor registry idx name text) := by
  unfold constraintFor?
  dsimp only
  split
  · split
    · exact (outcome_searchOwner _ _).map fun _ => _
    · exact .some _
  · exact .some _

theorem outcome_constrain (modify : Bool) (c : Constraint) :
    Outcome (tree.constrain? modify c) (tree.constrain modify c) := by
  have hprior : Outcome (if modify then tree.searchPrior? c.first else some none)
      (if modify then tree.findOnLineage? c.first else none) := by
    cases modify with
    | false => exact .some _
    | true => exact outcome_climb _ _
  refine hprior.bind ?_
  unfold constrain
  cases (if modify then tree.findOnLineage? c.first else none) with
  | none => exact (outcome_addConstraint c).map _
  | some prior => exact (outcome_replaceConstraint prior c).map _

theorem outcome_applyExpression (registry : Registry) (idx : NodeIndex) (modify : Bool)
    (tree : Tree) (entry : String × String) :
    Outcome (applyExpression? registry idx modify tree entry)
      (applyExpression registry idx modify tree entry) := by
  refine (outcome_constraintFor registry idx entry.1 entry.2).bind ?_
  unfold applyExpression
  cases tree.constraintFor registry idx entry.1 entry.2 with
  | error cause => exact .some _
  | ok c => exact (outcome_constrain modify c).map _

theorem outcome_applyConfig (idx : NodeIndex) (tree : Tree) (entry : Json × Nat) :
    Outcome (applyConfig? idx tree entry) (applyConfig idx tree entry) := by
  unfold applyConfig? applyConfig
  dsimp only
  cases ConstraintConfig.ofDatum? entry.1.toDatum with
  | none => exact .some _
  | some config =>
    dsimp only
    cases tree.addressed? idx config with
    | some id => exact (outcome_switch id config.isActive).map _
    | none =>
      dsimp only
      cases config.toLive? tree idx with
      | none => exact .some _
      | some live => exact (outcome_addConstraint _).map _

theorem outcome_applyConstraints (registry : Registry) (idx : NodeIndex) (modify : Bool)
    (field : ConstraintsField) :
    Outcome (tree.applyConstraints? registry idx modify field)
      (tree.applyConstraints registry idx modify field) := by
  cases field with
  | expressions entries =>
    exact Diagnostic.outcome_collect (outcome_applyExpression registry idx modify) tree entries
  | indexed configs => exact Diagnostic.outcome_collect (outcome_applyConfig idx) tree _
  | unsupported value => exact .some _

/-! ## On trees in order -/

theorem Rooted.climb?_eq {α : Type} (h : tree.Rooted) (idx : NodeIndex) (found : Option α) :
    tree.climb? idx found = some found := by
  unfold climb?
  rw [h.ends, Bool.or_true, if_pos rfl]

theorem Rooted.searchOwner?_eq (h : tree.Rooted) (first : Anchor) (second : Option Anchor) :
    tree.searchOwner? first second = some (tree.ownerFor? first second) := by
  unfold searchOwner?
  cases second with
  | none => rfl
  | some s => simp only [h.ends, if_true, h.climb?_eq]

theorem Rooted.constraintFor?_eq (h : tree.Rooted) (registry : Registry) (idx : NodeIndex)
    (name text : String) :
    tree.constraintFor? registry idx name text =
      some (tree.constraintFor registry idx name text) := by
  unfold constraintFor?
  dsimp only
  split
  · split
    · rw [h.searchOwner?_eq]
      rfl
    · rfl
  · rfl

/-- **Switching a constraint comes back**: its owner is there. -/
theorem Coherent.switch?_eq (h : tree.Coherent) (id : ConstraintId) (active : Bool) :
    tree.switch? id active = some (tree.switch id active) := by
  refine (outcome_switch id active).eq_some ?_
  unfold switch?
  cases hc : tree.constraint? id with
  | none => rfl
  | some c =>
    obtain ⟨owner, howner, hlt⟩ := h.exists_ownerFor? (h.anchored id c hc)
    have hinstall : tree.install? id owner = some (tree.install id owner) := if_pos hlt
    simp only [h.searchOwner?_eq, Option.bind_some, howner, hinstall]
    split
    · rfl
    · split <;> rfl

theorem Coherent.addConstraint?_eq (h : tree.Coherent) (hc : tree.Anchored c) :
    tree.addConstraint? c = some (tree.addConstraint c) := by
  have hswitch := (h.store hc).switch?_eq tree.nextConstraint true
  unfold addConstraint?
  rw [addConstraint_eq]
  split
  · exact hswitch
  · rfl

theorem Coherent.replaceConstraint?_eq (h : tree.Coherent) (prior : ConstraintId)
    (hc : tree.Anchored c) :
    tree.replaceConstraint? prior c = some (tree.replaceConstraint prior c).1 := by
  have hoff := h.switch prior false
  have hc' : (tree.switch prior false).Anchored c := (sameShape_switch false).anchored hc
  unfold replaceConstraint?
  rw [h.switch?_eq, Option.bind_some, replaceConstraint_eq]
  split
  · exact hoff.addConstraint?_eq hc'
  · rename_i hcond
    have hin : prior < (tree.switch prior false).constraints.size := by
      rw [not_or] at hcond
      exact Nat.lt_of_not_le hcond.2
    obtain ⟨k, hk⟩ := constraint?_of_lt hin
    -- what is written over was switched off
    have hover := hoff.overwrite hc' hk (Switched.off_of_get (tree.switch_cases prior false) hk)
    dsimp only
    split
    · exact hover.switch?_eq prior true
    · rfl

theorem Coherent.constrain?_eq (h : tree.Coherent) (modify : Bool) (hc : tree.Anchored c) :
    tree.constrain? modify c = some (tree.constrain modify c) := by
  have hprior : (if modify then tree.searchPrior? c.first else some none) =
      some (if modify then tree.findOnLineage? c.first else none) := by
    cases modify with
    | false => rfl
    | true => exact h.climb?_eq _ _
  unfold constrain? Tree.constrain
  rw [hprior, Option.bind_some]
  cases (if modify then tree.findOnLineage? c.first else none) with
  | none =>
    dsimp only
    rw [h.addConstraint?_eq hc]
    rfl
  | some prior =>
    dsimp only
    rw [h.replaceConstraint?_eq prior hc]
    rfl

theorem Coherent.applyExpression?_eq (h : tree.Coherent) (hidx : idx < tree.size)
    (entry : String × String) :
    applyExpression? registry idx modify tree entry =
      some (applyExpression registry idx modify tree entry) := by
  unfold applyExpression? applyExpression
  rw [h.constraintFor?_eq, Option.bind_some]
  cases hok : tree.constraintFor registry idx entry.1 entry.2 with
  | error cause => rfl
  | ok c =>
    dsimp only
    rw [h.constrain?_eq modify (anchored_of_constraintFor h.toRooted hidx hok)]
    rfl

theorem Coherent.applyConfig?_eq (h : tree.Coherent) (entry : Json × Nat) :
    applyConfig? idx tree entry = some (applyConfig idx tree entry) := by
  unfold applyConfig? applyConfig
  dsimp only
  cases ConstraintConfig.ofDatum? entry.1.toDatum with
  | none => rfl
  | some config =>
    dsimp only
    cases tree.addressed? idx config with
    | some id =>
      dsimp only [updateConstraint?]
      rw [(h.amend (config.constant.getD .zero) config.priority).switch?_eq]
      rfl
    | none =>
      dsimp only
      cases hlive : config.toLive? tree idx with
      | none => rfl
      | some live =>
        have hanchored := anchored_of_toLive? hlive
        have hadded : tree.Anchored { live with added := true } :=
          ⟨hanchored.first, hanchored.second⟩
        dsimp only
        rw [h.addConstraint?_eq hadded]
        rfl

/-- **Constraints applied to a node that is there** come back. -/
theorem Coherent.applyConstraints?_eq (h : tree.Coherent) (hidx : idx < tree.size)
    (registry : Registry) (modify : Bool) (field : ConstraintsField) :
    tree.applyConstraints? registry idx modify field =
      some (tree.applyConstraints registry idx modify field) := by
  -- each step has an outcome on a coherent tree that has the node, and leaves one
  let Sound (t : Tree) : Prop := t.Coherent ∧ idx < t.size
  have hedits : ∀ {t t' : Tree}, Sound t → Edits registry idx t t' → Sound t' := fun ht e =>
    ⟨e.coherent ht.1 ht.2, e.sameShape.size.symm ▸ ht.2⟩
  cases field with
  | unsupported value => rfl
  | expressions entries =>
    refine Diagnostic.collect?_eq (P := Sound) (fun t ht entry _ => ?_) ⟨h, hidx⟩
    exact ⟨ht.1.applyExpression?_eq ht.2 entry, hedits ht (edits_applyExpression modify entry)⟩
  | indexed configs =>
    refine Diagnostic.collect?_eq (P := Sound) (fun t ht entry _ => ?_) ⟨h, hidx⟩
    exact ⟨ht.1.applyConfig?_eq entry, hedits ht (edits_applyConfig entry)⟩

end Tree

namespace Engine

variable {engine : Engine} {idx parent : NodeIndex}

theorem outcome_applyContent (engine : Engine) (idx : NodeIndex) (modify : Bool)
    (view : ViewChange) :
    Outcome (engine.applyContent? idx modify view) (engine.applyContent idx modify view) := by
  unfold applyContent? applyContent
  dsimp only
  cases view.constraints with
  | none => exact .some _
  | some field => exact (Tree.outcome_applyConstraints ..).map _

theorem outcome_insert (engine : Engine) (id : Identifier) (parent : NodeIndex) (type : NodeType)
    (view : ViewChange) :
    Outcome (engine.insert? id parent type view) (engine.insert id parent type view) :=
  (Tree.outcome_insertChild ..).bind ((outcome_applyContent ..).map _)

theorem outcome_modify (engine : Engine) (idx : NodeIndex) (view : ViewChange) :
    Outcome (engine.modify? idx view) (engine.modify idx view) := by
  have h := outcome_applyContent engine idx true view
  unfold modify? modify
  cases view.frame with
  | none => exact h.map _
  | some fields => exact h.map _

/-- **The content of a node that is there** comes back. -/
theorem applyContent?_eq (h : engine.tree.Coherent) (hidx : idx < engine.tree.size)
    (modify : Bool) (view : ViewChange) :
    engine.applyContent? idx modify view = some (engine.applyContent idx modify view) := by
  refine (outcome_applyContent ..).eq_some ?_
  have hstyled := edited_styled engine idx view
  have hconstraints := (hstyled.tree.coherent h hidx).applyConstraints?_eq
    (hstyled.tree.sameShape.size.symm ▸ hidx) (engine.styled idx view).registry modify
  unfold styled at hconstraints
  unfold applyContent?
  cases view.constraints with
  | none => rfl
  | some field =>
    dsimp only
    rw [hconstraints]
    rfl

/-- **Once its node is linked**, an insert comes back if the content does. -/
theorem isSome_insert? (hparent : parent ≤ engine.tree.nextIndex) (id : Identifier)
    (type : NodeType) (view : ViewChange) :
    (engine.insert? id parent type view).isSome =
      ((engine.planted id parent type view).applyContent? engine.tree.nextIndex false
        view).isSome := by
  have hlinked : engine.tree.insertChild? parent (newNode id type view)
      (view.index.map UInt64.toNat) = some (engine.planted id parent type view).tree :=
    if_pos hparent
  show Option.isSome (Option.bind (engine.tree.insertChild? parent (newNode id type view)
    (view.index.map UInt64.toNat)) _) = _
  rw [hlinked, Option.bind_some, Option.isSome_map]
  rfl

/-- **So one under a node that is there does.** -/
theorem insert?_eq (h : engine.tree.Coherent) (hparent : parent < engine.tree.size)
    (id : Identifier) (type : NodeType) (view : ViewChange) :
    engine.insert? id parent type view = some (engine.insert id parent type view) := by
  have hplanted : (engine.planted id parent type view).tree.Coherent := h.insertChild hparent rfl
  refine (outcome_insert ..).eq_some ?_
  rw [isSome_insert? (Nat.le_of_lt hparent),
    applyContent?_eq hplanted (engine.nextIndex_lt_planted id parent type view)]
  rfl

/-- **The shape an insert leaves** is that of the tree with the new node
bare. -/
theorem sameShape_insert (engine : Engine) (id : Identifier) (parent : NodeIndex)
    (type : NodeType) (view : ViewChange) :
    (engine.planted id parent type view).tree.SameShape
      (engine.insert id parent type view).1.tree := by
  rw [insert_eq]
  exact (edited_filled engine id parent type view).tree.sameShape.trans
    Tree.sameShape_captureSnapshot

/-- **Only under a node that is there by then** does an insert come back. -/
theorem le_nextIndex_of_isSome_insert? {id : Identifier} {type : NodeType} {view : ViewChange}
    (h : (engine.insert? id parent type view).isSome = true) : parent ≤ engine.tree.nextIndex := by
  by_contra hparent
  have hbroken : engine.insert? id parent type view = none := by
    unfold insert? Tree.insertChild?
    simp only [if_neg hparent, Option.bind_none]
  rw [hbroken] at h
  cases h

/-- **And so does a modify of one.** -/
theorem modify?_eq (h : engine.tree.Coherent) (hidx : idx < engine.tree.size)
    (view : ViewChange) : engine.modify? idx view = some (engine.modify idx view) := by
  refine (outcome_modify ..).eq_some ?_
  unfold modify?
  rw [applyContent?_eq h hidx]
  rfl

end Engine

namespace Session

variable {session : Session} {entry : Json} {changes : List Json} {done : Session × Report}

theorem outcome_perform (session : Session) (action : Action) :
    Outcome (session.perform? action) (session.perform action) := by
  cases action with
  | insert id parent type view => exact (Engine.outcome_insert ..).map _
  | modify idx view => exact (Engine.outcome_modify ..).map _

theorem outcome_apply (session : Session) (entry : Json) :
    Outcome (session.applied? entry) (session.apply entry) := by
  unfold applied? apply
  cases session.resolve entry with
  | error diagnostic => exact .some _
  | ok action => exact (outcome_perform session action).map _

/-- An entry that is not refused comes back if what it does does. -/
theorem isSome_applied? {action : Action} (hr : session.resolve entry = .ok action) :
    (session.applied? entry).isSome = (session.perform? action).isSome := by
  unfold applied?
  rw [hr]
  exact Option.isSome_map

/-- **An entry about a node that is there comes back**, and so does one that
is refused. -/
theorem applied?_eq_of_host (h : session.engine.tree.Coherent)
    (hhost : ∀ action, session.resolve entry = .ok action →
      action.host < session.engine.tree.size) :
    session.applied? entry = some (session.apply entry) := by
  refine (outcome_apply session entry).eq_some ?_
  cases hr : session.resolve entry with
  | error diagnostic =>
    unfold applied?
    rw [hr]
    rfl
  | ok action =>
    rw [isSome_applied? hr]
    cases action with
    | insert id parent type view =>
      have hparent : parent < session.engine.tree.size := hhost _ hr
      rw [perform?, Engine.insert?_eq h hparent]
      rfl
    | modify idx view =>
      have hidx : idx < session.engine.tree.size := hhost _ hr
      rw [perform?, Engine.modify?_eq h hidx]
      rfl

/-- **A change sequence that comes back** comes to what it does without
regard to missing nodes. -/
theorem outcome_tweak (session : Session) (changes : List Json) :
    Outcome (session.tweak? changes) (session.tweak changes) := by
  induction changes generalizing session with
  | nil => exact .some _
  | cons entry rest ih =>
    exact (outcome_apply session entry).bind ((ih (session.apply entry).1).map _)

/-- It comes back if its first entry does, and then the others. -/
theorem isSome_tweak?_cons :
    (session.tweak? (entry :: changes)).isSome = true ↔
      (session.applied? entry).isSome = true ∧
        ((session.apply entry).1.tweak? changes).isSome = true := by
  rw [tweak?]
  cases hfirst : session.applied? entry with
  | none => simp only [Option.bind_none, Option.isSome_none, Bool.false_eq_true, false_and]
  | some first =>
    rw [← (outcome_apply session entry).eq_of_some first hfirst]
    simp only [Option.bind_some, Option.isSome_map, Option.isSome_some, true_and]

/-- **Where identifiers stand for nodes every change sequence comes back.** -/
theorem tweak?_eq_of_sound (h : session.engine.Sound) (changes : List Json) :
    session.tweak? changes = some (session.tweak changes) := by
  induction changes generalizing session with
  | nil => rfl
  | cons entry rest ih =>
    have hfirst : session.applied? entry = some (session.apply entry) := by
      refine applied?_eq_of_host h.coherent fun action hr => ?_
      cases action with
      | insert id parent type view => exact h.within _ _ (resolve_insert hr).1
      | modify idx view =>
        obtain ⟨⟨id, -, hid⟩, -⟩ := resolve_modify hr
        exact h.within id idx hid
    rw [tweak?, hfirst, Option.bind_some, ih (sound_apply h entry)]
    rfl

/-- **No entry that comes back puts a parent after its child.** -/
theorem upward_apply (h : session.engine.tree.Upward)
    (hsome : (session.applied? entry).isSome = true) :
    (session.apply entry).1.engine.tree.Upward := by
  have hcases := session.apply_cases entry
  generalize (session.apply entry).1.engine = after at hcases ⊢
  cases hcases with
  | refused => exact h
  | modified => exact (Engine.edited_modify ..).tree.sameShape.upward h
  | @inserted id parent type view hr =>
    rw [isSome_applied? hr, perform?, Option.isSome_map] at hsome
    have hplanted : (session.engine.planted id parent type view).tree.Upward :=
      h.insertChild (Engine.le_nextIndex_of_isSome_insert? hsome)
    exact (session.engine.sameShape_insert ..).upward hplanted

/-- **Nor does a change sequence that does.** -/
theorem upward_tweak (h : session.engine.tree.Upward)
    (hsome : (session.tweak? changes).isSome = true) :
    (session.tweak changes).1.engine.tree.Upward := by
  induction changes generalizing session with
  | nil => exact h
  | cons entry rest ih =>
    obtain ⟨hfirst, hrest⟩ := isSome_tweak?_cons.1 hsome
    exact ih (upward_apply h hfirst) hrest

end Session

end LiveLayout
