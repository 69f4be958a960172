import LiveLayout.Proofs.Outcomes
/-!
# Identifiers that stand for no node

A host may replace the registry, and nothing keeps it from registering
positions where there is no node. An entry about such a position is not
refused. As long as none puts a node under one, or ties one to itself, the
tree stays grown from its root and every constraint has a node to be
installed on, also while entries are applied (`Hosted.coherent`): what an
expression is checked for, that its anchors have a common ancestor, holds a
reference to no node back. The entries that do are told apart by what they
resolve to (`Session.Orphans`, `Session.Ties`). One of the second kind always
breaks the run off (`isSome_applied?_of_missing`), and so does one of the first,
unless its node becomes its own parent; then the tree is never again grown
from its root (`rooted_tweak_iff`).
-/

namespace LiveLayout

namespace Diagnostic

variable {σ α : Type} {step : σ → α → σ × List Diagnostic}
variable {step? : σ → α → Option (σ × List Diagnostic)} {s : σ} {l : List α}

/-- Steps that each leave the state as it is, and say nothing. -/
theorem collect_idle (h : ∀ a, step s a = (s, [])) (l : List α) : collect step s l = (s, []) := by
  induction l with
  | nil => rfl
  | cons a rest ih => simp only [collect, h a, ih, List.append_nil]

/-- Steps that each leave the state as it is, whatever they say. -/
theorem collect_of_kept (h : ∀ a ∈ l, (step s a).1 = s ∧ step? s a = some (step s a)) :
    (collect step s l).1 = s ∧ collect? step? s l = some (collect step s l) := by
  constructor
  · induction l with
    | nil => rfl
    | cons a rest ih =>
      show (collect step (step s a).1 rest).1 = s
      rw [(h a List.mem_cons_self).1]
      exact ih fun b hb => h b (List.mem_cons_of_mem _ hb)
  · refine collect?_eq (P := fun t => t = s) (fun t ht a ha => ?_) rfl
    subst ht
    exact ⟨(h a ha).2, (h a ha).1⟩

end Diagnostic

namespace Tree

variable {tree grown : Tree} {registry : Registry} {idx n parent : NodeIndex} {c : Constraint}
variable {name text : String}

/-- **Every node is below the root, and every constraint has a node to be
installed on.** -/
structure Housed (tree : Tree) : Prop where
  below : ∀ n, n < tree.size → tree.Ancestor Tree.root n
  owner : ∀ id c, tree.constraint? id = some c →
    ∃ owner, tree.ownerFor? c.first c.second = some owner ∧ owner < tree.size

theorem Coherent.housed (h : tree.Coherent) : tree.Housed where
  below _ hn := h.ancestor_root hn
  owner id c hc := h.exists_ownerFor? (h.anchored id c hc)

/-! ## Under a node that is missing -/

/-- A tree is grown from its root only if it was so with fewer nodes. -/
theorem Grows.rooted (g : tree.Grows grown) (h : grown.Rooted) (hsize : 0 < tree.size) :
    tree.Rooted where
  nonempty := hsize
  root := by
    rw [← g.parent Tree.root hsize]
    exact h.root
  parent idx hidx hne := by
    rw [← g.parent idx hidx]
    exact h.parent idx (Nat.lt_of_lt_of_le hidx g.size) hne

/-- **A node that is its own parent** is below no other. -/
theorem not_ancestor_of_own_parent (h : tree.parent? n = some n) (hne : idx ≠ n) :
    ¬tree.Ancestor idx n := by
  intro ha
  induction ha with
  | self => exact hne rfl
  | up hp _ ih =>
    cases hp.symm.trans h
    exact ih h hne

/-! ## About a node that is missing -/

/-- Nothing is at a position past the nodes. -/
theorem node?_of_size_le (h : tree.size ≤ idx) : tree.node? idx = none :=
  Array.getElem?_eq_none h

/-- **An expression for a node that is missing** can only tie it to itself:
the missing node is the owner. -/
theorem Rooted.ownerFor?_of_missing (h : tree.Rooted) (hidx : tree.size ≤ idx)
    (hok : tree.constraintFor registry idx name text = .ok c) :
    tree.ownerFor? c.first c.second = some idx := by
  obtain ⟨owner, howner⟩ := exists_ownerFor?_of_constraintFor hok
  obtain ⟨expression, own, second, -, -, -, rfl⟩ := constraintFor_ok hok
  cases second with
  | none =>
    simp only [ownerFor?, node?_of_size_le hidx] at howner
    cases howner
  | some s =>
    -- nothing is above the missing node but itself
    have hmem : owner ∈ tree.ancestors idx := h.mem_ancestors.2 (h.nearestCommon howner).left
    rw [ancestors_of_missing hidx, List.mem_singleton] at hmem
    exact howner.trans (congrArg some hmem)

/-- No description addresses a constraint through it, or asks for one. -/
theorem addressed?_of_missing (hidx : tree.size ≤ idx) (config : ConstraintConfig) :
    tree.addressed? idx config = none ∧ config.toLive? tree idx = none := by
  have hnode := node?_of_size_le hidx
  have hfirst : tree.anchorOf? idx config.first = none := by
    unfold anchorOf? itemOf?
    simp only [hnode, Option.bind_none]
    cases config.first.item <;> rfl
  constructor
  · unfold addressed? snapshot
    rw [hnode]
    cases config.idx <;> rfl
  · unfold ConstraintConfig.toLive?
    rw [hfirst]

/-- **So no description changes anything** through it, or breaks the run
off. -/
theorem applyConfig_of_missing (hidx : tree.size ≤ idx) (entry : Json × Nat) :
    (tree.applyConfig idx entry).1 = tree ∧
      applyConfig? idx tree entry = some (applyConfig idx tree entry) := by
  unfold applyConfig applyConfig?
  cases ConstraintConfig.ofDatum? entry.1.toDatum with
  | none => exact ⟨rfl, rfl⟩
  | some config =>
    obtain ⟨haddressed, hlive⟩ := addressed?_of_missing hidx config
    simp only [haddressed, hlive, and_self]

/-- Nor does an expression that is not accepted. -/
theorem Rooted.applyExpression_of_refused (h : tree.Rooted) {entry : String × String}
    (hnone : tree.accept? registry idx entry = none) (modify : Bool) :
    (tree.applyExpression registry idx modify entry).1 = tree ∧
      applyExpression? registry idx modify tree entry =
        some (applyExpression registry idx modify tree entry) := by
  rcases tree.applyExpression_cases registry idx modify entry with
    ⟨a, haccept, -, -, -⟩ | ⟨d, -, hrefusal, happly⟩
  · rw [hnone] at haccept
    cases haccept
  · refine ⟨by rw [happly], (outcome_applyExpression ..).eq_some ?_⟩
    unfold refusal? at hrefusal
    unfold applyExpression?
    rw [h.constraintFor?_eq, Option.bind_some]
    cases hasked : tree.constraintFor registry idx entry.1 entry.2 with
    | ok c =>
      rw [hasked] at hrefusal
      cases hrefusal
    | error cause => rfl

/-- **Constraints of a missing node**, if none of their expressions is
accepted, come to nothing. -/
theorem Rooted.applyConstraints_of_missing (h : tree.Rooted) (hidx : tree.size ≤ idx)
    (registry : Registry) (modify : Bool) {field : ConstraintsField}
    (hnone : ∀ entries, field = .expressions entries →
      tree.acceptances registry idx entries = []) :
    (tree.applyConstraints registry idx modify field).1 = tree ∧
      tree.applyConstraints? registry idx modify field =
        some (tree.applyConstraints registry idx modify field) := by
  cases field with
  | unsupported value => exact ⟨rfl, rfl⟩
  | expressions entries =>
    have hrefused : ∀ entry ∈ entries, tree.accept? registry idx entry = none :=
      List.filterMap_eq_nil_iff.1 (hnone entries rfl)
    refine Diagnostic.collect_of_kept (fun entry hentry => ?_)
    exact h.applyExpression_of_refused (hrefused entry hentry) modify
  | indexed configs =>
    exact Diagnostic.collect_of_kept fun entry _ => applyConfig_of_missing hidx entry

/-! ## A missing node tied to itself -/

/-- **A constraint whose owner is missing** breaks the run off. -/
theorem Rooted.addConstraint?_of_missing (h : tree.Rooted) (hon : c.active = true)
    (howner : tree.ownerFor? c.first c.second = some n) (hmissing : tree.size ≤ n) :
    tree.addConstraint? c = none := by
  have hrooted : (tree.store c).Rooted := sameShape_store.rooted h
  have hstored : (tree.store c).constraint? tree.nextConstraint = some c.idle := by
    rw [constraint?_store, if_pos rfl]
  have hsame : (tree.store c).ownerFor? c.idle.first c.idle.second = some n := by
    rw [sameShape_store.ownerFor?_eq]
    exact howner
  have hoff : ¬c.idle.active = true := Bool.false_ne_true
  have hinstall : (tree.store c).install? tree.nextConstraint n = none :=
    if_neg (Nat.not_lt_of_le hmissing)
  have hswitch : (tree.store c).switch? tree.nextConstraint true = none := by
    unfold switch?
    rw [hstored]
    simp only [if_neg hoff, if_true, hrooted.searchOwner?_eq, Option.bind_some, hsame, hinstall]
  unfold addConstraint?
  rw [if_pos hon]
  exact hswitch

/-- Nothing is installed on a missing node that could be replaced. -/
theorem Rooted.constrain?_of_missing (h : tree.Rooted) (hon : c.active = true)
    (howner : tree.ownerFor? c.first c.second = some c.first.node)
    (hmissing : tree.size ≤ c.first.node) (modify : Bool) : tree.constrain? modify c = none := by
  have hfree : tree.findOnLineage? c.first = none := by
    unfold findOnLineage? findInstalled? installed
    rw [ancestors_of_missing hmissing]
    simp only [List.findSome?_cons, node?_of_size_le hmissing]
    rfl
  have hprior : (if modify then tree.searchPrior? c.first else some none) = some none := by
    cases modify with
    | false => rfl
    | true => exact (h.climb?_eq _ _).trans (congrArg some hfree)
  unfold constrain?
  rw [hprior, Option.bind_some, h.addConstraint?_of_missing hon howner hmissing]
  rfl

/-- **The first expression that is accepted for a missing node** breaks the
run off. -/
theorem Rooted.collect?_of_missing (h : tree.Rooted) (hidx : tree.size ≤ idx)
    {entries : List (String × String)} (hsome : tree.acceptances registry idx entries ≠ [])
    (modify : Bool) :
    Diagnostic.collect? (applyExpression? registry idx modify) tree entries = none := by
  induction entries with
  | nil => exact absurd rfl hsome
  | cons entry rest ih =>
    unfold Diagnostic.collect?
    cases haccept : tree.accept? registry idx entry with
    | some a =>
      have hnode := (accept?_eq_some haccept).1
      have hok := constraintFor_of_accept? haccept
      have howner := h.ownerFor?_of_missing hidx hok
      have hbroken : tree.constrain? modify a.constraint = none :=
        h.constrain?_of_missing rfl (howner.trans (congrArg some hnode.symm))
          (Nat.le_trans hidx (Nat.le_of_eq hnode.symm)) modify
      have hstep : applyExpression? registry idx modify tree entry = none := by
        unfold applyExpression?
        rw [h.constraintFor?_eq, hok]
        simp only [Option.bind_some, hbroken, Option.map_none]
      rw [hstep]
      rfl
    | none =>
      -- refused, it leaves the tree as it is, and the first one accepted is yet to come
      have hrest : tree.acceptances registry idx rest ≠ [] := by
        unfold acceptances at hsome ⊢
        rw [List.filterMap_cons_none haccept] at hsome
        exact hsome
      obtain ⟨hkept, hstep⟩ := h.applyExpression_of_refused haccept modify
      rw [hstep, Option.bind_some, hkept, ih hrest]
      rfl

end Tree

namespace Engine

variable {engine : Engine} {idx parent : NodeIndex} {view : ViewChange}

/-- **Expressions that tie a missing node to itself**: some are accepted for
it. -/
def Ties (engine : Engine) (idx : NodeIndex) (view : ViewChange) : Prop :=
  ∃ entries, view.constraints = some (.expressions entries) ∧
    engine.tree.acceptances engine.registry idx entries ≠ []

/-- **A missing node has no look** to be changed. -/
theorem look_of_missing (hidx : engine.tree.size ≤ idx) (bag : List (String × Json)) :
    engine.applyProperties idx bag = (engine, []) ∧ engine.applyLayer idx bag = (engine, []) := by
  have hnode := Tree.node?_of_size_le hidx
  constructor
  · refine Diagnostic.collect_idle (fun property => ?_) bag
    unfold applyProperty
    rw [hnode]
  · refine Diagnostic.collect_idle (fun property => ?_) bag
    unfold applyLayerKey
    rw [hnode]

/-- **Content of a missing node** that ties nothing comes to nothing. -/
theorem applyContent_of_missing (h : engine.tree.Rooted) (hidx : engine.tree.size ≤ idx)
    (hfree : ¬engine.Ties idx view) (modify : Bool) :
    (engine.applyContent idx modify view).1 = engine ∧
      engine.applyContent? idx modify view = some (engine.applyContent idx modify view) := by
  unfold applyContent applyContent?
  simp only [(look_of_missing hidx _).1, (look_of_missing hidx _).2]
  cases hfield : view.constraints with
  | none => exact ⟨rfl, rfl⟩
  | some field =>
    have hnone : ∀ entries, field = .expressions entries →
        engine.tree.acceptances engine.registry idx entries = [] := by
      intro entries hentries
      by_contra hne
      exact hfree ⟨entries, hfield.trans (congrArg some hentries), hne⟩
    obtain ⟨hkept, houtcome⟩ := h.applyConstraints_of_missing hidx engine.registry modify hnone
    simp only [hkept, houtcome, Option.map_some, and_self]

/-- **Content that ties it to itself** breaks the run off. -/
theorem applyContent?_of_ties (h : engine.tree.Rooted) (hidx : engine.tree.size ≤ idx)
    (hties : engine.Ties idx view) (modify : Bool) :
    engine.applyContent? idx modify view = none := by
  obtain ⟨entries, hfield, hsome⟩ := hties
  have hbroken : engine.tree.applyConstraints? engine.registry idx modify
      (.expressions entries) = none := h.collect?_of_missing hidx hsome modify
  unfold applyContent?
  simp only [(look_of_missing hidx _).1, (look_of_missing hidx _).2, hfield, hbroken,
    Option.map_none]

/-- **A modify of a missing node** comes to its content: there is no frame to
be changed. -/
theorem modify_of_missing (hidx : engine.tree.size ≤ idx) (view : ViewChange) :
    engine.modify idx view = engine.applyContent idx true view := by
  unfold modify
  cases view.frame with
  | none => rfl
  | some fields =>
    have hshape := (edited_applyContent engine idx true view).tree.sameShape
    have hmissing : (engine.applyContent idx true view).1.tree.node? idx = none :=
      Tree.node?_of_size_le (Nat.le_trans (Nat.le_of_eq hshape.size) hidx)
    unfold Tree.applyFrame
    simp only [hmissing, List.append_nil]

/-- A modify without constraints has nothing to say of a missing node. -/
theorem snd_modify_of_missing (hidx : engine.tree.size ≤ idx) (hnone : view.constraints = none) :
    (engine.modify idx view).2 = [] := by
  rw [modify_of_missing hidx]
  unfold applyContent
  simp only [(look_of_missing hidx _).1, (look_of_missing hidx _).2, hnone, List.append_nil]

/-- **An insert keeps the tree coherent** if there is a node to put the new
one under, wherever the other identifiers lead. -/
theorem coherent_insert (h : engine.tree.Coherent) (hparent : parent < engine.tree.size)
    (id : Identifier) (type : NodeType) (view : ViewChange) :
    (engine.insert id parent type view).1.tree.Coherent := by
  have hplanted : (engine.planted id parent type view).tree.Coherent :=
    h.insertChild hparent rfl
  have hfilled : (engine.filled id parent type view).tree.Coherent :=
    (edited_filled engine id parent type view).tree.coherent hplanted
      (engine.nextIndex_lt_planted id parent type view)
  rw [insert_eq]
  exact hfilled.captureSnapshot _

end Engine

namespace Session

variable {session : Session} {entry : Json} {idx parent : NodeIndex} {view : ViewChange}

/-! ## Entries about a node that is missing -/

/-- **A stale entry**: it is not refused, but there is no node at the
position it is about. -/
def Stale (session : Session) (entry : Json) : Prop :=
  ∃ action, session.resolve entry = .ok action ∧ session.engine.tree.size ≤ action.host

/-- An entry that puts a node under one that is missing. -/
def Orphans (session : Session) (entry : Json) : Prop :=
  ∃ id parent type view, session.resolve entry = .ok (.insert id parent type view) ∧
    session.engine.tree.size ≤ parent

/-- An entry that ties a missing node to itself. -/
def Ties (session : Session) (entry : Json) : Prop :=
  ∃ idx view, session.resolve entry = .ok (.modify idx view) ∧
    session.engine.tree.size ≤ idx ∧ session.engine.Ties idx view

/-- **A session reached by change sequences and replacements of the
registry**, by any other, in which no entry that was met put a node under a
missing one or tied a missing one to itself. -/
inductive Hosted : Session → Prop
  | initial (config : EngineConfig) (images : ImageLoader) (known : KnownIdentifiers) :
      Hosted ⟨.initial config images, known⟩
  | tweak {session : Session} (changes : List Json) : Hosted session →
      (∀ m ∈ session.met changes, ¬m.1.Orphans m.2 ∧ ¬m.1.Ties m.2) →
      Hosted (session.tweak changes).1
  | reindexed {session : Session} (entries : List (Identifier × NodeIndex)) : Hosted session →
      Hosted (session.replaceRegistry entries)

/-- **A tree an accepted entry passes through**: what is there once the new
node is, or the node is found, and after any edits about it. -/
inductive Passes (session : Session) (entry : Json) : Tree → Prop
  | insert {id : Identifier} {parent : NodeIndex} {type : NodeType} {view : ViewChange}
      {between : Tree} : session.resolve entry = .ok (.insert id parent type view) →
      Tree.Edits session.engine.registry session.engine.tree.nextIndex
        (session.engine.planted id parent type view).tree between →
      Passes session entry between
  | modify {idx : NodeIndex} {view : ViewChange} {between : Tree} :
      session.resolve entry = .ok (.modify idx view) →
      Tree.Edits session.engine.registry idx session.engine.tree between →
      Passes session entry between

/-- **A modify of a missing node** comes back exactly if it does not tie the
node to itself. -/
theorem isSome_applied?_of_missing (h : session.engine.tree.Rooted)
    (hr : session.resolve entry = .ok (.modify idx view))
    (hmissing : session.engine.tree.size ≤ idx) :
    (session.applied? entry).isSome = true ↔ ¬session.Ties entry := by
  have hties : session.Ties entry ↔ session.engine.Ties idx view := by
    refine ⟨?_, fun hties => ⟨idx, view, hr, hmissing, hties⟩⟩
    rintro ⟨idx', view', hr', -, hties⟩
    cases hr.symm.trans hr'
    exact hties
  rw [isSome_applied? hr, perform?, Option.isSome_map, Engine.modify?, Option.isSome_map, hties]
  constructor
  · intro hsome hties
    rw [Engine.applyContent?_of_ties h hmissing hties] at hsome
    cases hsome
  · intro hfree
    rw [(Engine.applyContent_of_missing h hmissing hfree true).2]
    rfl

/-- **A stale modify that ties nothing changes nothing**, and counts as
applied. -/
theorem apply_of_stale (h : session.engine.tree.Rooted) (hstale : session.Stale entry)
    (horphans : ¬session.Orphans entry) (hties : ¬session.Ties entry) :
    (session.apply entry).1 = session ∧ (session.apply entry).2.applied = 1 := by
  obtain ⟨action, hr, hmissing⟩ := hstale
  cases action with
  | insert id parent type view => exact absurd ⟨id, parent, type, view, hr, hmissing⟩ horphans
  | modify idx view =>
    have hidx : session.engine.tree.size ≤ idx := hmissing
    have hfree : ¬session.engine.Ties idx view := fun hties' =>
      hties ⟨idx, view, hr, hidx, hties'⟩
    have hsame : (session.engine.modify idx view).1 = session.engine := by
      rw [Engine.modify_of_missing hidx]
      exact (Engine.applyContent_of_missing h hidx hfree true).1
    simp only [apply, hr, perform, hsame, and_self]

/-- **An entry of neither kind keeps the tree coherent.** -/
theorem coherent_apply (h : session.engine.tree.Coherent) (horphans : ¬session.Orphans entry)
    (hties : ¬session.Ties entry) : (session.apply entry).1.engine.tree.Coherent := by
  by_cases hstale : session.Stale entry
  · rw [(apply_of_stale h.toRooted hstale horphans hties).1]
    exact h
  · have hcases := session.apply_cases entry
    generalize (session.apply entry).1.engine = after at hcases ⊢
    cases hcases with
    | refused => exact h
    | inserted hr =>
      exact Engine.coherent_insert h (Nat.lt_of_not_le fun hle => hstale ⟨_, hr, hle⟩) _ _ _
    | modified hr =>
      exact (Engine.edited_modify ..).tree.coherent h
        (Nat.lt_of_not_le fun hle => hstale ⟨_, hr, hle⟩)

theorem Hosted.coherent (h : session.Hosted) : session.engine.tree.Coherent := by
  induction h with
  | initial config images known => exact Tree.coherent_initial
  | reindexed entries _ ih => exact ih
  | @tweak session changes _ hmet ih =>
    clear * - hmet ih
    induction changes generalizing session with
    | nil => exact ih
    | cons entry rest hrest =>
      obtain ⟨horphans, hties⟩ := hmet (session, entry) (.head _)
      exact hrest (fun m hm => hmet m (.tail _ hm)) (coherent_apply ih horphans hties)

/-- The sessions that such entries meet are all of this kind. -/
theorem Hosted.of_mem_met (h : session.Hosted) {changes : List Json}
    (hmet : ∀ m ∈ session.met changes, ¬m.1.Orphans m.2 ∧ ¬m.1.Ties m.2) :
    ∀ m ∈ session.met changes, m.1.Hosted := by
  induction changes generalizing session with
  | nil => exact fun m hm => nomatch hm
  | cons entry rest ih =>
    have hafter : (session.apply entry).1.Hosted := by
      refine .tweak [entry] h fun m hm => ?_
      obtain rfl : m = (session, entry) := List.mem_singleton.1 hm
      exact hmet _ (.head _)
    intro m hm
    rcases List.mem_cons.1 hm with rfl | hm
    · exact h
    · exact ih hafter (fun m hm => hmet m (.tail _ hm)) m hm

/-- **What an entry about a node that is there passes through** is in
order. -/
theorem Hosted.housed_of_passes (h : session.Hosted) (hstale : ¬session.Stale entry)
    {between : Tree} (hpasses : session.Passes entry between) : between.Housed := by
  cases hpasses with
  | @insert id parent type view _ hr hedits =>
    have hparent : parent < session.engine.tree.size :=
      Nat.lt_of_not_le fun hle => hstale ⟨_, hr, hle⟩
    have hplanted : (session.engine.planted id parent type view).tree.Coherent :=
      h.coherent.insertChild hparent rfl
    exact (hedits.coherent hplanted (session.engine.nextIndex_lt_planted id parent type view)).housed
  | modify hr hedits =>
    exact (hedits.coherent h.coherent (Nat.lt_of_not_le fun hle => hstale ⟨_, hr, hle⟩)).housed

/-! ## Whether the tree is still grown from its root -/

/-- **One entry leaves the tree grown from its root** exactly if it was and
the entry does not put a node under a missing one. -/
theorem rooted_apply_iff (hsize : 0 < session.engine.tree.size) :
    (session.apply entry).1.engine.tree.Rooted ↔
      session.engine.tree.Rooted ∧ ¬session.Orphans entry := by
  have hcases := session.apply_cases entry
  generalize (session.apply entry).1.engine = after at hcases ⊢
  cases hcases with
  | refused hr =>
    refine (and_iff_left ?_).symm
    rintro ⟨_, _, _, _, hr', -⟩
    cases hr.symm.trans hr'
  | @modified idx view hr =>
    have hshape := (Engine.edited_modify session.engine idx view).tree.sameShape
    refine Iff.trans ⟨hshape.symm.rooted, hshape.rooted⟩ (and_iff_left ?_).symm
    rintro ⟨_, _, _, _, hr', -⟩
    cases hr.symm.trans hr'
  | @inserted id parent type view hr =>
    have hshape := session.engine.sameShape_insert id parent type view
    have hgrows : session.engine.tree.Grows (session.engine.planted id parent type view).tree :=
      Tree.grows_insertChild
    refine Iff.trans ⟨hshape.symm.rooted, hshape.rooted⟩ ⟨fun h => ⟨hgrows.rooted h hsize, ?_⟩, ?_⟩
    · rintro ⟨_, _, _, _, hr', hle⟩
      cases hr.symm.trans hr'
      have hup : (session.engine.planted id parent type view).tree.parent?
          session.engine.tree.size = some parent :=
        (Tree.parent?_insertChild _).trans (if_pos rfl)
      exact Nat.not_le_of_lt (h.parent_lt hup) hle
    · rintro ⟨h, horphans⟩
      exact h.insertChild (Nat.lt_of_not_le fun hle => horphans ⟨id, parent, type, view, hr, hle⟩)

/-- No entry takes nodes away. -/
theorem le_size_apply (session : Session) (entry : Json) :
    session.engine.tree.size ≤ (session.apply entry).1.engine.tree.size := by
  have hcases := session.apply_cases entry
  generalize (session.apply entry).1.engine = after at hcases ⊢
  cases hcases with
  | refused => exact Nat.le_refl _
  | modified => exact Nat.le_of_eq (Engine.edited_modify ..).tree.sameShape.size.symm
  | inserted =>
    rw [(session.engine.sameShape_insert ..).size]
    exact Tree.grows_insertChild.size

/-- **A change sequence leaves the tree grown from its root** exactly if it
was and no entry that is met puts a node under a missing one. -/
theorem rooted_tweak_iff (hsize : 0 < session.engine.tree.size) (changes : List Json) :
    (session.tweak changes).1.engine.tree.Rooted ↔
      session.engine.tree.Rooted ∧ ∀ m ∈ session.met changes, ¬m.1.Orphans m.2 := by
  induction changes generalizing session with
  | nil => exact (and_iff_left fun m hm => nomatch hm).symm
  | cons entry rest ih =>
    have hafter := Nat.lt_of_lt_of_le hsize (session.le_size_apply entry)
    show ((session.apply entry).1.tweak rest).1.engine.tree.Rooted ↔ _
    rw [ih hafter, rooted_apply_iff hsize, met, List.forall_mem_cons, and_assoc]

/-! ## Whether the run comes back -/

/-- **An entry of neither kind comes back.** -/
theorem applied?_eq (h : session.engine.tree.Coherent) (horphans : ¬session.Orphans entry)
    (hties : ¬session.Ties entry) : session.applied? entry = some (session.apply entry) := by
  by_cases hstale : session.Stale entry
  · obtain ⟨action, hr, hmissing⟩ := hstale
    cases action with
    | insert id parent type view => exact absurd ⟨id, parent, type, view, hr, hmissing⟩ horphans
    | modify idx view =>
      refine (outcome_apply session entry).eq_some ?_
      exact (isSome_applied?_of_missing h.toRooted hr hmissing).2 hties
  · exact applied?_eq_of_host h fun action hr =>
      Nat.lt_of_not_le fun hle => hstale ⟨action, hr, hle⟩

/-- **So does a change sequence** in which no entry that is met is of either
kind. -/
theorem isSome_tweak? (h : session.engine.tree.Coherent) {changes : List Json}
    (hmet : ∀ m ∈ session.met changes, ¬m.1.Orphans m.2 ∧ ¬m.1.Ties m.2) :
    (session.tweak? changes).isSome = true := by
  induction changes generalizing session with
  | nil => rfl
  | cons entry rest ih =>
    obtain ⟨horphans, hties⟩ := hmet (session, entry) (.head _)
    refine isSome_tweak?_cons.2 ⟨?_, ?_⟩
    · rw [applied?_eq h horphans hties]
      rfl
    · exact ih (coherent_apply h horphans hties) fun m hm => hmet m (.tail _ hm)

/-- **An entry that ties a missing node to itself is never passed** as long
as the tree is grown from its root. -/
theorem not_ties_of_isSome_tweak? (h : session.engine.tree.Rooted) {changes : List Json}
    (horphans : ∀ m ∈ session.met changes, ¬m.1.Orphans m.2)
    (hsome : (session.tweak? changes).isSome = true) :
    ∀ m ∈ session.met changes, ¬m.1.Ties m.2 := by
  induction changes generalizing session with
  | nil => exact fun m hm => nomatch hm
  | cons entry rest ih =>
    obtain ⟨hfirst, hrest⟩ := isSome_tweak?_cons.1 hsome
    have hafter : (session.apply entry).1.engine.tree.Rooted :=
      (rooted_apply_iff h.nonempty).2 ⟨h, horphans (session, entry) (.head _)⟩
    intro m hm
    rcases List.mem_cons.1 hm with rfl | hm
    · rintro ⟨idx, view, hr, hmissing, hties⟩
      exact (isSome_applied?_of_missing h hr hmissing).1 hfirst ⟨idx, view, hr, hmissing, hties⟩
    · exact ih hafter (fun m hm => horphans m (.tail _ hm)) hrest m hm

/-! ## What comes of entries about missing nodes -/

/-- One entry alone comes back if it does. -/
theorem isSome_tweak?_single :
    (session.tweak? [entry]).isSome = true ↔ (session.applied? entry).isSome = true :=
  isSome_tweak?_cons.trans (and_iff_left rfl)

/-- **An insert under a missing node** breaks the run off, unless the node
will be the new one. If it comes back, the new node is registered and is its
own parent. -/
theorem insert_of_missing {id : Identifier} {type : NodeType}
    (hsize : 0 < session.engine.tree.size)
    (hr : session.resolve entry = .ok (.insert id parent type view))
    (hmissing : session.engine.tree.size ≤ parent) :
    let new := session.engine.tree.nextIndex
    (parent ≠ new → session.tweak? [entry] = none) ∧
      (parent = new → view.constraints = none → (session.tweak? [entry]).isSome = true) ∧
      ∀ done, session.tweak? [entry] = some done →
        done.2.applied = 1 ∧ done.1.engine.registry.lookup? id = some new ∧
          (∀ steps, done.1.engine.tree.above? new steps = some new) ∧
          ¬done.1.engine.tree.Ancestor Tree.root new := by
  intro new
  have hback : (session.tweak? [entry]).isSome = true ↔
      (session.engine.insert? id parent type view).isSome = true := by
    rw [isSome_tweak?_single, isSome_applied? hr, perform?, Option.isSome_map]
  have hlinked : (session.tweak? [entry]).isSome = true → parent = new := fun hsome =>
    Nat.le_antisymm (Engine.le_nextIndex_of_isSome_insert? (hback.1 hsome)) hmissing
  refine ⟨fun hne => ?_, fun heq hnone => ?_, fun done hdone => ?_⟩
  · exact Option.not_isSome_iff_eq_none.1 fun hsome => hne (hlinked hsome)
  · rw [hback, Engine.isSome_insert? (Nat.le_of_eq heq)]
    unfold Engine.applyContent?
    rw [hnone]
    rfl
  · obtain rfl : parent = new := hlinked (by rw [hdone]; rfl)
    obtain rfl := (outcome_tweak session [entry]).eq_of_some done hdone
    have hown : (session.engine.insert id new type view).1.tree.parent? new = some new := by
      rw [(session.engine.sameShape_insert id new type view).parent]
      exact (Tree.parent?_insertChild _).trans (if_pos rfl)
    have hregistered : (session.engine.insert id new type view).1.registry.lookup? id =
        some new := by
      rw [Engine.insert_eq, Registry.lookup?_register, if_pos rfl]
    rw [tweak_of_resolve hr]
    exact ⟨rfl, hregistered, Tree.above?_of_own_parent hown,
      Tree.not_ancestor_of_own_parent hown (Nat.ne_of_lt hsize)⟩

/-- **A modify of a missing node** breaks the run off exactly if it ties the
node to itself. If it comes back it changed nothing, and without constraints
it says nothing. -/
theorem modify_of_missing (h : session.engine.tree.Rooted)
    (hr : session.resolve entry = .ok (.modify idx view))
    (hmissing : session.engine.tree.size ≤ idx) :
    (session.tweak? [entry] = none ↔ session.Ties entry) ∧
      ∀ done, session.tweak? [entry] = some done →
        done.1 = session ∧ done.2.applied = 1 ∧ (view.constraints = none → done.2 = ⟨1, []⟩) := by
  have hback : (session.tweak? [entry]).isSome = true ↔ ¬session.Ties entry :=
    isSome_tweak?_single.trans (isSome_applied?_of_missing h hr hmissing)
  refine ⟨?_, fun done hdone => ?_⟩
  · rw [← Option.not_isSome_iff_eq_none, hback, not_not]
  · have hties : ¬session.Ties entry := hback.1 (by rw [hdone]; rfl)
    obtain rfl := (outcome_tweak session [entry]).eq_of_some done hdone
    have horphans : ¬session.Orphans entry := by
      rintro ⟨_, _, _, _, hr', -⟩
      cases hr.symm.trans hr'
    refine ⟨(apply_of_stale h ⟨_, hr, hmissing⟩ horphans hties).1, ?_, fun hnone => ?_⟩
    · rw [tweak_of_resolve hr]
      rfl
    · rw [tweak_of_resolve hr]
      show Report.append ⟨1, (session.engine.modify idx view).2⟩ .empty = _
      rw [Engine.snd_modify_of_missing hmissing hnone]
      rfl

/-- **Identifiers that stand for no node.** Let a session be reached by change
sequences and replacements of the registry in which no entry put a node under
a missing one or tied a missing one to itself, and take any changes. A run
over them that comes back comes to what `tweak` says, and then no parent comes
after its child; where the registry was never replaced it always comes back.
It comes back with a tree grown from its root exactly if no entry that is met
puts a node under a missing one or ties one to itself. In that case every node
is below the root and every constraint has a node to be installed on, after
the changes and after every step of an entry about a node that is there, and
any other entry leaves the session as it was. But a stale entry is never
refused. An insert under a missing node breaks the run off, or its node becomes
its own parent, from which no way leads up to the root. A modify of a missing
node breaks the run off if it ties the node to itself, and otherwise counts as
applied and changes nothing. -/
theorem entries_of_missing_nodes (h : session.Hosted) (changes : List Json) :
    (∀ done, session.tweak? changes = some done →
        done = session.tweak changes ∧ done.1.engine.tree.Upward) ∧
      (session.Reached → session.tweak? changes = some (session.tweak changes)) ∧
      ((∃ done, session.tweak? changes = some done ∧ done.1.engine.tree.Rooted) ↔
        ∀ m ∈ session.met changes, ¬m.1.Orphans m.2 ∧ ¬m.1.Ties m.2) ∧
      ((∀ m ∈ session.met changes, ¬m.1.Orphans m.2 ∧ ¬m.1.Ties m.2) →
        (session.tweak changes).1.engine.tree.Housed ∧
          ∀ m ∈ session.met changes,
            (m.1.Stale m.2 → (m.1.apply m.2).1 = m.1 ∧ (m.1.apply m.2).2.applied = 1) ∧
              (¬m.1.Stale m.2 → ∀ between, m.1.Passes m.2 between → between.Housed)) ∧
      ∀ entry, session.Stale entry →
        let new := session.engine.tree.nextIndex
        (∀ id parent type view, session.resolve entry = .ok (.insert id parent type view) →
            (parent ≠ new → session.tweak? [entry] = none) ∧
              (parent = new → view.constraints = none →
                (session.tweak? [entry]).isSome = true) ∧
              ∀ done, session.tweak? [entry] = some done →
                done.2.applied = 1 ∧ done.1.engine.registry.lookup? id = some new ∧
                  (∀ steps, done.1.engine.tree.above? new steps = some new) ∧
                  ¬done.1.engine.tree.Ancestor Tree.root new) ∧
          ∀ idx view, session.resolve entry = .ok (.modify idx view) →
            (session.tweak? [entry] = none ↔ session.Ties entry) ∧
              ∀ done, session.tweak? [entry] = some done →
                done.1 = session ∧ done.2.applied = 1 ∧
                  (view.constraints = none → done.2 = ⟨1, []⟩) := by
  have hcoherent := h.coherent
  have hrooted := hcoherent.toRooted
  refine ⟨fun done hdone => ?_, fun hreached => tweak?_eq_of_sound hreached.sound changes,
    ⟨?_, fun hmet => ?_⟩, fun hmet => ⟨?_, fun m hm => ?_⟩, ?_⟩
  · obtain rfl := (outcome_tweak session changes).eq_of_some done hdone
    exact ⟨rfl, upward_tweak hrooted.upward (by rw [hdone]; rfl)⟩
  · rintro ⟨done, hdone, hgrown⟩ m hm
    obtain rfl := (outcome_tweak session changes).eq_of_some done hdone
    have horphans := ((rooted_tweak_iff hrooted.nonempty changes).1 hgrown).2
    exact ⟨horphans m hm, not_ties_of_isSome_tweak? hrooted horphans (by rw [hdone]; rfl) m hm⟩
  · have hback := (outcome_tweak session changes).eq_some (isSome_tweak? hcoherent hmet)
    exact ⟨_, hback, (h.tweak changes hmet).coherent.toRooted⟩
  · exact (h.tweak changes hmet).coherent.housed
  · obtain ⟨horphans, hties⟩ := hmet m hm
    have hhosted := h.of_mem_met hmet m hm
    exact ⟨fun hstale => apply_of_stale hhosted.coherent.toRooted hstale horphans hties,
      fun hstale between => hhosted.housed_of_passes hstale⟩
  · rintro entry ⟨action, hr, hmissing⟩ new
    refine ⟨fun id parent type view hinsert => ?_, fun idx view hmodify => ?_⟩
    · cases hr.symm.trans hinsert
      exact insert_of_missing hrooted.nonempty hinsert hmissing
    · cases hr.symm.trans hmodify
      exact modify_of_missing hrooted hmodify hmissing

/-- A session in which an identifier is registered for the position the next
node will have. -/
def haunted : Session :=
  (initial .standard .none).replaceRegistry [(Identifier.root, Tree.root), ("ghost", 1)]

/-- The view of a plain box. -/
def plainBox (superview : String) : ViewChange :=
  { id := some "box", superview := some superview, typeTag := some "View" }

theorem resolve_box (superview : String) {parent : NodeIndex}
    (hparent : haunted.engine.registry.lookup? superview = some parent) :
    haunted.resolve (viewInserted "box" superview) =
      .ok (.insert "box" parent .view (plainBox superview)) := by
  have htype : NodeType.ofTag? "View" = some .view := rfl
  exact resolve_insert_of_lookup rfl rfl hparent htype

/-- Under the root a box is below the root. Under the position it will have
itself it is applied as well, and is not. -/
theorem entries_of_missing_nodes_of_box :
    (∃ done, haunted.tweak? [viewInserted "box" "root"] = some done ∧
        done.1.engine.tree.Housed) ∧
      ∃ done, haunted.tweak? [viewInserted "box" "ghost"] = some done ∧ done.2.applied = 1 ∧
        ¬done.1.engine.tree.Ancestor Tree.root 1 := by
  have hhosted : haunted.Hosted := .reindexed _ (.initial _ _ _)
  have hroot := resolve_box "root" (by decide +kernel : _ = some 0)
  have hghost := resolve_box "ghost" (by decide +kernel : _ = some 1)
  have hsafe : ∀ m ∈ haunted.met [viewInserted "box" "root"],
      ¬m.1.Orphans m.2 ∧ ¬m.1.Ties m.2 := by
    intro m hm
    obtain rfl : m = (haunted, viewInserted "box" "root") := List.mem_singleton.1 hm
    refine ⟨?_, ?_⟩
    · rintro ⟨_, _, _, _, hr, hle⟩
      cases hroot.symm.trans hr
      exact absurd hle (by decide +kernel)
    · rintro ⟨_, _, hr, -⟩
      cases hroot.symm.trans hr
  obtain ⟨hcomes, -, hback, hhoused, hstale⟩ :=
    entries_of_missing_nodes hhosted [viewInserted "box" "root"]
  have hmissing : haunted.Stale (viewInserted "box" "ghost") := ⟨_, hghost, by decide +kernel⟩
  obtain ⟨-, hlinked, hall⟩ := (hstale (viewInserted "box" "ghost") hmissing).1 _ _ _ _ hghost
  obtain ⟨below, hbelow, -⟩ := hback.2 hsafe
  obtain ⟨apart, hapart⟩ := Option.isSome_iff_exists.1 (hlinked rfl rfl)
  refine ⟨⟨below, hbelow, ?_⟩, apart, hapart, (hall apart hapart).1, (hall apart hapart).2.2.2⟩
  rw [(hcomes below hbelow).1]
  exact (hhoused hsafe).1

/-- An entry that hides the view of an identifier. -/
def viewHidden (id : String) : Json :=
  .object [("operation", .string "modify"),
    ("view", .object [("id", .string id), ("properties", .object [("isHidden", .bool true)])])]

/-- **A box becomes its own parent.** The identifier it is put under stands
for no node, yet nothing is skipped, and the root is not above the box. Where
the identifier stands for no node, a modify is not skipped either. -/
theorem box_under_itself :
    haunted.Hosted ∧ haunted.engine.tree.node? 1 = none ∧
      (∃ done, haunted.tweak? [viewInserted "box" "ghost"] = some done ∧
        done.2.applied = 1 ∧ done.2.isClean = true ∧
        done.1.engine.tree.parent? 1 = some 1 ∧
        ¬done.1.engine.tree.Ancestor Tree.root 1) ∧
      ∃ done, haunted.tweak? [viewHidden "ghost"] = some done ∧
        done.2.applied = 1 ∧ done.2.isClean = true := by
  have hown : (haunted.tweak [viewInserted "box" "ghost"]).1.engine.tree.parent? 1 =
      some 1 := by decide +kernel
  have hback (changes : List Json) (hsome : (haunted.tweak? changes).isSome = true) :
      haunted.tweak? changes = some (haunted.tweak changes) :=
    (outcome_tweak haunted changes).eq_some hsome
  refine ⟨.reindexed _ (.initial _ _ _), by decide +kernel,
    ⟨_, hback _ (by decide +kernel), by decide +kernel, by decide +kernel, hown, ?_⟩,
    ⟨_, hback _ (by decide +kernel), by decide +kernel, by decide +kernel⟩⟩
  exact Tree.not_ancestor_of_own_parent hown Nat.zero_ne_one

end Session

end LiveLayout
