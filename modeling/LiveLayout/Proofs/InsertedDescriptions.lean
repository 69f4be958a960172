import LiveLayout.Proofs.Addressing
import LiveLayout.Proofs.BareInserts
import LiveLayout.Proofs.Baselines
import Mathlib.Data.List.Perm.Basic
/-!
# Descriptions of a new node

Descriptions that come with an insert are appended to the new node's
snapshot list one by one, as they are when a modify brings them afterwards,
and on the way they reach each other by position. But the insert ends by
recording what is installed on the node, and that goes by what is in force
and since when, not by position. `Described` is what holds of the node while
its descriptions are applied, however they switch each other on and off:
its list is the arena from a position on, and what is installed on it is
what is in force of that, in some order. So the two ways agree where all is
in force in the order of the list (`Described.installed_eq_snapshot_iff`),
and in particular where nothing is described as inactive
(`descriptions_of_insert`); otherwise positions are lost
(`inactive_description_lost`).
-/

namespace LiveLayout

namespace Tree

variable {tree : Tree} {idx : NodeIndex} {id : ConstraintId} {c : Constraint}
variable {base count : Nat} {entry : Json × Nat}

/-! ## One description -/

/-- **The outcomes of a description**: it is refused, or it updates what it
addresses, or it is appended. -/
inductive DescriptionApplied (tree : Tree) (idx : NodeIndex) (entry : Json × Nat) : Tree → Prop
  | refused : DescriptionApplied tree idx entry tree
  | updated {config : ConstraintConfig} {id : ConstraintId} :
      ConstraintConfig.ofDatum? entry.1.toDatum = some config →
      tree.addressed? idx config = some id →
      DescriptionApplied tree idx entry
        (tree.updateConstraint id (config.constant.getD .zero) config.isActive config.priority)
  | appended {config : ConstraintConfig} {live : Constraint} :
      ConstraintConfig.ofDatum? entry.1.toDatum = some config →
      config.toLive? tree idx = some live →
      DescriptionApplied tree idx entry
        ((tree.addConstraint { live with added := true }).pushSnapshot idx tree.nextConstraint)

theorem applyConfig_cases (tree : Tree) (idx : NodeIndex) (entry : Json × Nat) :
    DescriptionApplied tree idx entry (tree.applyConfig idx entry).1 := by
  unfold applyConfig
  split
  · exact .refused
  · rename_i config hconfig
    split
    · rename_i id haddressed
      exact .updated hconfig haddressed
    · split
      · rename_i live hlive
        exact .appended hconfig hlive
      · exact .refused

/-- What a description addresses is on the node's list. -/
theorem mem_snapshot_of_addressed? {config : ConstraintConfig}
    (h : tree.addressed? idx config = some id) : id ∈ tree.snapshot idx := by
  obtain ⟨position, -, hget⟩ := Option.bind_eq_some_iff.1 h
  exact List.mem_of_getElem? hget

/-- A constraint is made active as it is described. -/
theorem active_of_toLive? {config : ConstraintConfig} (h : config.toLive? tree idx = some c) :
    c.active = config.isActive := by
  unfold ConstraintConfig.toLive? at h
  split at h
  · split at h
    · cases h
      rfl
    · cases h
  · cases h

/-! ## A node that is being described -/

/-- **A node that descriptions are applied to**, and no other constraints
since the arena had a size. Its list has every position from there on, and
what is there relates the node to nothing but itself. -/
structure Described (tree : Tree) (idx : NodeIndex) (base count : Nat) : Prop where
  childless : tree.children idx = []
  size : tree.constraints.size = base + count
  snapshot : tree.snapshot idx = List.range' base count
  recent : ∀ id ∈ tree.installed idx, base ≤ id
  own : ∀ id c, base ≤ id → tree.constraint? id = some c →
    c.first.node = idx ∧ ∀ s, c.second = some s → s.node = idx

namespace Described

/-- It is installed on the node if it is installed. -/
theorem ownerFor? (hidx : idx < tree.size)
    (hown : c.first.node = idx ∧ ∀ s, c.second = some s → s.node = idx) :
    tree.ownerFor? c.first c.second = some idx := by
  obtain ⟨hfirst, hsecond⟩ := hown
  unfold Tree.ownerFor?
  cases hs : c.second with
  | some s =>
    simp only [hfirst, hsecond s hs]
    exact tree.commonAncestor?_self idx
  | none =>
    obtain ⟨node, hnode⟩ := node?_of_lt hidx
    simp only [hfirst, hnode, Option.map_some]

/-- What a description asks for relates the node to itself: it has no
children to name. -/
theorem own_of_toLive? (h : tree.Described idx base count) {config : ConstraintConfig}
    (hlive : config.toLive? tree idx = some c) :
    c.first.node = idx ∧ ∀ s, c.second = some s → s.node = idx := by
  have hlocal := localTo_of_toLive? hlive
  have only : ∀ m, tree.Family idx m → m = idx := by
    rintro m (rfl | hm)
    · rfl
    · rw [h.childless] at hm
      cases hm
  exact ⟨only _ hlocal.first, fun s hs => only _ (hlocal.second s hs)⟩

theorem mem_snapshot (h : tree.Described idx base count) :
    id ∈ tree.snapshot idx ↔ base ≤ id ∧ id < tree.constraints.size := by
  rw [h.snapshot, h.size, List.mem_range'_1]

/-- The list is all that was appended. -/
theorem snapshot_eq (h : tree.Described idx base count) :
    tree.snapshot idx = List.range' base (tree.constraints.size - base) := by
  rw [h.snapshot, h.size, Nat.add_sub_cancel_left]

/-- An update keeps to the list. -/
theorem updateConstraint (h : tree.Described idx base count) (hc : tree.Coherent)
    (hid : id ∈ tree.snapshot idx) (constant : Binary64) (active : Bool) (priority : Binary32) :
    (tree.updateConstraint id constant active priority).Described idx base count := by
  obtain ⟨hbase, hlt⟩ := h.mem_snapshot.1 hid
  obtain ⟨k, hk⟩ := constraint?_of_lt hlt
  obtain ⟨⟨owner, hself⟩, hother⟩ := hc.constraint?_updateConstraint hk constant active priority
  have hupdated := hc.updateConstraint id constant active priority
  refine ⟨?_, size_constraints_updateConstraint.trans h.size,
    snapshot_updateConstraint.trans h.snapshot, ?_, ?_⟩
  · rw [(reads_updateConstraint beside_children.installed).children_eq]
    exact h.childless
  · intro j hj
    by_cases heq : id = j
    · exact heq ▸ hbase
    · exact h.recent j ((hc.mem_installed_iff hupdated (hother j heq) idx).1 hj)
  · intro j k' hle hk'
    by_cases heq : id = j
    · subst heq
      cases hself.symm.trans hk'
      exact h.own id k hbase hk
    · rw [hother j heq] at hk'
      exact h.own j k' hle hk'

/-- A description that is appended gets the next position. -/
theorem append (h : tree.Described idx base count) (hc : tree.Coherent) (hidx : idx < tree.size)
    (hanchored : tree.Anchored c)
    (hown : c.first.node = idx ∧ ∀ s, c.second = some s → s.node = idx) :
    ((tree.addConstraint c).pushSnapshot idx tree.nextConstraint).Described idx base
      (count + 1) := by
  have hadded := (hc.addConstraint hanchored).pushSnapshot idx tree.nextConstraint
  have hshape : tree.SameShape (tree.addConstraint c) := sameShape_addConstraint
  have hidx' : idx < (tree.addConstraint c).size := hshape.size.symm ▸ hidx
  have hold : ∀ j, j < tree.constraints.size →
      ((tree.addConstraint c).pushSnapshot idx tree.nextConstraint).constraint? j =
        tree.constraint? j := fun j hj => constraint?_addConstraint_of_lt hj
  have hsize : ((tree.addConstraint c).pushSnapshot idx tree.nextConstraint).constraints.size =
      tree.constraints.size + 1 := size_constraints_addConstraint
  have hbase : base ≤ tree.constraints.size := h.size ▸ Nat.le_add_right base count
  refine ⟨?_, ?_, ?_, ?_, ?_⟩
  · rw [(reads_pushSnapshot beside_children).children_eq,
      (reads_addConstraint beside_children.installed).children_eq]
    exact h.childless
  · rw [hsize, h.size, Nat.add_assoc]
  · rw [snapshot_pushSnapshot hidx', if_pos rfl, snapshot_addConstraint, h.snapshot,
      List.range'_1_concat, ← h.size]
    rfl
  · intro j hj
    by_cases hlt : j < tree.constraints.size
    · exact h.recent j ((hc.mem_installed_iff hadded (hold j hlt) idx).1 hj)
    · exact Nat.le_trans hbase (Nat.le_of_not_lt hlt)
  · intro j k hle hk
    by_cases hlt : j < tree.constraints.size
    · rw [hold j hlt] at hk
      exact h.own j k hle hk
    · -- it is the one that was added
      have hj := lt_of_constraint? hk
      rw [hsize] at hj
      obtain rfl : j = tree.nextConstraint :=
        Nat.le_antisymm (Nat.le_of_lt_succ hj) (Nat.le_of_not_lt hlt)
      have hsame := sameTerms_addConstraint hk
      rw [hsame.first, hsame.second]
      exact hown

/-- **A description keeps the node described**, whatever comes of it. -/
theorem applyConfig (h : tree.Described idx base count) (hc : tree.Coherent)
    (hidx : idx < tree.size) (entry : Json × Nat) :
    ∃ count', (tree.applyConfig idx entry).1.Described idx base count' := by
  have hcases := tree.applyConfig_cases idx entry
  generalize (tree.applyConfig idx entry).1 = described at hcases ⊢
  cases hcases with
  | refused => exact ⟨count, h⟩
  | updated _ haddressed =>
    exact ⟨count, h.updateConstraint hc (mem_snapshot_of_addressed? haddressed) _ _ _⟩
  | appended _ hlive =>
    have hanchored := anchored_of_toLive? hlive
    obtain ⟨hfirst, hsecond⟩ := h.own_of_toLive? hlive
    exact ⟨count + 1, h.append hc hidx ⟨hanchored.first, hanchored.second⟩ ⟨hfirst, hsecond⟩⟩

/-- **Where nothing is described as inactive** the list stays what is
installed: an update finds its constraint in force, and what is appended
comes last on both lists. -/
theorem installed_applyConfig (h : tree.Described idx base count) (hc : tree.Coherent)
    (hidx : idx < tree.size) (hsame : tree.installed idx = tree.snapshot idx)
    (hactive : ∀ config, ConstraintConfig.ofDatum? entry.1.toDatum = some config →
      config.isActive = true) :
    (tree.applyConfig idx entry).1.installed idx =
      (tree.applyConfig idx entry).1.snapshot idx := by
  have hcases := tree.applyConfig_cases idx entry
  generalize (tree.applyConfig idx entry).1 = described at hcases ⊢
  cases hcases with
  | refused => exact hsame
  | @updated config id hconfig haddressed =>
    have hmem := mem_snapshot_of_addressed? haddressed
    obtain ⟨k, hk, hon, -⟩ := (hc.listed id idx).1 (hsame ▸ hmem)
    have hamended : (tree.modifyConstraint id fun c =>
        { c with constant := config.constant.getD .zero, priority := config.priority }).constraint?
          id = some { k with constant := config.constant.getD .zero
                             priority := config.priority } := by
      rw [constraint?_modifyConstraint, if_pos rfl, hk]
      rfl
    rw [snapshot_updateConstraint, ← hsame]
    unfold Tree.updateConstraint
    rw [hactive config hconfig, switch_eq_self hamended hon, installed_modifyConstraint]
  | @appended config live hconfig hlive =>
    have hon : live.active = true := (active_of_toLive? hlive).trans (hactive config hconfig)
    have hown : tree.ownerFor? live.first live.second = some idx :=
      ownerFor? hidx (h.own_of_toLive? hlive)
    generalize hadded : ({ live with added := true } : Constraint) = added
    have hon' : added.active = true := hadded ▸ hon
    have hown' : tree.ownerFor? added.first added.second = some idx := hadded ▸ hown
    have hshape : tree.SameShape (tree.addConstraint added) := sameShape_addConstraint
    have hidx' : idx < (tree.addConstraint added).size := hshape.size.symm ▸ hidx
    rw [snapshot_pushSnapshot hidx', if_pos rfl, installed_pushSnapshot,
      installed_addConstraint hon' hown' hidx, if_pos rfl, snapshot_addConstraint, hsame]

/-- **A whole list of descriptions keeps the node described**, and what is
installed on it is the list if none of them is inactive. -/
theorem applyConfigs {entries : List (Json × Nat)} (h : tree.Described idx base count)
    (hc : tree.Coherent) (hidx : idx < tree.size) :
    (∃ count', (Diagnostic.collect (Tree.applyConfig idx) tree entries).1.Described idx base
        count') ∧
      (tree.installed idx = tree.snapshot idx →
        (∀ entry ∈ entries, ∀ config, ConstraintConfig.ofDatum? entry.1.toDatum = some config →
          config.isActive = true) →
        (Diagnostic.collect (Tree.applyConfig idx) tree entries).1.installed idx =
          (Diagnostic.collect (Tree.applyConfig idx) tree entries).1.snapshot idx) := by
  induction entries generalizing tree count with
  | nil => exact ⟨⟨count, h⟩, fun hsame _ => hsame⟩
  | cons entry rest ih =>
    have hedits : Edits Registry.empty idx tree (tree.applyConfig idx entry).1 :=
      edits_applyConfig entry
    obtain ⟨count', hstep⟩ := h.applyConfig hc hidx entry
    have hrest := ih hstep (hedits.coherent hc hidx)
      (hedits.sameShape.size.symm ▸ hidx : idx < (tree.applyConfig idx entry).1.size)
    refine ⟨hrest.1, fun hsame hactive => hrest.2 ?_ ?_⟩
    · exact h.installed_applyConfig hc hidx hsame (hactive entry List.mem_cons_self)
    · exact fun other hother => hactive other (List.mem_cons_of_mem _ hother)

/-! ## What is installed and what is listed -/

/-- **What is installed on the node is what is in force of its list.** -/
theorem installed_perm (h : tree.Described idx base count) (hc : tree.Coherent)
    (hidx : idx < tree.size) :
    (tree.installed idx).Perm
      ((tree.snapshot idx).filter fun id => (tree.constraint? id).any (·.active)) := by
  have hnodup : (tree.snapshot idx).Nodup := h.snapshot ▸ List.nodup_range'
  rw [List.perm_ext_iff_of_nodup (hc.nodup idx) (hnodup.sublist List.filter_sublist)]
  intro id
  rw [List.mem_filter, hc.listed, h.mem_snapshot]
  constructor
  · rintro ⟨k, hk, hon, howner⟩
    have hmem : id ∈ tree.installed idx := (hc.listed id idx).2 ⟨k, hk, hon, howner⟩
    refine ⟨⟨h.recent id hmem, lt_of_constraint? hk⟩, ?_⟩
    rw [hk]
    exact hon
  · rintro ⟨⟨hbase, hlt⟩, hany⟩
    obtain ⟨k, hk⟩ := constraint?_of_lt hlt
    rw [hk] at hany
    have hon : k.active = true := hany
    obtain ⟨n, howner, -⟩ := hc.exists_owner hk hon
    -- its owner is the node: it relates nothing else
    have hhome := hc.home id k n hk howner
    rw [ownerFor? hidx (h.own id k hbase hk)] at hhome
    cases hhome
    exact ⟨k, hk, hon, howner⟩

/-- **What is installed is the list exactly** if all of the list is in force
and was put in force in its order. -/
theorem installed_eq_snapshot_iff (h : tree.Described idx base count) (hc : tree.Coherent)
    (hidx : idx < tree.size) :
    tree.installed idx = tree.snapshot idx ↔
      (∀ id ∈ tree.snapshot idx, (tree.constraint? id).any (·.active) = true) ∧
        (tree.installed idx).Pairwise (· < ·) := by
  have hperm := h.installed_perm hc hidx
  have hsorted : (tree.snapshot idx).Pairwise (· < ·) := h.snapshot ▸ List.pairwise_lt_range'
  constructor
  · intro heq
    refine ⟨fun id hid => ?_, heq ▸ hsorted⟩
    have hmem := hperm.subset (heq ▸ hid)
    exact (List.mem_filter.1 hmem).2
  · rintro ⟨hall, hordered⟩
    rw [List.filter_eq_self.2 hall] at hperm
    exact hperm.eq_of_pairwise (fun a b _ _ hab hba => absurd hab (Nat.lt_asymm hba)) hordered
      hsorted

end Described

end Tree

namespace ViewChange

/-- **A view without its constraints.** -/
def unconstrained (view : ViewChange) : ViewChange := { view with constraints := none }

/-- **The constraints of a view alone**, for the node it is of. -/
def constraining (view : ViewChange) : ViewChange :=
  { id := view.id, constraints := view.constraints }

end ViewChange

namespace Engine

variable {engine : Engine} {parent : NodeIndex} {id : Identifier} {type : NodeType}
variable {view : ViewChange} {configs : List Json}

/-- The engine once the new node is in the tree and has its look. -/
def dressed (engine : Engine) (id : Identifier) (parent : NodeIndex) (type : NodeType)
    (view : ViewChange) : Engine :=
  (engine.planted id parent type view).styled engine.tree.nextIndex view

theorem edited_dressed (engine : Engine) (id : Identifier) (parent : NodeIndex) (type : NodeType)
    (view : ViewChange) :
    Edited engine.tree.nextIndex (engine.planted id parent type view)
      (engine.dressed id parent type view) :=
  edited_styled _ _ _

/-- Nothing is on the new node's lists yet. -/
theorem lists_dressed (engine : Engine) (id : Identifier) (parent : NodeIndex) (type : NodeType)
    (view : ViewChange) :
    (engine.dressed id parent type view).tree.installed engine.tree.nextIndex = [] ∧
      (engine.dressed id parent type view).tree.snapshot engine.tree.nextIndex = [] := by
  obtain ⟨hinstalled, hsnapshot⟩ := engine.lists_planted id parent type view
  exact ⟨(installed_styled _ _ _ _).trans hinstalled, (snapshot_styled _ _ _ _).trans hsnapshot⟩

/-- **Descriptions of a new node begin** with an empty list, at the end of
the arena. -/
theorem described_dressed (hparent : parent < engine.tree.size) :
    (engine.dressed id parent type view).tree.Described engine.tree.nextIndex
      engine.tree.constraints.size 0 := by
  obtain ⟨hinstalled, hsnapshot⟩ := engine.lists_dressed id parent type view
  have hconstraints : (engine.dressed id parent type view).tree.constraints =
      engine.tree.constraints := constraints_styled _ _ _
  have hchildren : (engine.planted id parent type view).tree.children engine.tree.nextIndex =
      [] := children_planted hparent
  refine ⟨?_, congrArg Array.size hconstraints, hsnapshot, fun j hj => ?_, fun j c hle hc => ?_⟩
  · exact (reads_styled Node.unadorned_children _ _ _).children_eq _ |>.trans hchildren
  · rw [hinstalled] at hj
    cases hj
  · have hlt := Tree.lt_of_constraint? hc
    rw [hconstraints] at hlt
    exact absurd hlt (Nat.not_lt_of_le hle)

/-- **A node inserted without constraints** has its look and is registered. -/
theorem insert_unconstrained :
    engine.insert id parent type view.unconstrained =
      ((engine.dressed id parent type view).withRegistry
          (engine.registry.register id engine.tree.nextIndex),
        (engine.insert id parent type view.unconstrained).2) := by
  obtain ⟨hinstalled, hsnapshot⟩ := engine.lists_dressed id parent type view
  have hcapture := Tree.captureSnapshot_eq_self (hinstalled.trans hsnapshot.symm)
  have hregistry := (engine.edited_dressed id parent type view).registry
  have hfilled : engine.filled id parent type view.unconstrained =
      engine.dressed id parent type view := applyContent_eq _ _ _ _
  refine Prod.ext ?_ rfl
  rw [insert_eq, hfilled, hcapture, hregistry]
  rfl

/-- **Descriptions given with the node or afterwards** come to the same, and
the same is said of them. -/
theorem modify_constraining (hconfigs : view.constraints = some (.indexed configs)) :
    ((engine.insert id parent type view.unconstrained).1.modify engine.tree.nextIndex
        view.constraining).1 =
      (engine.filled id parent type view).withRegistry
        (engine.registry.register id engine.tree.nextIndex) ∧
    (engine.insert id parent type view).2 =
      (engine.insert id parent type view.unconstrained).2 ++
        ((engine.insert id parent type view.unconstrained).1.modify engine.tree.nextIndex
          view.constraining).2 := by
  rw [insert_unconstrained]
  have hmodify : ((engine.dressed id parent type view).withRegistry
      (engine.registry.register id engine.tree.nextIndex)).modify engine.tree.nextIndex
        view.constraining =
      ({ (engine.dressed id parent type view).withRegistry
          (engine.registry.register id engine.tree.nextIndex) with
          tree := (Diagnostic.collect (Tree.applyConfig engine.tree.nextIndex)
            (engine.dressed id parent type view).tree configs.zipIdx).1 },
        (Diagnostic.collect (Tree.applyConfig engine.tree.nextIndex)
          (engine.dressed id parent type view).tree configs.zipIdx).2) := by
    unfold modify applyContent ViewChange.constraining
    simp only [hconfigs]
    rfl
  rw [hmodify]
  constructor
  · unfold filled
    rw [applyContent_eq, hconfigs]
    rfl
  · unfold insert applyContent
    simp only [hconfigs]
    rfl

/-- **A new node with its descriptions** is described by them. -/
theorem Sound.described_filled (h : engine.Sound) (hparent : parent < engine.tree.size)
    (hconfigs : view.constraints = some (.indexed configs)) :
    (∃ count, (engine.filled id parent type view).tree.Described engine.tree.nextIndex
        engine.tree.constraints.size count) ∧
      ((∀ json ∈ configs, ∀ config, ConstraintConfig.ofDatum? json.toDatum = some config →
          config.isActive = true) →
        (engine.filled id parent type view).tree.installed engine.tree.nextIndex =
          (engine.filled id parent type view).tree.snapshot engine.tree.nextIndex) := by
  have hlt := engine.nextIndex_lt_planted id parent type view
  have hedited := engine.edited_dressed id parent type view
  have hsound : (engine.dressed id parent type view).Sound :=
    (h.planted hparent id type view).of_edited hlt hedited
  have hidx : engine.tree.nextIndex < (engine.dressed id parent type view).tree.size :=
    hedited.tree.sameShape.size.symm ▸ hlt
  have hfilled : (engine.filled id parent type view).tree =
      (Diagnostic.collect (Tree.applyConfig engine.tree.nextIndex)
        (engine.dressed id parent type view).tree configs.zipIdx).1 := by
    unfold Engine.filled
    rw [applyContent_eq, hconfigs]
    rfl
  have hbegun : (engine.dressed id parent type view).tree.Described engine.tree.nextIndex
      engine.tree.constraints.size 0 := described_dressed hparent
  obtain ⟨hinstalled, hsnapshot⟩ := engine.lists_dressed id parent type view
  rw [hfilled]
  obtain ⟨hdescribed, hsame⟩ := hbegun.applyConfigs hsound.coherent hidx
  refine ⟨hdescribed, fun hactive => hsame (hinstalled.trans hsnapshot.symm) ?_⟩
  intro entry hentry
  exact hactive entry.1 (List.fst_mem_of_mem_zipIdx hentry)

end Engine

/-- **What a node's list addresses**, position by position. Where the
constraints are installed is not part of it. -/
def Tree.listed (tree : Tree) (n : NodeIndex) : List (Option Constraint) :=
  (tree.snapshot n).map fun id => (tree.constraint? id).map fun c => { c with owner := none }

namespace Session

variable {session : Session} {entry plain later : Json} {id : Identifier} {parent : NodeIndex}
variable {type : NodeType} {view : ViewChange} {configs : List Json}

/-- A node inserted without its descriptions, and these given afterwards. -/
theorem tweak_plain_later (hinsert : session.resolve entry = .ok (.insert id parent type view))
    (hconfigs : view.constraints = some (.indexed configs))
    (hplain : Change.ofJson? plain = some ⟨"insert", view.unconstrained⟩)
    (hlater : Change.ofJson? later = some ⟨"modify", view.constraining⟩) :
    session.tweak [plain, later] =
      (⟨(session.engine.filled id parent type view).withRegistry
          (session.engine.registry.register id session.engine.tree.nextIndex),
        (session.perform (.insert id parent type view)).1.known⟩,
      ⟨2, (session.engine.insert id parent type view).2⟩) := by
  obtain ⟨hid, hresolve⟩ := resolve_insert_of_same hinsert hplain rfl rfl rfl
  -- the modify finds the node that the insert without constraints registered
  let planted := (session.perform (.insert id parent type view.unconstrained)).1
  have hregistered : planted.engine.registry.lookup? id = some session.engine.tree.nextIndex := by
    show (session.engine.insert id parent type view.unconstrained).1.registry.lookup? id = _
    rw [Engine.insert_unconstrained]
    show (session.engine.registry.register id session.engine.tree.nextIndex).lookup? id = _
    rw [Registry.lookup?_register, if_pos rfl]
  have hmodify : planted.resolve later =
      .ok (.modify session.engine.tree.nextIndex view.constraining) :=
    resolve_modify_of_lookup hid hregistered hlater
  obtain ⟨hmade, hsaid⟩ : (planted.engine.modify _ view.constraining).1 = _ ∧ _ :=
    Engine.modify_constraining hconfigs
  rw [tweak_of_resolve hresolve, tweak_of_resolve hmodify]
  show ((⟨(planted.engine.modify _ view.constraining).1, planted.known⟩ : Session),
    Report.mk 2 ((session.engine.insert id parent type view.unconstrained).2 ++
      ((planted.engine.modify _ view.constraining).2 ++ []))) = _
  rw [hmade, hsaid, List.append_nil]
  rfl

/-- **Descriptions given with a node, and given afterwards.** In a session
that was reached, take an insert that is applied and whose constraints are
descriptions. The same insert without constraints and a modify with them
lead to the same session with the same diagnostics, but for the snapshot
list of the new node. After the two, its position `k` addresses the `k`-th
constraint that was appended, active or not. After the insert the list has
those of them that are active, in the order in which they were switched on.
The lists are the same exactly if all are active and were switched on in
order, and so they are if no description is inactive. -/
theorem descriptions_of_insert (h : session.Reached)
    (hinsert : session.resolve entry = .ok (.insert id parent type view))
    (hconfigs : view.constraints = some (.indexed configs))
    (hplain : Change.ofJson? plain = some ⟨"insert", view.unconstrained⟩)
    (hlater : Change.ofJson? later = some ⟨"modify", view.constraining⟩) :
    let whole := session.tweak [entry]
    let parts := session.tweak [plain, later]
    let idx := session.engine.tree.nextIndex
    let base := session.engine.tree.constraints.size
    let appended := List.range' base (parts.1.engine.tree.constraints.size - base)
    let inForce := fun id => (parts.1.engine.tree.constraint? id).any (·.active)
    whole.1 =
        ⟨{ parts.1.engine with tree := parts.1.engine.tree.captureSnapshot idx },
          parts.1.known⟩ ∧
      whole.2.diagnostics = parts.2.diagnostics ∧
      parts.1.engine.tree.snapshot idx = appended ∧
      (whole.1.engine.tree.snapshot idx).Perm (appended.filter inForce) ∧
      (whole.1.engine.tree.snapshot idx = appended ↔
        (∀ id ∈ appended, inForce id = true) ∧
          (whole.1.engine.tree.snapshot idx).Pairwise (· < ·)) ∧
      ((∀ json ∈ configs, ∀ config, ConstraintConfig.ofDatum? json.toDatum = some config →
          config.isActive = true) →
        whole.1.engine.tree.listed idx = parts.1.engine.tree.listed idx) := by
  intro whole parts idx base appended inForce
  obtain ⟨hparent, -⟩ := resolve_insert hinsert
  have hsize : parent < session.engine.tree.size := h.sound.within _ _ hparent
  -- both ways come to the descriptions of the new node, recorded in one of them only
  have hwhole : whole = (⟨(session.engine.insert id parent type view).1,
      (session.perform (.insert id parent type view)).1.known⟩,
      ⟨1, (session.engine.insert id parent type view).2 ++ []⟩) :=
    tweak_of_resolve hinsert []
  have hparts : parts = _ := tweak_plain_later hinsert hconfigs hplain hlater
  have htree : parts.1.engine.tree = (session.engine.filled id parent type view).tree :=
    congrArg (·.1.engine.tree) hparts
  have hcaptured : whole.1.engine.tree = parts.1.engine.tree.captureSnapshot idx := by
    rw [hwhole, htree]
    rfl
  have hinstalled : whole.1.engine.tree.snapshot idx = parts.1.engine.tree.installed idx := by
    rw [hcaptured, Tree.snapshot_captureSnapshot, if_pos rfl]
  have hcoherent : parts.1.engine.tree.Coherent := by
    rw [htree]
    exact (h.sound.filled hsize id type view).coherent
  have hidx : idx < parts.1.engine.tree.size := by
    rw [htree, Engine.size_filled]
    exact Nat.lt_succ_self _
  obtain ⟨⟨count, hdescribed⟩, hactive⟩ := h.sound.described_filled hsize hconfigs
  rw [← htree] at hdescribed hactive
  have hsnapshot : parts.1.engine.tree.snapshot idx = appended := hdescribed.snapshot_eq
  refine ⟨?_, ?_, hsnapshot, ?_, ?_, fun hall => ?_⟩
  · have hregistry := (Engine.edited_filled session.engine id parent type view).registry
    rw [hwhole, hparts]
    simp only [Engine.insert_eq, Engine.withRegistry, hregistry]
    rfl
  · rw [hwhole, hparts]
    exact List.append_nil _
  · rw [hinstalled, ← hsnapshot]
    exact hdescribed.installed_perm hcoherent hidx
  · rw [hinstalled, ← hsnapshot]
    exact hdescribed.installed_eq_snapshot_iff hcoherent hidx
  · have hsame : whole.1.engine.tree.snapshot idx = parts.1.engine.tree.snapshot idx :=
      hinstalled.trans (hactive hall)
    unfold Tree.listed
    rw [hsame, hcaptured]
    rfl

/-- A description of one side of a box. -/
def sideDescribed (side : String) (length : UInt64) (more : List (String × Json)) : Json :=
  .object ([("constant", .number (.natural length)),
    ("first", .object [("attribute", .string side), ("item", .string "box")])] ++ more)

/-- An entry that inserts the box with descriptions. -/
def boxDescribed (configs : List Json) : Json :=
  .object [("operation", .string "insert"),
    ("view", .object [("constraints", .array configs), ("id", .string "box"),
      ("superview", .string "root"), ("type", .string "View")])]

/-- The view of that entry. -/
def boxView (configs : List Json) : ViewChange :=
  { id := some "box", superview := some "root", typeTag := some "View",
    constraints := some (.indexed configs) }

theorem resolve_boxDescribed (configs : List Json) :
    (initial .standard .none).resolve (boxDescribed configs) =
      .ok (.insert "box" 0 .view (boxView configs)) := by
  have htype : NodeType.ofTag? "View" = some .view := rfl
  exact resolve_insert_of_lookup rfl rfl rfl htype

/-- An entry that gives the box that is there descriptions. -/
def boxRedescribed (configs : List Json) : Json :=
  .object [("operation", .string "modify"),
    ("view", .object [("constraints", .array configs), ("id", .string "box")])]

/-- **A description that is inactive is lost**: given with the box it is on
no list, given afterwards it is at position 0. -/
theorem inactive_description_lost :
    ¬∀ (session : Session) (entry plain later : Json) (id : Identifier) (parent : NodeIndex)
        (type : NodeType) (view : ViewChange) (configs : List Json),
      session.Reached → session.resolve entry = .ok (.insert id parent type view) →
      view.constraints = some (.indexed configs) →
      Change.ofJson? plain = some ⟨"insert", view.unconstrained⟩ →
      Change.ofJson? later = some ⟨"modify", view.constraining⟩ →
      (session.tweak [entry]).1.engine.tree.listed session.engine.tree.nextIndex =
        (session.tweak [plain, later]).1.engine.tree.listed session.engine.tree.nextIndex := by
  intro hclaim
  let configs := [sideDescribed "width" 10 [("isActive", .bool false)]]
  have hlengths := congrArg List.length (hclaim (initial .standard .none) (boxDescribed configs)
    (viewInserted "box" "root") (boxRedescribed configs) "box" 0 .view (boxView configs) configs
    (.initial _ _ _) (resolve_boxDescribed configs) rfl rfl rfl)
  have hdiffer : ((initial .standard .none).tweak
        [boxDescribed configs]).1.engine.tree.snapshot 1 = [] ∧
      ((initial .standard .none).tweak
        [viewInserted "box" "root", boxRedescribed configs]).1.engine.tree.snapshot 1 = [0] := by
    decide +kernel
  unfold Tree.listed at hlengths
  rw [List.length_map, List.length_map] at hlengths
  have hindex : (initial .standard .none).engine.tree.nextIndex = 1 := rfl
  rw [hindex, hdiffer.1, hdiffer.2] at hlengths
  cases hlengths

/-- Descriptions of a box's width and its height, and then of its width being
switched off and on. -/
def boxSwitched : List Json :=
  [sideDescribed "width" 10 [], sideDescribed "height" 20 [],
    sideDescribed "width" 10 [("idx", .number (.natural 0)), ("isActive", .bool false)],
    sideDescribed "width" 10 [("idx", .number (.natural 0))]]

/-- Given with the box these record the height first, though all is active in
the end; given afterwards they list the width first. -/
theorem descriptions_of_box :
    ((initial .standard .none).tweak [boxDescribed boxSwitched]).1.engine.tree.snapshot 1 =
        [1, 0] ∧
      ((initial .standard .none).tweak
        [viewInserted "box" "root", boxRedescribed boxSwitched]).1.engine.tree.snapshot 1 =
          [0, 1] ∧
      ((initial .standard .none).tweak [boxDescribed boxSwitched]).1.engine.tree.snapshot 1 ≠
        ((initial .standard .none).tweak
          [viewInserted "box" "root", boxRedescribed boxSwitched]).1.engine.tree.snapshot 1 := by
  have hplain : Change.ofJson? (viewInserted "box" "root") =
      some ⟨"insert", (boxView boxSwitched).unconstrained⟩ := rfl
  have hlater : Change.ofJson? (boxRedescribed boxSwitched) =
      some ⟨"modify", (boxView boxSwitched).constraining⟩ := rfl
  have hindex : (initial .standard .none).engine.tree.nextIndex = 1 := rfl
  have hreached : (initial .standard .none).Reached := .initial _ _ _
  have hboth := descriptions_of_insert hreached (resolve_boxDescribed boxSwitched) rfl hplain
    hlater
  rw [hindex] at hboth
  obtain ⟨-, -, hlisted, -, hsame, -⟩ := hboth
  have hrecorded : ((initial .standard .none).tweak
      [boxDescribed boxSwitched]).1.engine.tree.snapshot 1 = [1, 0] := by
    decide +kernel
  refine ⟨hrecorded, by decide +kernel, fun heq => ?_⟩
  -- they would have been switched on in order
  rw [← hlisted] at hsame
  have hordered := (hsame.1 heq).2
  rw [hrecorded] at hordered
  revert hordered
  decide

end Session

end LiveLayout
