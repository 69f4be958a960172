import LiveLayout.Proofs.Sessions
/-!
# Putting a constraint in force

An expression's constraint goes over the one that is in force for its
attribute, and the search along the node's lineage finds that one: what is
in force is installed on an ancestor of its first node (`mem_activeOn`,
`findOnLineage?_eq_none_iff`). `Enforced` says exactly what the tree is
afterwards, whichever of the three ways it went: added, added beside the
old one, or written over it.
-/

namespace LiveLayout

/-- A node with one constraint off its installed list. -/
def Node.without (node : Node) (prior : Option ConstraintId) : Node :=
  { node with installed := node.installed.filter fun i => some i != prior }

/-- A constraint that is not on the list is no loss. -/
theorem Node.without_eq_self {node : Node} {prior : Option ConstraintId}
    (h : ∀ i ∈ node.installed, some i ≠ prior) : node.without prior = node := by
  have hself : node.installed.filter (fun i => some i != prior) = node.installed :=
    List.filter_eq_self.2 fun i hi => bne_iff_ne.2 (h i hi)
  unfold without
  rw [hself]

namespace Tree

variable {tree after : Tree} {registry : Registry} {idx n owner : NodeIndex}
variable {id j slot : ConstraintId} {prior : Option ConstraintId} {c k : Constraint}
variable {anchor : Anchor} {modify : Bool}

/-! ## What is in force for an attribute -/

theorem mem_activeOn : id ∈ tree.activeOn anchor ↔
    ∃ c, tree.constraint? id = some c ∧ c.active = true ∧ c.first = anchor := by
  unfold activeOn
  rw [List.mem_filter, List.mem_range]
  constructor
  · rintro ⟨-, hany⟩
    cases hc : tree.constraint? id with
    | none =>
      rw [hc] at hany
      cases hany
    | some c =>
      rw [hc, Option.any_some, Bool.and_eq_true, decide_eq_true_eq] at hany
      exact ⟨c, rfl, hany.1, hany.2⟩
  · rintro ⟨c, hc, hon, rfl⟩
    refine ⟨lt_of_constraint? hc, ?_⟩
    rw [hc, Option.any_some, hon, Bool.true_and, decide_eq_true_eq]

/-- **At most one constraint is in force** for an attribute of a node. -/
def Sole (tree : Tree) (anchor : Anchor) : Prop :=
  ∀ i j, i ∈ tree.activeOn anchor → j ∈ tree.activeOn anchor → i = j

theorem sole_iff_length_le : tree.Sole anchor ↔ (tree.activeOn anchor).length ≤ 1 := by
  have hnodup : (tree.activeOn anchor).Nodup := List.nodup_range.sublist List.filter_sublist
  unfold Sole
  generalize tree.activeOn anchor = l at hnodup ⊢
  match l with
  | [] => simp only [List.not_mem_nil, false_implies, implies_true, List.length_nil, Nat.zero_le]
  | [i] =>
    refine iff_of_true (fun a b ha hb => ?_) (Nat.le_refl _)
    rw [List.mem_singleton.1 ha, List.mem_singleton.1 hb]
  | i :: j :: rest =>
    refine iff_of_false (fun h => ?_) (by simp only [List.length_cons]; omega)
    have heq := h i j List.mem_cons_self (List.mem_cons_of_mem _ List.mem_cons_self)
    subst heq
    exact (List.nodup_cons.1 hnodup).1 List.mem_cons_self

/-- What the search finds is in force for the attribute. -/
theorem Coherent.mem_activeOn_of_findOnLineage? (h : tree.Coherent)
    (hfind : tree.findOnLineage? anchor = some id) : id ∈ tree.activeOn anchor := by
  obtain ⟨n, -, hn⟩ := List.exists_of_findSome?_eq_some hfind
  have hmem : id ∈ tree.installed n := List.mem_of_find?_eq_some hn
  obtain ⟨c, hc, hon, -⟩ := (h.listed id n).1 hmem
  have hholds := List.find?_some hn
  rw [hc, Option.any_some, decide_eq_true_eq] at hholds
  exact mem_activeOn.2 ⟨c, hc, hon, hholds⟩

/-- A constraint in force is installed on the lineage of its first node. -/
theorem Coherent.exists_lineage_of_active (h : tree.Coherent) (hc : tree.constraint? id = some c)
    (hon : c.active = true) : ∃ n ∈ tree.ancestors c.first.node, id ∈ tree.installed n := by
  obtain ⟨n, howner, hmem⟩ := h.exists_owner hc hon
  have hbelongs := h.home id c n hc howner
  refine ⟨n, ?_, hmem⟩
  unfold ownerFor? at hbelongs
  split at hbelongs
  · exact h.mem_ancestors.2 (h.nearestCommon hbelongs).left
  · obtain ⟨-, -, rfl⟩ := Option.map_eq_some_iff.1 hbelongs
    exact tree.mem_ancestors_self _

/-- **The search misses nothing that is in force.** -/
theorem Coherent.findOnLineage?_eq_none_iff (h : tree.Coherent) :
    tree.findOnLineage? anchor = none ↔ tree.activeOn anchor = [] := by
  constructor
  · intro hfind
    refine List.eq_nil_iff_forall_not_mem.2 fun id hid => ?_
    obtain ⟨c, hc, hon, rfl⟩ := mem_activeOn.1 hid
    obtain ⟨n, hn, hmem⟩ := h.exists_lineage_of_active hc hon
    have hnone := List.findSome?_eq_none_iff.1 hfind n hn
    have hmiss := List.find?_eq_none.1 hnone id hmem
    rw [hc, Option.any_some, decide_eq_true_eq] at hmiss
    exact hmiss rfl
  · intro hempty
    cases hfind : tree.findOnLineage? anchor with
    | none => rfl
    | some id =>
      have hmem := h.mem_activeOn_of_findOnLineage? hfind
      rw [hempty] at hmem
      cases hmem

/-! ## What is replaced, and where -/

/-- The constraint that another one of the same attribute replaces. -/
def prior? (tree : Tree) (modify : Bool) (c : Constraint) : Option ConstraintId :=
  if modify then tree.findOnLineage? c.first else none

theorem Coherent.mem_activeOn_of_prior? (h : tree.Coherent)
    (hprior : tree.prior? modify c = some id) : id ∈ tree.activeOn c.first := by
  unfold prior? at hprior
  split at hprior
  · exact h.mem_activeOn_of_findOnLineage? hprior
  · cases hprior

/-- What is replaced belongs to the same attribute. -/
theorem Coherent.first_of_prior? (h : tree.Coherent) (hprior : tree.prior? modify c = some id)
    (hk : tree.constraint? id = some k) : k.first = c.first := by
  obtain ⟨k', hk', -, hfirst⟩ := mem_activeOn.1 (h.mem_activeOn_of_prior? hprior)
  cases hk.symm.trans hk'
  exact hfirst

/-- The position a constraint is put at: that of the one it replaces, unless
a snapshot list addresses it. -/
def slotFor (tree : Tree) (prior : Option ConstraintId) : ConstraintId :=
  match prior with
  | some prior => if tree.isSnapshotted prior then tree.nextConstraint else prior
  | none => tree.nextConstraint

/-- **What a tree is once a constraint is in force** in place of another: it
is at one position and at the end of one installed list, and the other one
is off and on no list. -/
structure Enforced (tree : Tree) (prior : Option ConstraintId) (c : Constraint)
    (slot : ConstraintId) (owner : NodeIndex) (after : Tree) : Prop where
  constraint? : ∀ j, after.constraint? j =
    if j = slot then some { c with active := true, owner := some owner }
    else if prior = some j then (tree.constraint? j).map Constraint.idle
    else tree.constraint? j
  node? : ∀ n, after.node? n = (tree.node? n).map fun node =>
    { node with
      installed := (node.without prior).installed ++ if n = owner then [slot] else [] }

theorem switch_off_eq (hc : tree.constraint? id = some c) (hon : c.active = true) :
    tree.switch id false = tree.uninstall id c.owner := by
  have hcases := tree.switch_cases id false
  generalize tree.switch id false = switched at hcases ⊢
  cases hcases with
  | kept hkept =>
    rcases hkept c hc with hoff | ⟨hfalse, -⟩
    · rw [hon] at hoff
      cases hoff
    · cases hfalse
  | on hfalse => cases hfalse
  | off _ hc' =>
    rw [hc] at hc'
    cases hc'
    rfl

theorem switch_on_eq (hc : tree.constraint? id = some c) (hoff : c.active = false)
    (ho : tree.ownerFor? c.first c.second = some owner) :
    tree.switch id true = tree.install id owner := by
  have hcases := tree.switch_cases id true
  generalize tree.switch id true = switched at hcases ⊢
  cases hcases with
  | kept hkept =>
    rcases hkept c hc with hon | ⟨-, hnone⟩
    · rw [hoff] at hon
      cases hon
    · rw [ho] at hnone
      cases hnone
  | on _ hc' _ ho' =>
    rw [hc] at hc'
    cases hc'
    rw [ho] at ho'
    cases ho'
    rfl
  | off hfalse => cases hfalse

/-- A constraint that is on already is left as it is. -/
theorem switch_eq_self {active : Bool} (hc : tree.constraint? id = some c)
    (hsame : c.active = active) : tree.switch id active = tree := by
  unfold switch setActive
  rw [hc]
  simp only [if_pos hsame]

/-- **A constraint added in force** is the last on its owner's list. -/
theorem installed_addConstraint (hon : c.active = true)
    (ho : tree.ownerFor? c.first c.second = some owner) (hlt : owner < tree.size)
    (n : NodeIndex) :
    (tree.addConstraint c).installed n =
      if owner = n then tree.installed n ++ [tree.nextConstraint] else tree.installed n := by
  have hstored : (tree.store c).constraint? tree.nextConstraint = some c.idle := by
    rw [constraint?_store, if_pos rfl]
  have howner : (tree.store c).ownerFor? c.idle.first c.idle.second = some owner := by
    rw [sameShape_store.ownerFor?_eq]
    exact ho
  rw [addConstraint_eq, if_pos hon, switch_on_eq hstored rfl howner]
  exact installed_install hlt n

/-- A tree rid of a constraint that was in force. -/
structure Rid (tree : Tree) (prior : Option ConstraintId) (freed : Tree) : Prop where
  shape : tree.SameShape freed
  size : freed.constraints.size = tree.constraints.size
  constraint? : ∀ j, freed.constraint? j =
    if prior = some j then (tree.constraint? j).map Constraint.idle else tree.constraint? j
  node? : ∀ n, freed.node? n = (tree.node? n).map (·.without prior)

theorem rid_none (tree : Tree) : tree.Rid none tree where
  shape := .refl tree
  size := rfl
  constraint? j := by
    rw [if_neg]
    rintro ⟨⟩
  node? n := by
    have hself : ∀ node : Node, node.without none = node := fun node =>
      Node.without_eq_self fun i _ => Option.some_ne_none i
    simp only [hself, Option.map_id']

/-- Taken off its owner it is on no list at all. -/
theorem Coherent.rid (h : tree.Coherent) (hc : tree.constraint? id = some c)
    (hon : c.active = true) : tree.Rid (some id) (tree.switch id false) where
  shape := sameShape_switch false
  size := size_constraints_switch
  constraint? j := by
    rw [switch_off_eq hc hon, constraint?_uninstall]
    simp only [Option.some.injEq]
  node? n := by
    rw [switch_off_eq hc hon, node?_uninstall]
    split
    · rfl
    · rename_i hne
      cases hn : tree.node? n with
      | none => rfl
      | some node =>
        rw [Option.map_some, Node.without_eq_self]
        -- a list that is not its owner's did not have it
        rintro i hi ⟨⟩
        have hmem : id ∈ tree.installed n := by
          unfold installed
          rw [hn]
          exact hi
        obtain ⟨c', hc', -, howner⟩ := (h.listed id n).1 hmem
        rw [hc] at hc'
        cases hc'
        exact hne howner

/-- **Installed where nothing is**, in a tree rid of the old constraint. -/
theorem Rid.install {freed stored : Tree} (h : tree.Rid prior freed)
    (hslot : stored.constraint? slot = some c.idle)
    (hother : ∀ j, j ≠ slot → stored.constraint? j = freed.constraint? j)
    (hn : ∀ n, stored.node? n = freed.node? n) :
    Enforced tree prior c slot owner (stored.install slot owner) where
  constraint? j := by
    rw [constraint?_install]
    by_cases hj : j = slot
    · subst hj
      rw [if_pos rfl, if_pos rfl, hslot]
      rfl
    · rw [if_neg fun he => hj he.symm, if_neg hj, hother j hj, h.constraint?]
  node? n := by
    rw [node?_install, hn, h.node?]
    by_cases howner : owner = n
    · rw [if_pos howner, Option.map_map, if_pos howner.symm]
      rfl
    · rw [if_neg howner, if_neg fun he => howner he.symm]
      simp only [List.append_nil]
      rfl

/-- A constraint that is added is put at the end of the arena. -/
theorem Rid.addConstraint {freed : Tree} (h : tree.Rid prior freed) (hon : c.active = true)
    (ho : tree.ownerFor? c.first c.second = some owner) :
    Enforced tree prior c tree.nextConstraint owner (freed.addConstraint c) := by
  have hnext : freed.nextConstraint = tree.nextConstraint := h.size
  have hstored : (freed.store c).constraint? tree.nextConstraint = some c.idle := by
    rw [constraint?_store, if_pos hnext.symm]
  have howner : (freed.store c).ownerFor? c.idle.first c.idle.second = some owner := by
    rw [(h.shape.trans sameShape_store).ownerFor?_eq]
    exact ho
  rw [addConstraint_eq, if_pos hon, hnext, switch_on_eq hstored rfl howner]
  refine h.install hstored (fun j hj => ?_) fun _ => rfl
  rw [constraint?_store, if_neg (hnext ▸ hj)]

/-- One that is written over the old one stays where that was. -/
theorem Rid.overwrite {freed : Tree} (h : tree.Rid (some id) freed)
    (hid : id < tree.constraints.size) (ho : tree.ownerFor? c.first c.second = some owner) :
    Enforced tree (some id) c id owner ((freed.overwrite id c).switch id true) := by
  have hstored : (freed.overwrite id c).constraint? id = some c.idle := by
    obtain ⟨k, hk⟩ := constraint?_of_lt (h.size ▸ hid : id < freed.constraints.size)
    rw [constraint?_overwrite, if_pos rfl, hk]
    rfl
  have howner : (freed.overwrite id c).ownerFor? c.idle.first c.idle.second = some owner := by
    rw [(h.shape.trans sameShape_overwrite).ownerFor?_eq]
    exact ho
  rw [switch_on_eq hstored rfl howner]
  refine h.install hstored (fun j hj => ?_) fun _ => rfl
  rw [constraint?_overwrite, if_neg fun he => hj he.symm]

/-- **An expression's constraint is put in force** at the position the old
one had, or at the end of the arena, and the old one is rid of. -/
theorem Coherent.enforced (h : tree.Coherent) (modify : Bool) (hon : c.active = true)
    (ho : tree.ownerFor? c.first c.second = some owner) :
    Enforced tree (tree.prior? modify c) c (tree.slotFor (tree.prior? modify c)) owner
      (tree.enforce modify c) := by
  have hcases : tree.enforce modify c =
      match tree.prior? modify c with
      | some prior => (tree.replaceConstraint prior c).1
      | none => tree.addConstraint c := rfl
  rw [hcases]
  cases hprior : tree.prior? modify c with
  | none => exact (rid_none tree).addConstraint hon ho
  | some id =>
    obtain ⟨k, hk, hkon, -⟩ := mem_activeOn.1 (h.mem_activeOn_of_prior? hprior)
    have hrid := h.rid hk hkon
    have hlt : id < (tree.switch id false).constraints.size := by
      rw [size_constraints_switch]
      exact lt_of_constraint? hk
    have hsame : (tree.switch id false).isSnapshotted id = tree.isSnapshotted id := by
      rw [Bool.eq_iff_iff, isSnapshotted_iff, isSnapshotted_iff]
      simp only [snapshot_switch]
    simp only [replaceConstraint_eq, slotFor, hsame, or_iff_left (Nat.not_le_of_lt hlt), if_pos hon]
    split
    · exact hrid.addConstraint hon ho
    · exact hrid.overwrite (lt_of_constraint? hk) ho

/-! ## What is in force afterwards -/

/-- **What holds an attribute** of a node: one constraint in force, or none. -/
def Holds (tree : Tree) (anchor : Anchor) (held : Option (ConstraintId × Constraint)) : Prop :=
  ∀ j k, tree.constraint? j = some k ∧ k.active = true ∧ k.first = anchor ↔ held = some (j, k)

variable {held : Option (ConstraintId × Constraint)}

theorem Holds.mem_activeOn (h : tree.Holds anchor held) :
    j ∈ tree.activeOn anchor ↔ held.map (·.1) = some j := by
  rw [Tree.mem_activeOn]
  constructor
  · rintro ⟨k, hk⟩
    rw [(h j k).1 hk]
    rfl
  · intro hj
    obtain ⟨⟨_, k⟩, rfl, rfl⟩ := Option.map_eq_some_iff.1 hj
    exact ⟨k, (h _ k).2 rfl⟩

theorem Holds.sole (h : tree.Holds anchor held) : tree.Sole anchor := by
  intro i j hi hj
  rw [h.mem_activeOn] at hi hj
  exact Option.some.inj (hi.symm.trans hj)

theorem Holds.activeOn_eq (h : tree.Holds anchor held) :
    tree.activeOn anchor = (held.map (·.1)).toList := by
  have hshort := sole_iff_length_le.1 h.sole
  have hmem : ∀ j, j ∈ tree.activeOn anchor ↔ held.map (·.1) = some j := fun _ => h.mem_activeOn
  generalize tree.activeOn anchor = l at hshort hmem ⊢
  match l with
  | [] =>
    cases hid : held.map (·.1) with
    | none => rfl
    | some id => cases (hmem id).2 hid
  | [i] =>
    rw [(hmem i).1 List.mem_cons_self]
    rfl
  | i :: j :: rest =>
    rw [List.length_cons, List.length_cons] at hshort
    omega

/-- Something or nothing holds an attribute that no two constraints do. -/
theorem Sole.exists_holds (h : tree.Sole anchor) : ∃ held, tree.Holds anchor held := by
  cases hactive : tree.activeOn anchor with
  | nil =>
    refine ⟨none, fun j k => ⟨fun hk => ?_, fun hk => ?_⟩⟩
    · have hj : j ∈ tree.activeOn anchor := Tree.mem_activeOn.2 ⟨k, hk⟩
      rw [hactive] at hj
      cases hj
    · cases hk
  | cons i rest =>
    have hi : i ∈ tree.activeOn anchor := hactive ▸ List.mem_cons_self
    obtain ⟨c, hc⟩ := Tree.mem_activeOn.1 hi
    refine ⟨some (i, c), fun j k => ⟨fun hk => ?_, fun hk => ?_⟩⟩
    · obtain rfl := h i j hi (Tree.mem_activeOn.2 ⟨k, hk⟩)
      obtain rfl := Option.some.inj (hc.1.symm.trans hk.1)
      rfl
    · cases hk
      exact hc

/-- The constraint that holds an attribute is the one a modify replaces. -/
theorem Coherent.prior?_eq (h : tree.Coherent) (hheld : tree.Holds c.first held)
    (hfree : modify = true ∨ held = none) : tree.prior? modify c = held.map (·.1) := by
  cases hprior : tree.prior? modify c with
  | some id => exact (hheld.mem_activeOn.1 (h.mem_activeOn_of_prior? hprior)).symm
  | none =>
    rcases hfree with rfl | rfl
    · have hempty := h.findOnLineage?_eq_none_iff.1 hprior
      cases hid : held.map (·.1) with
      | none => rfl
      | some id =>
        have hmem := hheld.mem_activeOn.2 hid
        rw [hempty] at hmem
        cases hmem
    · rfl

/-- A constraint is put behind all others, or where the old one was. -/
theorem slotFor_cases (tree : Tree) (prior : Option ConstraintId) :
    tree.slotFor prior = tree.constraints.size ∨
      (prior = some (tree.slotFor prior) ∧
        tree.isSnapshotted (tree.slotFor prior) = false) := by
  cases prior with
  | none => exact .inl rfl
  | some id =>
    cases hsnap : tree.isSnapshotted id with
    | true =>
      have hslot : tree.slotFor (some id) = tree.nextConstraint := if_pos hsnap
      exact .inl hslot
    | false =>
      have hslot : tree.slotFor (some id) = id := if_neg (Bool.not_eq_true _ ▸ hsnap)
      rw [hslot]
      exact .inr ⟨rfl, hsnap⟩

/-- What was in force at the position belonged to the same attribute. -/
theorem Coherent.first_of_slotFor (h : tree.Coherent)
    (hk : tree.constraint? (tree.slotFor (tree.prior? modify c)) = some k) :
    k.first = c.first := by
  rcases tree.slotFor_cases (tree.prior? modify c) with hend | ⟨hprior, -⟩
  · exact absurd (lt_of_constraint? hk) (hend ▸ Nat.lt_irrefl _)
  · exact h.first_of_prior? hprior hk

/-- **The attribute is held by its constraint** once that is put in
force. -/
theorem Coherent.holds_constrain (h : tree.Coherent) (hon : c.active = true)
    (ho : tree.ownerFor? c.first c.second = some owner) (hheld : tree.Holds c.first held)
    (hfree : modify = true ∨ held = none) :
    (tree.constrain modify c).Holds c.first
      (some (tree.slotFor (tree.prior? modify c),
        { c with active := true, owner := some owner })) := by
  have henforced := h.enforced modify hon ho
  intro j k
  show (tree.enforce modify c).constraint? j = _ ∧ _ ↔ _
  rw [henforced.constraint?, Option.some.injEq, Prod.mk.injEq]
  constructor
  · rintro ⟨hk, hkon, hfirst⟩
    split at hk
    · rename_i hj
      exact ⟨hj.symm, Option.some.inj hk⟩
    · split at hk
      · obtain ⟨k', -, rfl⟩ := Option.map_eq_some_iff.1 hk
        cases hkon
      · -- it would hold the attribute, and so be the one that is replaced
        rename_i hne
        have hj := hheld.mem_activeOn.1 (mem_activeOn.2 ⟨k, hk, hkon, hfirst⟩)
        exact absurd ((h.prior?_eq hheld hfree).trans hj) hne
  · rintro ⟨rfl, rfl⟩
    rw [if_pos rfl]
    exact ⟨rfl, rfl, rfl⟩

/-- **Constraints of other attributes stay**: neither what is written nor what
was written over is one of them, nor what is switched off. -/
theorem Coherent.constraint?_constrain_of_ne (h : tree.Coherent) (hon : c.active = true)
    (ho : tree.ownerFor? c.first c.second = some owner) (hne : k.first ≠ c.first) :
    (tree.constrain modify c).constraint? j = some k ↔ tree.constraint? j = some k := by
  show (tree.enforce modify c).constraint? j = some k ↔ _
  rw [(h.enforced modify hon ho).constraint?]
  split
  · rename_i hslot
    subst hslot
    refine iff_of_false (fun hk => hne ?_) fun hk => hne (h.first_of_slotFor hk)
    cases hk
    rfl
  · split
    · rename_i hprior
      refine iff_of_false (fun hk => hne ?_) fun hk => hne (h.first_of_prior? hprior hk)
      obtain ⟨old, hold, rfl⟩ := Option.map_eq_some_iff.1 hk
      have hsame : old.first = c.first := h.first_of_prior? hprior hold
      exact hsame
    · exact Iff.rfl

/-- **Every other attribute is held as before.** -/
theorem Coherent.holds_constrain_of_ne (h : tree.Coherent) (hon : c.active = true)
    (ho : tree.ownerFor? c.first c.second = some owner) (hne : anchor ≠ c.first)
    (hheld : tree.Holds anchor held) : (tree.constrain modify c).Holds anchor held := by
  intro j k
  rw [← hheld j k]
  refine and_congr_left fun hk => h.constraint?_constrain_of_ne hon ho ?_
  rw [hk.2]
  exact hne

/-! ## Attributes that are free -/

theorem activeOn_eq_nil_iff : tree.activeOn anchor = [] ↔ tree.Holds anchor none := by
  constructor
  · intro hnil j k
    refine iff_of_false (fun hk => ?_) nofun
    have hj : j ∈ tree.activeOn anchor := mem_activeOn.2 ⟨k, hk⟩
    rw [hnil] at hj
    exact List.not_mem_nil hj
  · intro hholds
    exact hholds.activeOn_eq

/-- **A node yet to come has no constraint** in force. -/
theorem Coherent.activeOn_of_size_le (h : tree.Coherent) (hnew : tree.size ≤ anchor.node) :
    tree.activeOn anchor = [] := by
  refine List.eq_nil_iff_forall_not_mem.2 fun id hid => ?_
  obtain ⟨c, hc, -, hfirst⟩ := mem_activeOn.1 hid
  have hlt := (h.anchored id c hc).first
  rw [hfirst] at hlt
  exact Nat.not_lt_of_le hnew hlt

/-- Where there is nothing to replace, a constraint is added. -/
theorem Coherent.constrain_of_free (h : tree.Coherent) (hfree : tree.activeOn c.first = []) :
    tree.constrain true c = tree.constrain false c := by
  have hnone : tree.findOnLineage? c.first = none := h.findOnLineage?_eq_none_iff.2 hfree
  unfold Tree.constrain
  simp only [hnone, if_true]
  rfl

end Tree

end LiveLayout
