import LiveLayout.Proofs.SnapshotAddresses
import LiveLayout.Proofs.Upkeep
import Mathlib.Data.List.InsertIdx
/-!
# Baselines

A baseline describes the constraints on a node's snapshot list by the
identifiers of the nodes they relate, whichever these are, while a
description resolves identifiers on the node and its children only. That
nothing is lost between the two rests on what can come onto a list: a
constraint that relates the node and its children, along one axis
(`Tree.LocalTo`). Descriptions ask for nothing else, and an insert records
what the new node owns while nothing is below it (`Coherent.localTo`).
-/

namespace LiveLayout

/-! ## Codes -/

@[simp] theorem Attribute.ofSymbol?_code (a : Attribute) :
    ofSymbol? (.code (Int64.ofNat a.code)) = some a := by
  cases a <;> rfl

@[simp] theorem Relation.ofSymbol?_code (r : Relation) :
    ofSymbol? (.code (Int64.ofInt r.code)) = some r := by
  cases r <;> rfl

/-- **Along one axis**: the second anchor, if there is one, lies on the axis
of the first. -/
def Constraint.Aligned (c : Constraint) : Prop :=
  ∀ s, c.second = some s → s.attr.axis = c.first.attr.axis

theorem Constraint.unswitched_aligned : Unswitched Aligned := fun _ _ _ h => h

/-- The description of a constraint, its anchors described. -/
def Constraint.described (c : Constraint) (first : AnchorConfig)
    (second : Option AnchorConfig) (i : Nat) : ConstraintConfig :=
  { first, second
    relation := some (.code (Int64.ofInt c.relation.code))
    constant := some c.constant
    multiplier := some c.multiplier
    isActive := c.active
    priority := c.priority
    idx := some (UInt64.ofNat i)
    added := c.added }

namespace Tree

variable {tree edited : Tree} {registry : Registry} {idx parent n m : NodeIndex}
variable {id : ConstraintId} {node : Node} {position : Option Nat} {c live : Constraint}

/-- **A node and its children**: what a description of the node can name. -/
def Family (tree : Tree) (n m : NodeIndex) : Prop := m = n ∨ m ∈ tree.children n

/-- **A constraint a description can ask for** of a node: it relates the
node and its children, along one axis. -/
structure LocalTo (tree : Tree) (n : NodeIndex) (c : Constraint) : Prop where
  first : tree.Family n c.first.node
  second : ∀ s, c.second = some s → tree.Family n s.node
  aligned : c.Aligned

/-- **Every constraint on a snapshot list is local** to the list's node. -/
def Domestic (tree : Tree) : Prop :=
  ∀ n id c, id ∈ tree.snapshot n → tree.constraint? id = some c → tree.LocalTo n c

/-- **No two of the family share an identifier.** -/
def Distinct (tree : Tree) (n : NodeIndex) : Prop :=
  ∀ a b, tree.Family n a → tree.Family n b →
    (tree.node? a).map (·.id) = (tree.node? b).map (·.id) → a = b

/-! ## What becomes local -/

/-- A constraint between the same anchors is as local, and stays so in a
larger family. -/
theorem LocalTo.of_anchors {later : Constraint} (h : tree.LocalTo n c)
    (hfirst : later.first = c.first) (hsecond : later.second = c.second)
    (hfamily : ∀ m, tree.Family n m → edited.Family n m) : edited.LocalTo n later where
  first := hfamily _ (hfirst ▸ h.first)
  second s hs := hfamily _ (h.second s (hsecond ▸ hs))
  aligned s hs := by
    rw [hfirst]
    exact h.aligned s (hsecond ▸ hs)

/-- An item is looked for in the family. -/
theorem family_of_itemOf? {item : Identifier} (h : tree.itemOf? idx item = some n) :
    tree.Family idx n := by
  obtain ⟨node, -, hitem⟩ := Option.bind_eq_some_iff.1 h
  split at hitem
  · exact .inl (Option.some.inj hitem).symm
  · exact .inr (List.mem_of_find?_eq_some hitem)

theorem family_of_anchorOf? {a : AnchorConfig} {anchor : Anchor}
    (h : tree.anchorOf? idx a = some anchor) : tree.Family idx anchor.node := by
  unfold anchorOf? at h
  split at h
  · rename_i node attr hitem _
    cases h
    obtain ⟨item, -, hitem⟩ := Option.bind_eq_some_iff.1 hitem
    exact family_of_itemOf? hitem
  · cases h

/-- **What a description asks for is local.** -/
theorem localTo_of_toLive? {config : ConstraintConfig} (h : config.toLive? tree idx = some live) :
    tree.LocalTo idx live := by
  unfold ConstraintConfig.toLive? at h
  split at h
  · rename_i first second hfirst hsecond
    split at h
    · rename_i haxis
      cases h
      refine ⟨family_of_anchorOf? hfirst, fun s hs => ?_, fun s hs => ?_⟩
      · obtain rfl : second = some s := hs
        unfold ConstraintConfig.secondAnchor? at hsecond
        split at hsecond
        · cases hsecond
        · obtain ⟨anchor, hanchor, heq⟩ := Option.map_eq_some_iff.1 hsecond
          cases heq
          exact family_of_anchorOf? hanchor
      · obtain rfl : second = some s := hs
        exact of_decide_eq_true haxis
    · cases h
  · cases h

/-- **What an expression asks for** lies along one axis. -/
theorem aligned_of_constraintFor {name text : String}
    (h : tree.constraintFor registry idx name text = .ok c) : c.Aligned := by
  obtain ⟨expression, own, second, -, -, hsecond, rfl⟩ := constraintFor_ok h
  intro s hs
  obtain rfl : second = some s := hs
  cases expression with
  | literal value =>
    simp only [secondFor] at hsecond
    split at hsecond <;> cases hsecond
  | relative target field offset =>
    simp only [secondFor] at hsecond
    split at hsecond
    · cases hsecond
    · split at hsecond
      · cases hsecond
      · split at hsecond
        · rename_i haxis
          cases hsecond
          exact haxis
        · cases hsecond

/-- So every constraint of the arena stays along one axis. -/
theorem Edit.aligned (e : Edit registry idx tree edited)
    (h : tree.Throughout Constraint.Aligned) : edited.Throughout Constraint.Aligned :=
  h.edit e Constraint.unswitched_aligned aligned_of_constraintFor (fun _ _ hc => hc)
    fun hlive => (localTo_of_toLive? hlive).aligned

/-- What is added to the arena has the terms that were asked for. -/
theorem sameTerms_addConstraint (h : (tree.addConstraint c).constraint? tree.nextConstraint =
    some live) : live.SameTerms c := by
  have hstored : (tree.store c).constraint? tree.nextConstraint = some c.idle := by
    rw [constraint?_store, if_pos rfl]
  rw [addConstraint_eq] at h
  split at h
  · obtain ⟨on, owner, hon⟩ :=
      (switch_cases (tree.store c) tree.nextConstraint true).constraint?_self hstored
    cases hon.symm.trans h
    exact ⟨rfl, rfl, rfl, rfl, rfl⟩
  · cases hstored.symm.trans h
    exact ⟨rfl, rfl, rfl, rfl, rfl⟩

/-- **A new address of an edit** is a description's, on the list of the node
the edit is about. -/
theorem Edit.new_address (e : Edit registry idx tree edited)
    (hid : id ∈ edited.snapshot n) (hc : edited.constraint? id = some c) :
    id ∈ tree.snapshot n ∨ tree.LocalTo n c := by
  cases e with
  | style hn hkeep => exact .inl (snapshot_restyle hn hkeep ▸ hid)
  | express modify => exact .inl (snapshot_constrain ▸ hid)
  | update => exact .inl (snapshot_updateConstraint ▸ hid)
  | append _ hlive =>
    rcases mem_snapshot_pushSnapshot hid with hid | ⟨rfl, rfl⟩
    · exact .inl (snapshot_addConstraint ▸ hid)
    · have hsame := sameTerms_addConstraint hc
      exact .inr ((localTo_of_toLive? hlive).of_anchors hsame.first hsame.second fun _ hm => hm)

/-! ## What stays local -/

theorem Edit.family_iff (e : Edit registry idx tree edited) :
    edited.Family n m ↔ tree.Family n m := by
  unfold Family
  rw [e.children_eq]

/-- **Edits keep lists local**: addresses keep their anchors and families
stay as they are. -/
theorem Edit.domestic (e : Edit registry idx tree edited) (h : tree.Domestic)
    (hrecorded : tree.Recorded) : edited.Domestic := by
  intro n id c hid hc
  rcases e.new_address hid hc with hold | hlocal
  · obtain ⟨k, hk⟩ := constraint?_of_lt (hrecorded n id hold)
    obtain ⟨c', hc', hsame⟩ := e.keeps.terms n id k hold hk
    cases hc'.symm.trans hc
    exact (h n id k hold hk).of_anchors hsame.first hsame.second fun _ => e.family_iff.2
  · exact hlocal.of_anchors rfl rfl fun _ => e.family_iff.2

/-- A new node adds to the children of its parent and of no other. -/
theorem mem_children_insertChild (h : m ∈ tree.children n) :
    m ∈ (tree.insertChild parent node position).children n := by
  have hold : tree.children n = (tree.extend parent node).children n := by
    have hne : n ≠ tree.size := by
      rintro rfl
      unfold children at h
      rw [node?_size] at h
      cases h
    unfold children
    rw [node?_extend, if_neg hne]
  rw [hold] at h
  unfold children at h ⊢
  rw [insertChild_eq, node?_modifyNode]
  split
  · cases hn : (tree.extend parent node).node? n with
    | none =>
      rw [hn] at h
      cases h
    | some old =>
      rw [hn] at h
      exact List.subset_insertIdx _ _ _ h
  · exact h

theorem Domestic.insertChild (h : tree.Domestic) (hbare : node.snapshot = []) :
    (tree.insertChild parent node position).Domestic := by
  intro n id c hid hc
  rw [snapshot_insertChild hbare] at hid
  exact (h n id c hid hc).of_anchors rfl rfl fun m hm => hm.imp_right mem_children_insertChild

/-- **What the newest node owns is local to it**: it is the nearest common
ancestor of the nodes related, and no node is below it. -/
theorem Coherent.localTo (h : tree.Coherent) (hc : tree.constraint? id = some c)
    (haligned : c.Aligned) (howner : c.owner = some n) (hlast : tree.size = n + 1) :
    tree.LocalTo n c := by
  have hanchored := h.anchored id c hc
  have hbelongs := h.toRooted.belongs_of_ownerFor? (h.home id c n hc howner)
  have only : ∀ m, m < tree.size → tree.Ancestor n m → tree.Family n m := by
    intro m hm hbelow
    rw [hlast] at hm
    exact .inl (Nat.le_antisymm (Nat.le_of_lt_succ hm) (hbelow.le h.toRooted))
  unfold Belongs at hbelongs
  split at hbelongs
  · rename_i second hs
    refine ⟨only _ hanchored.first hbelongs.left, fun s hs' => ?_, haligned⟩
    cases hs.symm.trans hs'
    exact only _ (hanchored.second second hs) hbelongs.right
  · rename_i hs
    refine ⟨.inl hbelongs.symm, fun s hs' => ?_, haligned⟩
    cases hs.symm.trans hs'

/-- So recording the newest node's constraints keeps lists local. -/
theorem Domestic.captureSnapshot (h : tree.Domestic) (hcoherent : tree.Coherent)
    (haligned : tree.Throughout Constraint.Aligned) (hlast : tree.size = idx + 1) :
    (tree.captureSnapshot idx).Domestic := by
  have family : ∀ n m, tree.Family n m → (tree.captureSnapshot idx).Family n m := by
    intro n m hm
    unfold Family
    rw [(reads_captureSnapshot beside_children).children_eq]
    exact hm
  intro n id c hid hc
  rw [snapshot_captureSnapshot] at hid
  have hlocal : tree.LocalTo n c := by
    split at hid
    · rename_i heq
      subst heq
      obtain ⟨c', hc', -, howner⟩ := (hcoherent.listed id idx).1 hid
      cases hc'.symm.trans hc
      exact hcoherent.localTo hc (haligned id c hc) howner hlast
    · exact h n id c hid hc
  exact hlocal.of_anchors rfl rfl (family n)

/-! ## Descriptions made -/

/-- An anchor of the tree is described by its node's identifier. -/
theorem describeAnchor?_of_lt {anchor : Anchor} (h : anchor.node < tree.size) :
    ∃ node, tree.node? anchor.node = some node ∧
      ConstraintConfig.describeAnchor? tree anchor =
        some ⟨some node.id, some (.code (Int64.ofNat anchor.attr.code))⟩ := by
  obtain ⟨node, hnode⟩ := node?_of_lt h
  refine ⟨node, hnode, ?_⟩
  unfold ConstraintConfig.describeAnchor?
  rw [hnode]
  rfl

theorem describeSecond?_of_anchored (h : tree.Anchored c) :
    ∃ b, ConstraintConfig.describeSecond? tree c.second = some b := by
  cases hs : c.second with
  | none => exact ⟨none, rfl⟩
  | some s =>
    obtain ⟨node, -, hb⟩ := describeAnchor?_of_lt (h.second s hs)
    exact ⟨some _, congrArg (Option.map some) hb⟩

/-- **A constraint between nodes of the tree is described**, by what
describes its anchors. -/
theorem ofLive?_of_anchored (h : tree.Anchored c) (hc : tree.constraint? id = some c) (i : Nat) :
    ∃ a b, ConstraintConfig.describeAnchor? tree c.first = some a ∧
      ConstraintConfig.describeSecond? tree c.second = some b ∧
      ConstraintConfig.ofLive? tree id i = some (c.described a b i) := by
  obtain ⟨node, -, ha⟩ := describeAnchor?_of_lt h.first
  obtain ⟨b, hb⟩ := describeSecond?_of_anchored h
  refine ⟨_, b, ha, hb, ?_⟩
  simp only [ConstraintConfig.ofLive?, hc, Option.bind_some, ha, hb, Constraint.described]

/-- A list none of whose members is left out keeps its positions. -/
theorem getElem?_filterMap_of_isSome {α β : Type} {f : α → Option β} {l : List α}
    (h : ∀ a ∈ l, (f a).isSome = true) (i : Nat) : (l.filterMap f)[i]? = l[i]?.bind f := by
  induction l generalizing i with
  | nil => rfl
  | cons a rest ih =>
    obtain ⟨b, hb⟩ := Option.isSome_iff_exists.1 (h a List.mem_cons_self)
    rw [List.filterMap_cons_some hb]
    cases i with
    | zero => exact hb.symm
    | succ i => exact ih (fun a ha => h a (List.mem_cons_of_mem _ ha)) i

/-- **Everything on a snapshot list is described.** -/
theorem Coherent.isSome_ofLive? (h : tree.Coherent) (hrecorded : tree.Recorded)
    (entry : ConstraintId × Nat) (hentry : entry ∈ (tree.snapshot n).zipIdx) :
    (ConstraintConfig.ofLive? tree entry.1 entry.2).isSome = true := by
  have hid := List.mem_of_getElem? (List.mem_zipIdx_iff_getElem?.1 hentry)
  obtain ⟨c, hc⟩ := constraint?_of_lt (hrecorded n entry.1 hid)
  obtain ⟨a, b, -, -, hlive⟩ := ofLive?_of_anchored (h.anchored entry.1 c hc) hc entry.2
  exact Option.isSome_iff_exists.2 ⟨_, hlive⟩

/-- **A baseline has a description at each position** of the list, and no
other. -/
theorem Coherent.length_baseline (h : tree.Coherent) (hrecorded : tree.Recorded)
    (n : NodeIndex) : (tree.baseline n).length = (tree.snapshot n).length := by
  unfold baseline
  rw [List.filterMap_length_eq_length.2 (h.isSome_ofLive? hrecorded), List.length_zipIdx]

theorem Coherent.getElem?_baseline (h : tree.Coherent) (hrecorded : tree.Recorded)
    (n : NodeIndex) (i : Nat) :
    (tree.baseline n)[i]? =
      (tree.snapshot n)[i]?.bind fun id => ConstraintConfig.ofLive? tree id i := by
  unfold baseline
  rw [getElem?_filterMap_of_isSome (h.isSome_ofLive? hrecorded), List.getElem?_zipIdx,
    Option.bind_map, Nat.zero_add]
  rfl

/-! ## Descriptions resolved -/

/-- **A member of the family is found by its identifier**, where no two of
the family share one. -/
theorem Distinct.itemOf? (h : tree.Distinct n) (hm : tree.Family n m) {member node : Node}
    (hmember : tree.node? m = some member) (hnode : tree.node? n = some node) :
    tree.itemOf? n member.id = some m := by
  unfold Tree.itemOf?
  rw [hnode]
  show (if node.id = member.id then some n else tree.childWithId? n member.id) = some m
  split
  · rename_i heq
    have hself : tree.Family n n := .inl rfl
    rw [h n m hself hm (by rw [hnode, hmember]; exact congrArg some heq)]
  · rename_i hne
    have hchild : m ∈ tree.children n := by
      refine hm.resolve_left ?_
      rintro rfl
      cases hnode.symm.trans hmember
      exact hne rfl
    cases hfound : tree.childWithId? n member.id with
    | none =>
      -- `m` itself would have been found
      have hmiss := List.find?_eq_none.1 hfound m hchild
      rw [hmember] at hmiss
      exact absurd (beq_self_eq_true member.id) hmiss
    | some other =>
      have hsame : (tree.node? other).any (·.id == member.id) = true :=
        (List.find?_eq_some_iff_append.1 hfound).1
      obtain ⟨found, hget⟩ := node?_of_lt (isSome_node?.1 (Option.isSome_of_any hsame))
      rw [hget] at hsame
      have hids : (tree.node? other).map (·.id) = (tree.node? m).map (·.id) := by
        rw [hget, hmember]
        exact congrArg some (eq_of_beq hsame)
      rw [h other m (.inr (List.mem_of_find?_eq_some hfound)) hm hids]

/-- **An anchor described and resolved** is the anchor. -/
theorem Distinct.anchorOf? (h : tree.Distinct n) {anchor : Anchor} {a : AnchorConfig}
    (hm : tree.Family n anchor.node) (hn : n < tree.size) (hanchor : anchor.node < tree.size)
    (ha : ConstraintConfig.describeAnchor? tree anchor = some a) :
    tree.anchorOf? n a = some anchor := by
  obtain ⟨node, hnode⟩ := node?_of_lt hn
  obtain ⟨member, hmember, hdescribed⟩ := describeAnchor?_of_lt hanchor
  cases hdescribed.symm.trans ha
  unfold Tree.anchorOf?
  simp only [Option.bind_some, h.itemOf? hm hmember hnode, Attribute.ofSymbol?_code]

/-- The same of a second anchor, whatever the rest of the description. -/
theorem Distinct.secondAnchor? (h : tree.Distinct n) (hlocal : tree.LocalTo n c)
    (hn : n < tree.size) (hanchored : tree.Anchored c) {config : ConstraintConfig}
    (hb : ConstraintConfig.describeSecond? tree c.second = some config.second) :
    config.secondAnchor? tree n = some c.second := by
  unfold ConstraintConfig.secondAnchor?
  cases hs : c.second with
  | none =>
    rw [hs] at hb
    rw [← Option.some.inj hb]
  | some s =>
    rw [hs] at hb
    obtain ⟨b, hb, heq⟩ := Option.map_eq_some_iff.1 hb
    rw [← heq]
    exact congrArg (Option.map some)
      (h.anchorOf? (hlocal.second s hs) hn (hanchored.second s hs) hb)

/-- **A local constraint described and asked for** is the constraint, without
its owner. -/
theorem Distinct.toLive? (h : tree.Distinct n) (hn : n < tree.size) (hlocal : tree.LocalTo n c)
    (hanchored : tree.Anchored c) (hc : tree.constraint? id = some c) (i : Nat) :
    ∃ config, ConstraintConfig.ofLive? tree id i = some config ∧
      config.idx = some (UInt64.ofNat i) ∧
      config.toLive? tree n = some { c with owner := none } := by
  obtain ⟨a, b, ha, hb, hlive⟩ := ofLive?_of_anchored hanchored hc i
  have hfirst : tree.anchorOf? n (c.described a b i).first = some c.first :=
    h.anchorOf? hlocal.first hn hanchored.first ha
  have hsecond : (c.described a b i).secondAnchor? tree n = some c.second :=
    h.secondAnchor? hlocal hn hanchored hb
  have haligned : (c.second.all fun s => s.attr.axis = c.first.attr.axis) = true := by
    cases hs : c.second with
    | none => rfl
    | some s => exact decide_eq_true (hlocal.aligned s hs)
  refine ⟨c.described a b i, hlive, rfl, ?_⟩
  unfold ConstraintConfig.toLive?
  rw [hfirst, hsecond]
  simp only [haligned, if_true, Constraint.described, Option.bind_some, Relation.ofSymbol?_code,
    Option.getD_some]

/-- **What baselines rest on**: lists are local, and so is along one axis
whatever may come onto one. -/
structure Describable (tree : Tree) : Prop where
  domestic : tree.Domestic
  aligned : tree.Throughout Constraint.Aligned

theorem Describable.edits (h : tree.Describable) (hrecorded : tree.Recorded)
    (e : Edits registry idx tree edited) : edited.Describable := by
  induction e with
  | refl => exact h
  | tail before e ih =>
    exact ⟨e.domestic ih.domestic (Edits.recorded before hrecorded), e.aligned ih.aligned⟩

end Tree

/-! ## Sessions -/

namespace Session

variable {session : Session}

/-- **An entry keeps what baselines rest on.** -/
theorem describable_apply (hsound : session.engine.Sound) (h : session.engine.tree.Describable)
    (entry : Json) : (session.apply entry).1.engine.tree.Describable := by
  have hcases := session.apply_cases entry
  generalize (session.apply entry).1.engine = engine at hcases ⊢
  cases hcases with
  | refused => exact h
  | @inserted id parent type view hr =>
    have hp : parent < session.engine.tree.size := hsound.within _ _ (resolve_insert hr).1
    have hplanted : (session.engine.planted id parent type view).tree.Describable :=
      ⟨h.domestic.insertChild rfl, h.aligned⟩
    have hfilled := hplanted.edits (hsound.planted hp id type view).recorded
      (Engine.edited_filled session.engine id parent type view).tree
    rw [Engine.insert_eq]
    exact ⟨hfilled.domestic.captureSnapshot (hsound.filled hp id type view).coherent
      hfilled.aligned (session.engine.size_filled id parent type view), hfilled.aligned⟩
  | modified => exact h.edits hsound.recorded (Engine.edited_modify ..).tree

theorem Reached.describable (h : session.Reached) : session.engine.tree.Describable := by
  induction h with
  | initial config images known =>
    refine ⟨fun n id c _ hc => ?_, fun id c hc => ?_⟩ <;> cases hc
  | @tweak session changes hreached ih =>
    have hrun := tweak_rel
      (fun s s' => s.engine.Sound → s.engine.tree.Describable →
        s'.engine.Sound ∧ s'.engine.tree.Describable)
      (fun _ hs h => ⟨hs, h⟩) (fun hab hbc hs h => hbc (hab hs h).1 (hab hs h).2)
      (fun _ entry hs h => ⟨sound_apply hs entry, describable_apply hs h entry⟩) session changes
    exact (hrun hreached.sound ih).2

/-- **A captured baseline rebuilds its constraints.** In a session that was
reached, whatever a snapshot list addresses relates the list's node and its
children along one axis. The baseline of a node that can be addressed has
one description for each position of the list, which carries the position;
where no two of the node and its children share an identifier, asking for
it on the node gives the addressed constraint in every field but the
owner. -/
theorem baseline_rebuilds (h : session.Reached) :
    session.engine.tree.Domestic ∧
      ∀ name n, session.engine.registry.lookup? name = some n → session.engine.tree.Distinct n →
        ∃ configs, session.baseline? name = some configs ∧
          configs.length = (session.engine.tree.snapshot n).length ∧
          ∀ (i : Nat) id, (session.engine.tree.snapshot n)[i]? = some id →
            ∃ c config, session.engine.tree.constraint? id = some c ∧
              configs[i]? = some config ∧ config.idx = some (UInt64.ofNat i) ∧
              config.toLive? session.engine.tree n = some { c with owner := none } := by
  refine ⟨h.describable.domestic, fun name n hname hdistinct => ?_⟩
  have hn := h.sound.within name n hname
  -- what is on the list is described, and the description rebuilds it
  have hrebuilt : ∀ id ∈ session.engine.tree.snapshot n, ∀ i, ∃ c config,
      session.engine.tree.constraint? id = some c ∧
      ConstraintConfig.ofLive? session.engine.tree id i = some config ∧
      config.idx = some (UInt64.ofNat i) ∧
      config.toLive? session.engine.tree n = some { c with owner := none } := by
    intro id hid i
    obtain ⟨c, hc⟩ := Tree.constraint?_of_lt (h.sound.recorded n id hid)
    obtain ⟨config, hdescribed, hidx, hlive⟩ := hdistinct.toLive? hn
      (h.describable.domestic n id c hid hc) (h.sound.coherent.anchored id c hc) hc i
    exact ⟨c, config, hc, hdescribed, hidx, hlive⟩
  refine ⟨session.engine.tree.baseline n, ?_,
    h.sound.coherent.length_baseline h.sound.recorded n, fun i id hi => ?_⟩
  · unfold baseline?
    rw [hname]
    rfl
  · obtain ⟨c, config, hc, hdescribed, hidx, hlive⟩ := hrebuilt id (List.mem_of_getElem? hi) i
    refine ⟨c, config, hc, ?_, hidx, hlive⟩
    rw [h.sound.coherent.getElem?_baseline h.sound.recorded, hi]
    exact hdescribed

/-- Entries that insert a square card, put an icon on it and, by a
description, align the two at their tops. -/
def cardBuilt : List Json :=
  [.object [("operation", .string "insert"),
      ("view", .object [("constraints", .object [("width", .string "$(self).height")]),
        ("id", .string "card"), ("superview", .string "root"), ("type", .string "View")])],
    .object [("operation", .string "insert"),
      ("view", .object [("id", .string "icon"), ("superview", .string "card"),
        ("type", .string "ImageView")])],
    .object [("operation", .string "modify"),
      ("view", .object [("constraints", .array [.object
          [("first", .object [("attribute", .string "top"), ("item", .string "icon")]),
            ("second", .object [("attribute", .string "top"), ("item", .string "card")])]]),
        ("id", .string "card")])]]

/-- The card's baseline has two descriptions, the square's and the
alignment's, and the second rebuilds a constraint of the icon. -/
theorem baseline_rebuilds_card :
    let session := ((initial .standard .none).tweak cardBuilt).1
    session.Reached ∧ session.engine.registry.lookup? "card" = some 1 ∧
      session.engine.tree.Distinct 1 ∧ session.engine.tree.snapshot 1 = [0, 1] ∧
      ∃ configs, session.baseline? "card" = some configs ∧ configs.length = 2 ∧
        ∃ c config, session.engine.tree.constraint? 1 = some c ∧ configs[1]? = some config ∧
          config.idx = some 1 ∧ c.first.node = 2 ∧
          config.toLive? session.engine.tree 1 = some { c with owner := none } := by
  intro session
  have hreached : session.Reached := .tweak _ (.initial _ _ _)
  have hcard : session.engine.registry.lookup? "card" = some 1 := by decide +kernel
  have hsnapshot : session.engine.tree.snapshot 1 = [0, 1] := by decide +kernel
  have hchildren : session.engine.tree.children 1 = [2] := by decide +kernel
  have hids : (session.engine.tree.node? 1).map (·.id) ≠
      (session.engine.tree.node? 2).map (·.id) := by
    decide +kernel
  have hdistinct : session.engine.tree.Distinct 1 := by
    intro a b ha hb hsame
    unfold Tree.Family at ha hb
    rw [hchildren, List.mem_singleton] at ha hb
    rcases ha with rfl | rfl <;> rcases hb with rfl | rfl
    · rfl
    · exact absurd hsame hids
    · exact absurd hsame.symm hids
    · rfl
  obtain ⟨configs, hconfigs, hlength, hrebuilt⟩ :=
    (baseline_rebuilds hreached).2 "card" 1 hcard hdistinct
  have hsecond : (session.engine.tree.snapshot 1)[1]? = some 1 := by
    rw [hsnapshot]
    rfl
  obtain ⟨c, config, hc, hconfig, hidx, hlive⟩ := hrebuilt 1 1 hsecond
  have hfirst : (session.engine.tree.constraint? 1).map (·.first.node) = some 2 := by
    decide +kernel
  rw [hc] at hfirst
  exact ⟨hreached, hcard, hdistinct, hsnapshot, configs, hconfigs, hlength.trans (hsnapshot ▸ rfl),
    c, config, hc, hconfig, hidx, Option.some.inj hfirst, hlive⟩

end Session

end LiveLayout
