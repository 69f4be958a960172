import LiveLayout.Proofs.Idempotence
/-!
# The expressions of one node on two trees

What the expressions of a node read of the arena, and what they write, are
the constraints that start at it. So on two trees that have these alike, up
to the positions of those appended since some point, they do the same
(`Mirrors.constrain`), and the expressions of another node come between
without a difference (`Agrees.constrain`). The search for a constraint to
replace looks at one list of each node only, the constraints installed there
that start at the anchor (`heldAt`), and of these nothing else changes the
order.
-/

namespace LiveLayout

namespace Tree

variable {tree other last : Tree} {idx n owner : NodeIndex} {id j : ConstraintId}
variable {c k : Constraint} {anchor : Anchor} {modify : Bool} {accepted : List Acceptance}

/-! ## What holds an attribute, node by node -/

/-- **The constraints installed on a node that start at an anchor**, in their
order. -/
def heldAt (tree : Tree) (n : NodeIndex) (anchor : Anchor) : List ConstraintId :=
  (tree.installed n).filter fun id => (tree.constraint? id).any (·.first = anchor)

theorem mem_heldAt : id ∈ tree.heldAt n anchor ↔
    id ∈ tree.installed n ∧ ∃ c, tree.constraint? id = some c ∧ c.first = anchor := by
  unfold heldAt
  rw [List.mem_filter]
  refine and_congr_right fun _ => ?_
  cases tree.constraint? id with
  | none => simp only [Option.any_none, Bool.false_eq_true, reduceCtorEq, false_and, exists_false]
  | some c => simp only [Option.any_some, decide_eq_true_eq, Option.some.injEq, exists_eq_left']

/-- The search of a lineage looks at the first of each of these lists. -/
theorem findOnLineage?_eq (tree : Tree) (anchor : Anchor) :
    tree.findOnLineage? anchor =
      (tree.ancestors anchor.node).findSome? fun n => (tree.heldAt n anchor).head? := by
  unfold findOnLineage? findInstalled? heldAt
  simp only [List.head?_filter]

/-- **Putting a constraint in force** takes the old one off the list of its
anchor and sets the new one at the end of one. -/
theorem Coherent.heldAt_constrain (h : tree.Coherent) (hon : c.active = true)
    (ho : tree.ownerFor? c.first c.second = some owner) (hlt : owner < tree.size)
    (n : NodeIndex) (anchor : Anchor) :
    (tree.constrain modify c).heldAt n anchor =
      (tree.heldAt n anchor).filter (fun i => some i != tree.prior? modify c) ++
        if n = owner ∧ c.first = anchor then [tree.slotFor (tree.prior? modify c)] else [] := by
  have henforced := h.enforced modify hon ho
  have hget : ∀ i, (tree.constrain modify c).constraint? i = (tree.enforce modify c).constraint? i :=
    fun _ => rfl
  unfold heldAt
  rw [h.installed_constrain hon ho hlt, List.filter_append]
  congr 1
  · rw [List.filter_filter, List.filter_filter]
    refine List.filter_congr fun i hi => ?_
    rw [Bool.and_comm]
    by_cases hprior : some i = tree.prior? modify c
    · simp only [hprior, bne_self_eq_false, Bool.false_and]
    · -- what is on a list is not what is written
      have hslot : i ≠ tree.slotFor (tree.prior? modify c) := by
        obtain ⟨k, hk, -, -⟩ := (h.listed i n).1 hi
        rcases tree.slotFor_cases (tree.prior? modify c) with hend | ⟨hwritten, -⟩
        · exact hend ▸ Nat.ne_of_lt (lt_of_constraint? hk)
        · rintro heq
          exact hprior ((congrArg some heq).trans hwritten.symm)
      rw [hget, henforced.constraint?, if_neg hslot, if_neg fun he => hprior he.symm]
  · by_cases howner : n = owner
    · rw [if_pos howner]
      have hself : (tree.constrain modify c).constraint? (tree.slotFor (tree.prior? modify c)) =
          some { c with active := true, owner := some owner } := by
        rw [hget, henforced.constraint?, if_pos rfl]
      by_cases hfirst : c.first = anchor
      · rw [if_pos ⟨howner, hfirst⟩, List.filter_cons_of_pos, List.filter_nil]
        rw [hself, Option.any_some]
        exact decide_eq_true hfirst
      · rw [if_neg fun hboth => hfirst hboth.2, List.filter_cons_of_neg, List.filter_nil]
        rw [hself, Option.any_some]
        exact fun htrue => hfirst (of_decide_eq_true htrue)
    · rw [if_neg howner, if_neg fun hboth => howner hboth.1, List.filter_nil]

/-- The lists of other anchors stay. -/
theorem Coherent.heldAt_constrain_of_ne (h : tree.Coherent) (hon : c.active = true)
    (ho : tree.ownerFor? c.first c.second = some owner) (hlt : owner < tree.size)
    (hne : c.first ≠ anchor) (n : NodeIndex) :
    (tree.constrain modify c).heldAt n anchor = tree.heldAt n anchor := by
  rw [h.heldAt_constrain hon ho hlt, if_neg fun hboth => hne hboth.2, List.append_nil]
  refine List.filter_eq_self.2 fun i hi => bne_iff_ne.2 fun hprior => hne ?_
  obtain ⟨-, k, hk, hfirst⟩ := mem_heldAt.1 hi
  exact (h.first_of_prior? hprior.symm hk).symm.trans hfirst

/-- In the arena then is what was there, and where the constraint is put. -/
theorem Coherent.lt_size_constraints_constrain (h : tree.Coherent) (hon : c.active = true)
    (ho : tree.ownerFor? c.first c.second = some owner) (j : ConstraintId) :
    j < (tree.constrain modify c).constraints.size ↔
      j = tree.slotFor (tree.prior? modify c) ∨ j < tree.constraints.size := by
  have hsome : ∀ t : Tree, j < t.constraints.size ↔ (t.constraint? j).isSome := by
    intro t
    unfold constraint?
    rw [isSome_getElem?]
  have hget : (tree.constrain modify c).constraint? j = (tree.enforce modify c).constraint? j := rfl
  rw [hsome, hsome, hget, (h.enforced modify hon ho).constraint?]
  by_cases hslot : j = tree.slotFor (tree.prior? modify c)
  · rw [if_pos hslot]
    exact iff_of_true rfl (.inl hslot)
  · rw [if_neg hslot, or_iff_right hslot]
    split
    · rw [Option.isSome_map]
    · exact Iff.rfl

/-- The arena is longer by one exactly if the constraint is put at its
end. -/
theorem Coherent.size_constraints_constrain (h : tree.Coherent) (hon : c.active = true)
    (ho : tree.ownerFor? c.first c.second = some owner) :
    (tree.constrain modify c).constraints.size =
      if tree.slotFor (tree.prior? modify c) = tree.constraints.size then
        tree.constraints.size + 1
      else tree.constraints.size := by
  have hin := @lt_size_constraints_constrain tree owner c modify h hon ho
  rcases tree.slotFor_cases (tree.prior? modify c) with hend | ⟨hprior, -⟩
  · rw [if_pos hend]
    rw [hend] at hin
    generalize (tree.constrain modify c).constraints.size = after at hin ⊢
    refine Nat.le_antisymm (Nat.le_of_not_lt fun hlt => ?_) ?_
    · rcases (hin _).1 hlt with heq | hless
      · exact absurd heq (Nat.succ_ne_self _)
      · exact absurd hless (Nat.not_lt_of_le (Nat.le_succ _))
    · exact (hin _).2 (.inl rfl)
  · obtain ⟨k, hk, -, -⟩ := mem_activeOn.1 (h.mem_activeOn_of_prior? hprior)
    have hless := lt_of_constraint? hk
    rw [if_neg (Nat.ne_of_lt hless)]
    refine Nat.le_antisymm (Nat.le_of_not_lt fun hlt => ?_) le_size_constraints_constrain
    rcases (hin _).1 hlt with heq | hself
    · exact absurd (heq ▸ hless) (Nat.lt_irrefl _)
    · exact absurd hself (Nat.lt_irrefl _)

/-! ## What the expressions of other nodes leave alone -/

/-- **Two trees that have the constraints starting at a node alike**, on the
same lists in the same order. -/
structure Agrees (idx : NodeIndex) (tree other : Tree) : Prop where
  shape : tree.SameShape other
  snapshot : ∀ n, other.snapshot n = tree.snapshot n
  size : tree.constraints.size ≤ other.constraints.size
  held : ∀ n anchor, anchor.node = idx → other.heldAt n anchor = tree.heldAt n anchor
  constraint? : ∀ id c, c.first.node = idx →
    (other.constraint? id = some c ↔ tree.constraint? id = some c)

namespace Agrees

theorem refl (tree : Tree) : tree.Agrees idx tree :=
  ⟨.refl tree, fun _ => rfl, Nat.le_refl _, fun _ _ _ => rfl, fun _ _ _ => Iff.rfl⟩

theorem trans (h : Agrees idx tree other) (h' : Agrees idx other last) : Agrees idx tree last where
  shape := h.shape.trans h'.shape
  snapshot n := (h'.snapshot n).trans (h.snapshot n)
  size := Nat.le_trans h.size h'.size
  held n anchor hnode := (h'.held n anchor hnode).trans (h.held n anchor hnode)
  constraint? id c hfirst := (h'.constraint? id c hfirst).trans (h.constraint? id c hfirst)

end Agrees

/-- **An expression of another node keeps them.** What it replaces starts at
the other node, too. -/
theorem Coherent.agrees_constrain (h : tree.Coherent) (hc : tree.Anchored c)
    (hon : c.active = true) (hfirst : c.first.node ≠ idx) :
    tree.Agrees idx (tree.constrain modify c) := by
  obtain ⟨owner, ho, hlt⟩ := h.exists_ownerFor? hc
  refine ⟨sameShape_constrain, fun _ => snapshot_constrain, le_size_constraints_constrain,
    fun n anchor hnode => ?_, fun j k hk => ?_⟩
  · refine h.heldAt_constrain_of_ne hon ho hlt (fun heq => hfirst ?_) n
    rw [heq]
    exact hnode
  · refine h.constraint?_constrain_of_ne hon ho fun heq => hfirst ?_
    rw [← heq]
    exact hk

theorem Coherent.agrees_constrainAll (h : tree.Coherent)
    (hanchored : ∀ a ∈ accepted, tree.Anchored a.constraint)
    (hother : ∀ a ∈ accepted, a.target.node ≠ idx) :
    tree.Agrees idx (tree.constrainAll modify accepted) := by
  induction accepted generalizing tree with
  | nil => exact .refl tree
  | cons a rest ih =>
    have ha := hanchored a List.mem_cons_self
    have hstep : tree.Agrees idx (tree.constrain modify a.constraint) :=
      h.agrees_constrain ha rfl (hother a List.mem_cons_self)
    have hrest := ih (h.constrain modify ha)
      (fun b hb => hstep.shape.anchored (hanchored b (List.mem_cons_of_mem _ hb)))
      fun b hb => hother b (List.mem_cons_of_mem _ hb)
    exact hstep.trans hrest

/-! ## The same expressions on two trees -/

/-- **A position as the other tree has it**: those appended since the base
are moved on. -/
def moved (base shift id : Nat) : Nat :=
  if id < base then id else id + shift

theorem moved_of_lt {base shift id : Nat} (h : id < base) : moved base shift id = id := if_pos h

theorem moved_of_le {base shift id : Nat} (h : base ≤ id) : moved base shift id = id + shift :=
  if_neg (Nat.not_lt_of_le h)

theorem moved_injective (base shift : Nat) : Function.Injective (moved base shift) := by
  intro i j hij
  unfold moved at hij
  split at hij
  · split at hij <;> omega
  · split at hij <;> omega

/-- **Two trees that mirror each other** in the constraints starting at a
node: these are the same, on the same lists in the same order, but for the
positions of those appended since the base. -/
structure Mirrors (idx : NodeIndex) (base shift : Nat) (tree other : Tree) : Prop where
  shape : tree.SameShape other
  snapshot : ∀ n, other.snapshot n = tree.snapshot n
  recorded : ∀ n, ∀ id ∈ tree.snapshot n, id < base
  le_size : base ≤ tree.constraints.size
  size : other.constraints.size = tree.constraints.size + shift
  held : ∀ n anchor, anchor.node = idx →
    other.heldAt n anchor = (tree.heldAt n anchor).map (moved base shift)
  constraint? : ∀ j c, c.first.node = idx →
    (other.constraint? j = some c ↔ ∃ i, j = moved base shift i ∧ tree.constraint? i = some c)

/-- Where they are alike, nothing was appended since. -/
theorem Agrees.mirrors (h : Agrees idx tree other) (hrec : tree.Recorded) :
    Mirrors idx tree.constraints.size (other.constraints.size - tree.constraints.size) tree
      other where
  shape := h.shape
  snapshot := h.snapshot
  recorded := hrec
  le_size := Nat.le_refl _
  size := (Nat.add_sub_cancel' h.size).symm
  held n anchor hnode := by
    have hself : ∀ i ∈ tree.heldAt n anchor, moved tree.constraints.size
        (other.constraints.size - tree.constraints.size) i = id i := by
      intro i hi
      obtain ⟨-, k, hk, -⟩ := mem_heldAt.1 hi
      exact moved_of_lt (lt_of_constraint? hk)
    rw [h.held n anchor hnode, List.map_congr_left hself, List.map_id]
  constraint? j c hfirst := by
    rw [h.constraint? j c hfirst]
    constructor
    · intro hc
      exact ⟨j, (moved_of_lt (lt_of_constraint? hc)).symm, hc⟩
    · rintro ⟨i, rfl, hc⟩
      rw [moved_of_lt (lt_of_constraint? hc)]
      exact hc

namespace Mirrors

variable {base shift : Nat}

/-- What a constraint replaces in one tree, it replaces in the other. -/
theorem prior? (h : Mirrors idx base shift tree other) (hfirst : c.first.node = idx) :
    other.prior? modify c = (tree.prior? modify c).map (moved base shift) := by
  unfold Tree.prior?
  cases modify with
  | false => rfl
  | true =>
    simp only [if_true, findOnLineage?_eq, List.map_findSome?, h.shape.ancestors_eq]
    refine congrArg (fun f => List.findSome? f _) (funext fun n => ?_)
    rw [h.held n c.first hfirst, List.head?_map]
    rfl

/-- And where it is put in one, it is put in the other. -/
theorem slotFor_prior? (h : Mirrors idx base shift tree other) (hfirst : c.first.node = idx) :
    other.slotFor (other.prior? modify c) =
      moved base shift (tree.slotFor (tree.prior? modify c)) := by
  have hend : other.nextConstraint = moved base shift tree.nextConstraint :=
    h.size.trans (moved_of_le h.le_size).symm
  rw [h.prior? hfirst]
  cases tree.prior? modify c with
  | none => exact hend
  | some p =>
    have hsame : other.isSnapshotted (moved base shift p) = tree.isSnapshotted p := by
      rw [Bool.eq_iff_iff, isSnapshotted_iff, isSnapshotted_iff]
      refine exists_congr fun n => ?_
      rw [h.snapshot]
      by_cases hp : p < base
      · rw [moved_of_lt hp]
      · -- neither is addressed by a list
        rw [moved_of_le (Nat.le_of_not_lt hp)]
        refine iff_of_false (fun hmem => hp ?_) fun hmem => hp (h.recorded n p hmem)
        exact Nat.lt_of_le_of_lt (Nat.le_add_right p shift) (h.recorded n _ hmem)
    unfold slotFor
    simp only [Option.map_some, hsame]
    split
    · exact hend
    · rfl

/-- What is at a position then is at the position that mirrors it. -/
theorem constraint?_constrain (h : Mirrors idx base shift tree other) (ht : tree.Coherent)
    (hot : other.Coherent) (hon : c.active = true) (hfirst : c.first.node = idx)
    (ho : tree.ownerFor? c.first c.second = some owner) (j : ConstraintId) (k : Constraint)
    (hk : k.first.node = idx) :
    (other.constrain modify c).constraint? j = some k ↔
      ∃ i, j = moved base shift i ∧ (tree.constrain modify c).constraint? i = some k := by
  have ho' : other.ownerFor? c.first c.second = some owner := by
    rw [h.shape.ownerFor?_eq]
    exact ho
  show (other.enforce modify c).constraint? j = some k ↔
    ∃ i, j = moved base shift i ∧ (tree.enforce modify c).constraint? i = some k
  have hget := (ht.enforced modify hon ho).constraint?
  rw [(hot.enforced modify hon ho').constraint?, h.slotFor_prior? hfirst, h.prior? hfirst]
  constructor
  · intro hj
    split at hj
    · rename_i hwritten
      exact ⟨_, hwritten, by rw [hget, if_pos rfl, hj]⟩
    · rename_i hunwritten
      split at hj
      · rename_i hold
        obtain ⟨p, hp, rfl⟩ := Option.map_eq_some_iff.1 hold
        obtain ⟨k', hk', rfl⟩ := Option.map_eq_some_iff.1 hj
        obtain ⟨i, hi, htree⟩ := (h.constraint? _ k' hk).1 hk'
        cases moved_injective base shift hi
        refine ⟨p, rfl, ?_⟩
        rw [hget, if_neg fun he => hunwritten (congrArg _ he), if_pos hp, htree]
        rfl
      · rename_i hkept
        obtain ⟨i, rfl, htree⟩ := (h.constraint? j k hk).1 hj
        refine ⟨i, rfl, ?_⟩
        rw [hget, if_neg fun he => hunwritten (congrArg _ he), if_neg fun hp => hkept ?_, htree]
        rw [hp]
        rfl
  · rintro ⟨i, rfl, hi⟩
    rw [hget] at hi
    split at hi
    · rename_i hwritten
      rw [if_pos (congrArg _ hwritten), hi]
    · rename_i hunwritten
      rw [if_neg fun he => hunwritten (moved_injective base shift he)]
      split at hi
      · rename_i hold
        obtain ⟨k', hk', rfl⟩ := Option.map_eq_some_iff.1 hi
        rw [hold, Option.map_some, if_pos rfl, (h.constraint? _ k' hk).2 ⟨i, rfl, hk'⟩]
        rfl
      · rename_i hkept
        rw [if_neg fun hp => hkept ?_, (h.constraint? _ k hk).2 ⟨i, rfl, hi⟩]
        obtain ⟨p, hp, heq⟩ := Option.map_eq_some_iff.1 hp
        rw [hp, moved_injective base shift heq]

/-- **An expression of the node does the same on both.** -/
theorem constrain (h : Mirrors idx base shift tree other) (ht : tree.Coherent)
    (hot : other.Coherent) (hc : tree.Anchored c) (hon : c.active = true)
    (hfirst : c.first.node = idx) :
    Mirrors idx base shift (tree.constrain modify c) (other.constrain modify c) := by
  obtain ⟨owner, ho, hlt⟩ := ht.exists_ownerFor? hc
  have ho' : other.ownerFor? c.first c.second = some owner := by
    rw [h.shape.ownerFor?_eq]
    exact ho
  have hlt' : owner < other.size := h.shape.size ▸ hlt
  have hslot := @slotFor_prior? _ _ _ _ modify _ _ h hfirst
  refine ⟨?_, ?_, ?_, ?_, ?_, ?_, ?_⟩
  · exact (sameShape_constrain.symm.trans h.shape).trans sameShape_constrain
  · intro n
    rw [snapshot_constrain, snapshot_constrain]
    exact h.snapshot n
  · intro n id hid
    rw [snapshot_constrain] at hid
    exact h.recorded n id hid
  · exact Nat.le_trans h.le_size le_size_constraints_constrain
  · rw [hot.size_constraints_constrain hon ho', ht.size_constraints_constrain hon ho, hslot, h.size]
    have hend : moved base shift tree.constraints.size = tree.constraints.size + shift :=
      moved_of_le h.le_size
    by_cases hslot' : tree.slotFor (tree.prior? modify c) = tree.constraints.size
    · rw [hslot', if_pos hend, if_pos rfl]
      omega
    · rw [if_neg hslot', if_neg fun heq => hslot' (moved_injective base shift (heq.trans hend.symm))]
  · intro n anchor hnode
    rw [hot.heldAt_constrain hon ho' hlt', ht.heldAt_constrain hon ho hlt, h.held n anchor hnode,
      hslot, h.prior? hfirst, List.map_append, List.filter_map]
    congr 1
    · refine congrArg _ (List.filter_congr fun i _ => ?_)
      rw [Function.comp_apply, Bool.eq_iff_iff, bne_iff_ne, bne_iff_ne, ← Option.map_some,
        (Option.map_injective (moved_injective base shift)).ne_iff]
    · split <;> rfl
  · exact fun j k => h.constraint?_constrain ht hot hon hfirst ho j k

theorem constrainAll (h : Mirrors idx base shift tree other) (ht : tree.Coherent)
    (hot : other.Coherent) (hanchored : ∀ a ∈ accepted, tree.Anchored a.constraint)
    (hself : ∀ a ∈ accepted, a.target.node = idx) :
    Mirrors idx base shift (tree.constrainAll modify accepted)
      (other.constrainAll modify accepted) := by
  induction accepted generalizing tree other with
  | nil => exact h
  | cons a rest ih =>
    have ha := hanchored a List.mem_cons_self
    have hshape : tree.SameShape (tree.constrain modify a.constraint) := sameShape_constrain
    exact ih (h.constrain ht hot ha rfl (hself a List.mem_cons_self)) (ht.constrain modify ha)
      (hot.constrain modify (h.shape.anchored ha))
      (fun b hb => hshape.anchored (hanchored b (List.mem_cons_of_mem _ hb)))
      fun b hb => hself b (List.mem_cons_of_mem _ hb)

end Mirrors

/-! ## What neither looks at -/

section Resembles

variable {tree' other' : Tree} {base shift : Nat}

theorem Resembles.size_constraints (h : tree.Resembles tree') :
    tree'.constraints.size = tree.constraints.size := by
  have hsame : tree'.constraints = tree.constraints := Array.ext_getElem? h.constraint?
  rw [hsame]

theorem Resembles.heldAt_eq (h : tree.Resembles tree') (n : NodeIndex) (anchor : Anchor) :
    tree'.heldAt n anchor = tree.heldAt n anchor := by
  unfold heldAt
  simp only [h.installed, h.constraint?]

theorem Resembles.agrees (h : tree.Resembles tree') : tree.Agrees idx tree' where
  shape := h.shape
  snapshot := h.snapshot
  size := Nat.le_of_eq h.size_constraints.symm
  held n anchor _ := h.heldAt_eq n anchor
  constraint? id c _ := by rw [h.constraint?]

/-- Trees mirror each other whatever else their nodes look like. -/
theorem Mirrors.of_resembles (h : Mirrors idx base shift tree other) (ht : tree.Resembles tree')
    (hot : other.Resembles other') : Mirrors idx base shift tree' other' where
  shape := (ht.shape.symm.trans h.shape).trans hot.shape
  snapshot n := by rw [hot.snapshot, h.snapshot, ht.snapshot]
  recorded n id hid := h.recorded n id (ht.snapshot n ▸ hid)
  le_size := by
    rw [ht.size_constraints]
    exact h.le_size
  size := by rw [hot.size_constraints, h.size, ht.size_constraints]
  held n anchor hnode := by rw [hot.heldAt_eq, h.held n anchor hnode, ht.heldAt_eq]
  constraint? j c hfirst := by simp only [hot.constraint?, h.constraint? j c hfirst, ht.constraint?]

end Resembles

/-! ## The expressions of two nodes, one after the other -/

/-- **What is installed on a node is what of the arena it owns.** -/
theorem Coherent.installed_perm (h : tree.Coherent) (n : NodeIndex) :
    ((tree.installed n).map tree.constraint?).Perm
      ((tree.constraints.toList.filter fun c => c.owner = some n).map some) := by
  have hlist : tree.constraints.toList.map some =
      (List.range tree.constraints.size).map tree.constraint? := by
    refine List.ext_getElem? fun j => ?_
    rw [List.getElem?_map, List.getElem?_map, Array.getElem?_toList]
    by_cases hj : j < tree.constraints.size
    · rw [List.getElem?_range hj, Array.getElem?_eq_getElem hj]
      exact congrArg some (Array.getElem?_eq_getElem hj).symm
    · rw [Array.getElem?_eq_none (Nat.le_of_not_lt hj), List.getElem?_eq_none]
      · rfl
      · rw [List.length_range]
        exact Nat.le_of_not_lt hj
  have howned : (tree.installed n).Perm ((List.range tree.constraints.size).filter fun id =>
      (tree.constraint? id).any fun c => c.owner = some n) := by
    rw [List.perm_ext_iff_of_nodup (h.nodup n) (List.nodup_range.sublist List.filter_sublist)]
    intro id
    rw [h.listed, List.mem_filter, List.mem_range]
    constructor
    · rintro ⟨c, hc, -, howner⟩
      refine ⟨lt_of_constraint? hc, ?_⟩
      rw [hc, Option.any_some]
      exact decide_eq_true howner
    · rintro ⟨hid, hany⟩
      obtain ⟨c, hc⟩ := constraint?_of_lt hid
      rw [hc, Option.any_some, decide_eq_true_eq] at hany
      refine ⟨c, hc, ?_, hany⟩
      rw [h.owned id c hc, hany, Option.isSome_some]
  have hfilter : ((List.range tree.constraints.size).filter fun id =>
      (tree.constraint? id).any fun c => c.owner = some n).map tree.constraint? =
        (tree.constraints.toList.filter fun c => c.owner = some n).map some := by
    have hboth := congrArg (List.filter fun c : Option Constraint =>
      c.any fun c => c.owner = some n) hlist
    rw [List.filter_map, List.filter_map] at hboth
    exact hboth.symm
  exact hfilter ▸ howned.map tree.constraint?

section Crossed

variable {one two both : Tree} {a b : NodeIndex}

/-- What is appended starts at the node. -/
theorem first_of_appended (h : ∀ x, x ≠ a → Agrees x tree one)
    (hc : one.constraint? id = some c) (hid : tree.constraints.size ≤ id) : c.first.node = a := by
  refine Decidable.byContradiction fun hne => ?_
  have hold := ((h c.first.node hne).constraint? id c rfl).1 hc
  exact Nat.not_lt_of_le hid (lt_of_constraint? hold)

/-- **The arena after both**: what there was, what the first appended, and
then what the second appends without it. -/
theorem constraints_of_crossed (hone : ∀ x, x ≠ a → Agrees x tree one)
    (htwo : ∀ x, x ≠ b → Agrees x tree two) (hboth : Agrees a one both)
    (hmirror : Mirrors b tree.constraints.size (one.constraints.size - tree.constraints.size) two
      both) (hle : tree.constraints.size ≤ one.constraints.size) :
    both.constraints.toList = both.constraints.toList.take tree.constraints.size ++
      one.constraints.toList.drop tree.constraints.size ++
        two.constraints.toList.drop tree.constraints.size := by
  have hlist : ∀ (t : Tree) (j : Nat), t.constraints.toList[j]? = t.constraint? j :=
    fun t j => Array.getElem?_toList
  have hlength : (both.constraints.toList.take tree.constraints.size).length =
      tree.constraints.size := by
    rw [List.length_take, Array.length_toList]
    exact Nat.min_eq_left (Nat.le_trans hle hboth.size)
  have hmiddle : (one.constraints.toList.drop tree.constraints.size).length =
      one.constraints.size - tree.constraints.size := by
    rw [List.length_drop, Array.length_toList]
  have hfront : (both.constraints.toList.take tree.constraints.size ++
      one.constraints.toList.drop tree.constraints.size).length = one.constraints.size := by
    rw [List.length_append, hlength, hmiddle]
    exact Nat.add_sub_cancel' hle
  refine List.ext_getElem? fun j => ?_
  by_cases hj : j < one.constraints.size
  · rw [List.getElem?_append_left (Nat.lt_of_lt_of_eq hj hfront.symm)]
    by_cases hold : j < tree.constraints.size
    · rw [List.getElem?_append_left (Nat.lt_of_lt_of_eq hold hlength.symm),
        List.getElem?_take_of_lt hold]
    · -- what the first appended the second leaves alone
      have hge := Nat.le_of_not_lt hold
      rw [List.getElem?_append_right (Nat.le_trans (Nat.le_of_eq hlength) hge), hlength,
        List.getElem?_drop, Nat.add_sub_cancel' hge, hlist, hlist]
      obtain ⟨c, hc⟩ := constraint?_of_lt hj
      rw [hc]
      exact (hboth.constraint? j c (first_of_appended hone hc hge)).2 hc
  · have hge := Nat.le_of_not_lt hj
    rw [List.getElem?_append_right (Nat.le_trans (Nat.le_of_eq hfront) hge), hfront,
      List.getElem?_drop, hlist, hlist]
    have hmoved : j = moved tree.constraints.size (one.constraints.size - tree.constraints.size)
        (tree.constraints.size + (j - one.constraints.size)) := by
      rw [moved_of_le (Nat.le_add_right _ _)]
      omega
    generalize hi : tree.constraints.size + (j - one.constraints.size) = i at hmoved ⊢
    cases hc : two.constraint? i with
    | some c =>
      have hfirst := first_of_appended htwo hc (hi ▸ Nat.le_add_right _ _)
      exact (hmirror.constraint? j c hfirst).2 ⟨i, hmoved, hc⟩
    | none =>
      have hout := Array.getElem?_eq_none_iff.1 hc
      refine Array.getElem?_eq_none ?_
      rw [hmirror.size]
      omega

/-- **Up to where both began the arenas are the same**, whichever comes
first. -/
theorem constraint?_of_crossed {swapped : Tree} (hne : a ≠ b)
    (hone : ∀ x, x ≠ a → Agrees x tree one) (htwo : ∀ x, x ≠ b → Agrees x tree two)
    (hboth : ∀ x, x ≠ b → Agrees x one both) (hswapped : ∀ x, x ≠ a → Agrees x two swapped)
    {p q : Nat} (hmirror : Mirrors b tree.constraints.size p two both)
    (hmirror' : Mirrors a tree.constraints.size q one swapped) (hj : j < tree.constraints.size) :
    swapped.constraint? j = both.constraint? j := by
  -- a position from before mirrors itself
  have hself : ∀ {x : NodeIndex} {r : Nat} {t t' : Tree} {c : Constraint},
      Mirrors x tree.constraints.size r t t' → c.first.node = x →
        (t'.constraint? j = some c ↔ t.constraint? j = some c) := by
    intro x r t t' c hm hfirst
    rw [hm.constraint? j c hfirst]
    constructor
    · rintro ⟨i, hi, hc⟩
      have hij : moved tree.constraints.size r j = moved tree.constraints.size r i :=
        (moved_of_lt hj).trans hi
      rw [moved_injective _ _ hij]
      exact hc
    · exact fun hc => ⟨j, (moved_of_lt hj).symm, hc⟩
  refine Option.ext fun c => ?_
  by_cases ha : c.first.node = a
  · have hb : c.first.node ≠ b := fun heq => hne (ha.symm.trans heq)
    rw [hself hmirror' ha, (hboth _ hb).constraint? j c rfl]
  · by_cases hb : c.first.node = b
    · rw [(hswapped _ ha).constraint? j c rfl, hself hmirror hb]
    · rw [(hswapped _ ha).constraint? j c rfl, (hboth _ hb).constraint? j c rfl,
        (htwo _ hb).constraint? j c rfl, (hone _ ha).constraint? j c rfl]

/-- **Two trees that differ in the order of what was appended** since the
base, two runs of constraints the other way round, and in the order of
installed lists. -/
structure Interchanged (base : Nat) (tree other : Tree) : Prop where
  arena : ∃ old first second : List Constraint, old.length = base ∧
    tree.constraints.toList = old ++ first ++ second ∧
    other.constraints.toList = old ++ second ++ first
  installed : ∀ n, ((other.installed n).map other.constraint?).Perm
    ((tree.installed n).map tree.constraint?)

/-- **Two nodes' expressions, in either order**, leave trees that are
interchanged: what each appends, it appends without the other. -/
theorem interchanged_of_crossed {swapped : Tree} (hne : a ≠ b) (hcb : both.Coherent)
    (hcs : swapped.Coherent) (hone : ∀ x, x ≠ a → Agrees x tree one)
    (htwo : ∀ x, x ≠ b → Agrees x tree two) (hboth : ∀ x, x ≠ b → Agrees x one both)
    (hswapped : ∀ x, x ≠ a → Agrees x two swapped)
    (hmirror : Mirrors b tree.constraints.size (one.constraints.size - tree.constraints.size) two
      both)
    (hmirror' : Mirrors a tree.constraints.size (two.constraints.size - tree.constraints.size) one
      swapped) : Interchanged tree.constraints.size both swapped := by
  have hle : tree.constraints.size ≤ one.constraints.size := hmirror'.le_size
  have hle' : tree.constraints.size ≤ two.constraints.size := hmirror.le_size
  have hsame : swapped.constraints.toList.take tree.constraints.size =
      both.constraints.toList.take tree.constraints.size := by
    refine List.ext_getElem? fun j => ?_
    by_cases hj : j < tree.constraints.size
    · rw [List.getElem?_take_of_lt hj, List.getElem?_take_of_lt hj, Array.getElem?_toList,
        Array.getElem?_toList]
      exact constraint?_of_crossed hne hone htwo hboth hswapped hmirror hmirror' hj
    · rw [List.getElem?_take_eq_none (Nat.le_of_not_lt hj),
        List.getElem?_take_eq_none (Nat.le_of_not_lt hj)]
  have hfirst := constraints_of_crossed hone htwo (hboth a hne) hmirror hle
  have hsecond := constraints_of_crossed htwo hone (hswapped b hne.symm) hmirror' hle'
  rw [hsame] at hsecond
  refine ⟨⟨_, _, _, ?_, hfirst, hsecond⟩, fun n => ?_⟩
  · rw [List.length_take, Array.length_toList]
    exact Nat.min_eq_left (Nat.le_trans hle (hboth a hne).size)
  · have hperm : swapped.constraints.toList.Perm both.constraints.toList := by
      rw [hfirst, hsecond, List.append_assoc, List.append_assoc]
      exact List.perm_append_comm.append_left _
    exact (hcs.installed_perm n).trans
      (((hperm.filter _).map some).trans (hcb.installed_perm n).symm)

end Crossed

end Tree

end LiveLayout
