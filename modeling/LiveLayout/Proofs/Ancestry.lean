import LiveLayout.Tree.Arena
/-!
# Ancestry

What it is to be an ancestor, said by parents alone, and that the lineage
the tree computes is exactly that. In a tree grown from its root any two
nodes have a nearest common ancestor (`exists_commonAncestor?`), which is
what the search finds (`commonAncestor?_eq_some_iff`), and growth moves none
(`Grows.ownerFor?_eq`): a lineage only looks at nodes that were there before.
-/

namespace LiveLayout

namespace Tree

variable {tree grown : Tree} {a b c idx n : NodeIndex}

/-- **Grown from the root.** The root alone has no parent, and every parent
was there before its children. -/
structure Rooted (tree : Tree) : Prop where
  nonempty : 0 < tree.size
  root : tree.parent? Tree.root = none
  parent : ∀ idx, idx < tree.size → idx ≠ Tree.root → ∃ p, tree.parent? idx = some p ∧ p < idx

/-- **An ancestor of a node, or the node itself**, step by step from child
to parent. -/
inductive Ancestor (tree : Tree) (a : NodeIndex) : NodeIndex → Prop
  | self : Ancestor tree a a
  | up {idx p : NodeIndex} : tree.parent? idx = some p → Ancestor tree a p → Ancestor tree a idx

/-- **The nearest common ancestor** of two nodes: an ancestor of both, below
any other one. -/
structure NearestCommon (tree : Tree) (a b n : NodeIndex) : Prop where
  left : tree.Ancestor n a
  right : tree.Ancestor n b
  nearest : ∀ m, tree.Ancestor m a → tree.Ancestor m b → tree.Ancestor m n

/-! ## Parents -/

/-- Only a node of the tree has a parent. -/
theorem lt_size_of_parent? {p : NodeIndex} (h : tree.parent? idx = some p) : idx < tree.size := by
  obtain ⟨node, hnode, -⟩ := Option.bind_eq_some_iff.1 h
  obtain ⟨hlt, -⟩ := Array.getElem?_eq_some_iff.1 hnode
  exact hlt

/-- A parent comes before its child. -/
theorem Rooted.parent_lt (h : tree.Rooted) {p : NodeIndex} (hp : tree.parent? idx = some p) :
    p < idx := by
  have hne : idx ≠ Tree.root := by
    rintro rfl
    rw [h.root] at hp
    cases hp
  obtain ⟨q, hq, hlt⟩ := h.parent idx (lt_size_of_parent? hp) hne
  rw [hp] at hq
  cases hq
  exact hlt

/-- A lineage starts with the node and goes on with its parent's. -/
theorem Rooted.ancestors_of_parent (h : tree.Rooted) {p : NodeIndex}
    (hp : tree.parent? idx = some p) : tree.ancestors idx = idx :: tree.ancestors p := by
  rw [ancestors, hp]
  simp only [if_pos (h.parent_lt hp)]

/-- Without a parent the lineage ends. -/
theorem ancestors_of_no_parent (hp : tree.parent? idx = none) : tree.ancestors idx = [idx] := by
  rw [ancestors, hp]

/-- A position without a node has no lineage but itself. -/
theorem ancestors_of_missing (h : tree.size ≤ idx) : tree.ancestors idx = [idx] := by
  refine ancestors_of_no_parent (Option.eq_none_iff_forall_ne_some.2 fun p hp => ?_)
  exact Nat.not_lt_of_le h (lt_size_of_parent? hp)

/-! ## Ancestors -/

/-- **The lineage of a node lists its ancestors.** -/
theorem Rooted.mem_ancestors (h : tree.Rooted) :
    a ∈ tree.ancestors idx ↔ tree.Ancestor a idx := by
  constructor
  · induction idx using Nat.strongRecOn with
    | ind idx ih =>
      intro ha
      cases hp : tree.parent? idx with
      | none =>
        rw [ancestors_of_no_parent hp, List.mem_singleton] at ha
        subst ha
        exact .self
      | some p =>
        rw [h.ancestors_of_parent hp, List.mem_cons] at ha
        rcases ha with rfl | ha
        · exact .self
        · exact .up hp (ih p (h.parent_lt hp) ha)
  · intro ha
    induction ha with
    | self => exact tree.mem_ancestors_self a
    | up hp _ ih =>
      rw [h.ancestors_of_parent hp]
      exact List.mem_cons_of_mem _ ih

/-- An ancestor comes no later than the node. -/
theorem Ancestor.le (ha : tree.Ancestor a idx) (h : tree.Rooted) : a ≤ idx := by
  induction ha with
  | self => exact Nat.le_refl _
  | up hp _ ih => exact Nat.le_trans ih (Nat.le_of_lt (h.parent_lt hp))

/-- Two nodes that are above each other are one. -/
theorem Ancestor.antisymm (ha : tree.Ancestor a b) (hb : tree.Ancestor b a) (h : tree.Rooted) :
    a = b :=
  Nat.le_antisymm (ha.le h) (hb.le h)

/-- The root is above every node. -/
theorem Rooted.ancestor_root (h : tree.Rooted) (hidx : idx < tree.size) :
    tree.Ancestor Tree.root idx := by
  induction idx using Nat.strongRecOn with
  | ind idx ih =>
    by_cases hr : idx = Tree.root
    · subst hr
      exact .self
    · obtain ⟨p, hp, hlt⟩ := h.parent idx hidx hr
      exact .up hp (ih p hlt (Nat.lt_trans hlt hidx))

/-- Each node of a lineage is below those after it. -/
theorem Rooted.pairwise_ancestors (h : tree.Rooted) (idx : NodeIndex) :
    (tree.ancestors idx).Pairwise fun lower upper => tree.Ancestor upper lower := by
  induction idx using Nat.strongRecOn with
  | ind idx ih =>
    cases hp : tree.parent? idx with
    | none =>
      rw [ancestors_of_no_parent hp]
      exact List.pairwise_singleton _ _
    | some p =>
      rw [h.ancestors_of_parent hp]
      refine List.pairwise_cons.2 ⟨fun m hm => ?_, ih p (h.parent_lt hp)⟩
      exact .up hp (h.mem_ancestors.1 hm)

/-! ## Nearest common ancestors -/

/-- It is the same which of the two nodes comes first. -/
theorem NearestCommon.symm (hn : tree.NearestCommon a b n) : tree.NearestCommon b a n :=
  ⟨hn.right, hn.left, fun m hma hmb => hn.nearest m hmb hma⟩

/-- **Two nodes have one nearest common ancestor** at most: each of two would
be above the other. -/
theorem NearestCommon.unique {m : NodeIndex} (hm : tree.NearestCommon a b m)
    (hn : tree.NearestCommon a b n) (h : tree.Rooted) : m = n :=
  (hn.nearest m hm.left hm.right).antisymm (hm.nearest n hn.left hn.right) h

/-- **What the search finds is nearest.** It takes the first of one lineage
that lies on the other, and whatever else lies on both comes later there. -/
theorem Rooted.nearestCommon (h : tree.Rooted) (hn : tree.commonAncestor? a b = some n) :
    tree.NearestCommon a b n := by
  unfold commonAncestor? at hn
  obtain ⟨hon, before, after, hsplit, hbefore⟩ := List.find?_eq_some_iff_append.1 hn
  have hmem : n ∈ tree.ancestors b := by
    rw [hsplit]
    simp only [List.mem_append, List.mem_cons, true_or, or_true]
  refine ⟨h.mem_ancestors.1 (List.contains_iff_mem.1 hon), h.mem_ancestors.1 hmem, ?_⟩
  intro m hma hmb
  have hm : m ∈ before ++ n :: after := hsplit ▸ h.mem_ancestors.2 hmb
  have hnot : m ∉ before := by
    intro hin
    have hoff := hbefore m hin
    rw [List.contains_iff_mem.2 (h.mem_ancestors.2 hma)] at hoff
    cases hoff
  rcases List.mem_append.1 hm with hin | hin
  · exact absurd hin hnot
  · rcases List.mem_cons.1 hin with rfl | hin
    · exact .self
    · have hsorted := h.pairwise_ancestors b
      rw [hsplit] at hsorted
      exact (List.pairwise_cons.1 (List.pairwise_append.1 hsorted).2.1).1 m hin

/-- Any two nodes have a common ancestor: the root is one. -/
theorem Rooted.exists_commonAncestor? (h : tree.Rooted) (ha : a < tree.size) (hb : b < tree.size) :
    ∃ n, tree.commonAncestor? a b = some n := by
  unfold commonAncestor?
  refine Option.isSome_iff_exists.1 (List.find?_isSome.2 ⟨Tree.root, ?_, ?_⟩)
  · exact h.mem_ancestors.2 (h.ancestor_root hb)
  · exact List.contains_iff_mem.2 (h.mem_ancestors.2 (h.ancestor_root ha))

/-- **The search finds the nearest common ancestor**, and nothing where there
is none. -/
theorem Rooted.commonAncestor?_eq_some_iff (h : tree.Rooted) (ha : a < tree.size)
    (hb : b < tree.size) : tree.commonAncestor? a b = some n ↔ tree.NearestCommon a b n := by
  refine ⟨h.nearestCommon, fun hn => ?_⟩
  obtain ⟨m, hm⟩ := h.exists_commonAncestor? ha hb
  rw [hm, (h.nearestCommon hm).unique hn h]

/-- **The search takes its two nodes in either order**, though it goes up one
lineage and only looks up the other. -/
theorem Rooted.commonAncestor?_comm (h : tree.Rooted) (ha : a < tree.size) (hb : b < tree.size) :
    tree.commonAncestor? b a = tree.commonAncestor? a b := by
  obtain ⟨n, hn⟩ := h.exists_commonAncestor? ha hb
  rw [hn, h.commonAncestor?_eq_some_iff hb ha]
  exact (h.nearestCommon hn).symm

/-- The search finds a node that exists. -/
theorem Rooted.commonAncestor?_lt (h : tree.Rooted) (ha : a < tree.size)
    (hn : tree.commonAncestor? a b = some n) : n < tree.size :=
  Nat.lt_of_le_of_lt ((h.nearestCommon hn).left.le h) ha

/-- What shares an ancestor with a node exists as well. -/
theorem Rooted.lt_size_of_commonAncestor? (h : tree.Rooted) (ha : a < tree.size)
    (hn : tree.commonAncestor? a b = some n) : b < tree.size := by
  have hlt := h.commonAncestor?_lt ha hn
  refine Nat.lt_of_not_le fun hb => ?_
  have hmem : n ∈ tree.ancestors b := h.mem_ancestors.2 (h.nearestCommon hn).right
  rw [ancestors_of_missing hb, List.mem_singleton] at hmem
  subst hmem
  exact Nat.not_lt_of_le hb hlt

/-! ## Growth -/

/-- **A tree with more nodes**, the old ones where they were. -/
structure Grows (tree grown : Tree) : Prop where
  size : tree.size ≤ grown.size
  parent : ∀ idx, idx < tree.size → grown.parent? idx = tree.parent? idx

theorem Grows.refl (tree : Tree) : tree.Grows tree := ⟨Nat.le_refl _, fun _ _ => rfl⟩

theorem Grows.trans {last : Tree} (g : tree.Grows grown) (g' : grown.Grows last) :
    tree.Grows last :=
  ⟨Nat.le_trans g.size g'.size, fun idx hidx =>
    (g'.parent idx (Nat.lt_of_lt_of_le hidx g.size)).trans (g.parent idx hidx)⟩

/-- A node that was there keeps its lineage. -/
theorem Grows.ancestors_eq (g : tree.Grows grown) (h : tree.Rooted) (hidx : idx < tree.size) :
    grown.ancestors idx = tree.ancestors idx := by
  induction idx using Nat.strongRecOn with
  | ind idx ih =>
    have hsame := g.parent idx hidx
    cases hp : tree.parent? idx with
    | none => rw [ancestors_of_no_parent hp, ancestors_of_no_parent (hsame.trans hp)]
    | some p =>
      have hlt := h.parent_lt hp
      rw [ancestors, hsame, hp]
      simp only [if_pos hlt]
      rw [ih p hlt (Nat.lt_trans hlt hidx), h.ancestors_of_parent hp]

/-- **Nearest common ancestors stay** as the tree grows. -/
theorem Grows.commonAncestor?_eq (g : tree.Grows grown) (h : tree.Rooted) (ha : a < tree.size)
    (hb : b < tree.size) : grown.commonAncestor? a b = tree.commonAncestor? a b := by
  simp only [commonAncestor?, g.ancestors_eq h ha, g.ancestors_eq h hb]

end Tree

end LiveLayout
