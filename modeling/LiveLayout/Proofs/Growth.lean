import LiveLayout.Proofs.Footprints
import Mathlib.Data.List.Nodup
/-!
# Growth

A tree that gets new nodes, each under a node that is there and at any
position among its children, stays one: parents and lists of children are
two records of one shape (`Arranged`). Every node but the root is on the
list of its parent, once, and the walk from parent to parent ends at the
root (`Branching`). The order of children is stable, since a new child moves
none of the others past each other.
-/

namespace LiveLayout

namespace Tree

variable {tree later : Tree} {parent n p : NodeIndex} {node : Node} {position : Option Nat}

/-- **One new node**, which brings no children, under a node that is there. -/
inductive Sprout (tree : Tree) : Tree → Prop
  | insertChild {parent : NodeIndex} {node : Node} (position : Option Nat) :
      parent < tree.size → node.children = [] →
      Sprout tree (tree.insertChild parent node position)

/-- New nodes one after another. -/
def Sprouts : Tree → Tree → Prop := Relation.ReflTransGen Sprout

/-! ## Walking up -/

/-- **The node some steps above another**, one parent after the other. -/
def above? (tree : Tree) : NodeIndex → Nat → Option NodeIndex
  | n, 0 => some n
  | n, k + 1 => (tree.parent? n).bind fun p => tree.above? p k

/-- **A lineage is the walk up**, from its start to its end. -/
theorem Rooted.above?_eq (h : tree.Rooted) (n : NodeIndex) (k : Nat) :
    tree.above? n k = (tree.ancestors n)[k]? := by
  induction k generalizing n with
  | zero =>
    rw [ancestors]
    rfl
  | succ k ih =>
    unfold above?
    cases hp : tree.parent? n with
    | none =>
      rw [ancestors_of_no_parent hp]
      rfl
    | some p =>
      rw [h.ancestors_of_parent hp, List.getElem?_cons_succ]
      exact ih p

/-- Each node of a lineage was created before the ones below it. -/
theorem Rooted.sorted_ancestors (h : tree.Rooted) (n : NodeIndex) :
    (tree.ancestors n).Pairwise fun lower upper => upper < lower := by
  induction n using Nat.strongRecOn with
  | ind n ih =>
    cases hp : tree.parent? n with
    | none =>
      rw [ancestors_of_no_parent hp]
      exact List.pairwise_singleton _ _
    | some p =>
      rw [h.ancestors_of_parent hp]
      refine List.pairwise_cons.2 ⟨fun m hm => ?_, ih p (h.parent_lt hp)⟩
      exact Nat.lt_of_le_of_lt ((h.mem_ancestors.1 hm).le h) (h.parent_lt hp)

/-- So no node is twice in one. -/
theorem Rooted.nodup_ancestors (h : tree.Rooted) (n : NodeIndex) : (tree.ancestors n).Nodup :=
  (h.sorted_ancestors n).imp fun hlt => Nat.ne_of_gt hlt

/-- **A lineage ends at the root.** -/
theorem Rooted.getLast?_ancestors (h : tree.Rooted) (hn : n < tree.size) :
    (tree.ancestors n).getLast? = some Tree.root := by
  induction n using Nat.strongRecOn with
  | ind n ih =>
    by_cases hr : n = Tree.root
    · subst hr
      rw [ancestors_of_no_parent h.root]
      rfl
    · obtain ⟨p, hp, hlt⟩ := h.parent n hn hr
      rw [h.ancestors_of_parent hp, List.getLast?_cons, ih p hlt (Nat.lt_trans hlt hn)]
      rfl

/-! ## Parents and children -/

/-- **Parents and lists of children agree.** -/
structure Arranged (tree : Tree) : Prop extends Rooted tree where
  filed : tree.Filed
  held : ∀ n p, tree.parent? n = some p → n ∈ tree.children p
  nodup : ∀ p, (tree.children p).Nodup

theorem arranged_initial : initial.Arranged where
  toRooted := coherent_initial.toRooted
  filed := filed_initial
  held n p hp := by
    have hn : n < 1 := lt_size_of_parent? hp
    obtain rfl : n = Tree.root := Nat.lt_one_iff.1 hn
    cases hp
  nodup p := by
    have hnone : initial.children p = [] := by cases p <;> rfl
    rw [hnone]
    exact List.nodup_nil

/-- Where a new child comes: at the position asked for, or behind the others
where that is past them or none is given. -/
def placeFor (position : Option Nat) (count : Nat) : Nat :=
  (position.map (min · count)).getD count

theorem placeFor_le (position : Option Nat) (count : Nat) : placeFor position count ≤ count := by
  cases position with
  | none => exact Nat.le_refl _
  | some i => exact Nat.min_le_right _ _

/-- The parent's list with the new node on it. -/
theorem children_insertChild_self (hp : parent < tree.size) (hnode : node.children = []) :
    (tree.insertChild parent node position).children parent =
      (tree.children parent).insertIdx (placeFor position (tree.children parent).length)
        tree.size := by
  rw [children_insertChild hp hnode, if_pos rfl]
  rfl

/-- **A new node keeps the two in step.** It is on its parent's list, where
it was not before, for lists hold nodes that are there. -/
theorem Arranged.insertChild (h : tree.Arranged) (hp : parent < tree.size)
    (hnode : node.children = []) : (tree.insertChild parent node position).Arranged where
  toRooted := h.toRooted.insertChild hp
  filed := h.filed.insertChild hp hnode
  held n p hparent := by
    rw [parent?_insertChild] at hparent
    split at hparent
    · rename_i heq
      cases hparent
      rw [children_insertChild_self hp hnode, heq, List.mem_insertIdx (placeFor_le _ _)]
      exact .inl rfl
    · exact mem_children_insertChild (h.held n p hparent)
  nodup p := by
    by_cases heq : p = parent
    · subst heq
      rw [children_insertChild_self hp hnode,
        (List.perm_insertIdx _ _ (placeFor_le _ _)).nodup_iff]
      refine List.nodup_cons.2 ⟨fun hmem => ?_, h.nodup p⟩
      exact Nat.lt_irrefl _ (lt_size_of_parent? (h.filed p _ hmem))
    · rw [children_insertChild hp hnode, if_neg heq]
      exact h.nodup p

theorem Sprouts.arranged (s : Sprouts tree later) (h : tree.Arranged) : later.Arranged := by
  induction s with
  | refl => exact h
  | tail _ s ih =>
    cases s with
    | insertChild position hp hnode => exact ih.insertChild hp hnode

/-- **A node is on the list of its parent once**, and on no other. -/
theorem Arranged.count_children (h : tree.Arranged) (hp : tree.parent? n = some p)
    (q : NodeIndex) : (tree.children q).count n = if q = p then 1 else 0 := by
  split
  · rename_i heq
    subst heq
    exact List.count_eq_one_of_mem (h.nodup q) (h.held n q hp)
  · rename_i hne
    refine List.count_eq_zero.2 fun hmem => hne ?_
    exact Option.some.inj ((h.filed q n hmem).symm.trans hp)

/-- **Children stay in order**, with new ones between them. -/
theorem Sprouts.sublist_children (s : Sprouts tree later) (n : NodeIndex) :
    (tree.children n).Sublist (later.children n) := by
  induction s with
  | refl => exact List.Sublist.refl _
  | tail _ s ih =>
    refine ih.trans ?_
    cases s with
    | insertChild position hp hnode =>
      rw [children_insertChild hp hnode]
      split
      · exact List.sublist_insertIdx _ _ _
      · exact List.Sublist.refl _

/-! ## Branching -/

/-- **The shape of a tree.** -/
structure Branching (tree : Tree) : Prop where
  /-- The root has no parent. -/
  root : tree.parent? Tree.root = none
  /-- Any other node is once on the list of its parent, and on no other. -/
  once : ∀ n, n < tree.size → n ≠ Tree.root → ∃ p, p < tree.size ∧ tree.parent? n = some p ∧
    ∀ q, (tree.children q).count n = if q = p then 1 else 0
  /-- Nothing else is on a list. -/
  only : ∀ q n, n ∈ tree.children q → n < tree.size ∧ n ≠ Tree.root
  /-- The lineage of a node is the walk up from it, which comes to an end. -/
  walk : ∀ n k, tree.above? n k = (tree.ancestors n)[k]?
  /-- No node is twice in a lineage. -/
  nodup : ∀ n, (tree.ancestors n).Nodup
  /-- The last of a lineage is the root. -/
  top : ∀ n, n < tree.size → (tree.ancestors n).getLast? = some Tree.root

theorem Arranged.branching (h : tree.Arranged) : tree.Branching where
  root := h.root
  once n hn hne := by
    obtain ⟨p, hp, hlt⟩ := h.parent n hn hne
    exact ⟨p, Nat.lt_trans hlt hn, hp, h.count_children hp⟩
  only q n hmem := by
    have hparent := h.filed q n hmem
    refine ⟨lt_size_of_parent? hparent, ?_⟩
    rintro rfl
    cases h.root.symm.trans hparent
  walk := h.above?_eq
  nodup := h.nodup_ancestors
  top _ := h.getLast?_ancestors

/-- **The tree stays a tree, and the order of children is stable.** Take a
tree made from the root by new nodes under nodes that are there. It has the
shape of a tree. One more node comes at the place asked for on its parent's
list, or at its end, and without it the list is the old one, as all others
are. So after any more nodes the children there were follow each other as
before. -/
theorem branching_of_sprouts (h : Sprouts initial tree) :
    tree.Branching ∧
      (∀ (parent : NodeIndex) (node : Node) (position : Option Nat),
        parent < tree.size → node.children = [] →
          let later := tree.insertChild parent node position
          let place := placeFor position (tree.children parent).length
          (later.children parent)[place]? = some tree.size ∧
            (later.children parent).eraseIdx place = tree.children parent ∧
            ∀ n, n ≠ parent → later.children n = tree.children n) ∧
      ∀ later, Sprouts tree later → ∀ n, (tree.children n).Sublist (later.children n) := by
  refine ⟨(h.arranged arranged_initial).branching, ?_, fun later s => s.sublist_children⟩
  intro parent node position hp hnode later place
  have hlist : later.children parent = (tree.children parent).insertIdx place tree.size :=
    children_insertChild_self hp hnode
  refine ⟨?_, ?_, fun n hne => ?_⟩
  · rw [hlist, List.getElem?_insertIdx_self, if_pos (placeFor_le _ _)]
  · rw [hlist, List.eraseIdx_insertIdx_self]
  · rw [children_insertChild hp hnode, if_neg hne]

/-- Two children of the root, one of the first of them, and a third child of
the root before the other two. -/
def brood : Tree :=
  (((initial.insertChild root { id := "a", kind := .view } none).insertChild root
    { id := "b", kind := .view } none).insertChild 1 { id := "c", kind := .view } none).insertChild
      root { id := "d", kind := .view } (some 0)

/-- The root has them in their order, and a fourth that is to come past them
all comes last. -/
theorem branching_of_brood :
    Sprouts initial brood ∧ brood.children root = [4, 1, 2] ∧ brood.ancestors 3 = [3, 1, 0] ∧
      ((brood.insertChild root { id := "e", kind := .view } (some 99)).children root)[3]? =
        some 5 ∧
      (brood.children root).count 2 = 1 := by
  have hbrood : Sprouts initial brood := by
    refine .tail (.tail (.tail (.tail .refl (.insertChild none ?_ rfl)) (.insertChild none ?_ rfl))
      (.insertChild none ?_ rfl)) (.insertChild (some 0) ?_ rfl) <;> decide
  have hchildren : brood.children root = [4, 1, 2] := by decide
  have hsize : brood.size = 5 := by decide
  obtain ⟨hshape, hinsert, -⟩ := branching_of_sprouts hbrood
  obtain ⟨hplace, -, -⟩ := hinsert root { id := "e", kind := .view } (some 99) (by decide) rfl
  obtain ⟨p, -, hp, hcount⟩ := hshape.once 2 (by decide) (by decide)
  have hroot : p = root := by
    have hparent : brood.parent? 2 = some root := by decide
    exact Option.some.inj (hp.symm.trans hparent)
  refine ⟨hbrood, hchildren, by decide +kernel, ?_, ?_⟩
  · rw [hchildren, hsize] at hplace
    exact hplace
  · rw [hcount, if_pos hroot.symm]

end Tree

end LiveLayout
