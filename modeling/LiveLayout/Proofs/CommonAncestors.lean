import LiveLayout.Proofs.Growth
/-!
# Common ancestors as a tree grows

The search for a common ancestor goes up one lineage and takes the first node
that lies on the other. In a tree made from the root, node by node, that is
the nearest common ancestor, and the only one, whichever of the two lineages
was gone up (`nearest_common_ancestor`). New nodes leave it where it is: they
are on no lineage of a node that was there before
(`Sprouts.commonAncestor?_eq`).
-/

namespace LiveLayout

namespace Tree

variable {tree later : Tree} {a b : NodeIndex}

/-- A new node leaves the others where they were. -/
theorem Sprout.grows (s : Sprout tree later) : tree.Grows later := by
  cases s with
  | insertChild position hp hnode => exact grows_insertChild

theorem Sprouts.grows (s : Sprouts tree later) : tree.Grows later := by
  induction s with
  | refl => exact .refl tree
  | tail _ s ih => exact ih.trans s.grows

/-- **New nodes move no common ancestor.** -/
theorem Sprouts.commonAncestor?_eq (s : Sprouts tree later) (h : tree.Rooted) (ha : a < tree.size)
    (hb : b < tree.size) : later.commonAncestor? a b = tree.commonAncestor? a b :=
  s.grows.commonAncestor?_eq h ha hb

/-- **The common ancestor is the nearest one.** Take a tree made from the root
by new nodes under nodes that are there, and two of its nodes. The search
finds a node that is above each of the two, or is it, and whatever else is so
is above that node. No other node is like this. With the two changed over the
search finds the same one, and after any more new nodes it still does. -/
theorem nearest_common_ancestor (h : Sprouts initial tree) (ha : a < tree.size)
    (hb : b < tree.size) :
    ∃ n, tree.commonAncestor? a b = some n ∧
      (tree.Ancestor n a ∧ tree.Ancestor n b ∧
        ∀ m, tree.Ancestor m a → tree.Ancestor m b → tree.Ancestor m n) ∧
      (∀ m, tree.NearestCommon a b m → m = n) ∧
      tree.commonAncestor? b a = some n ∧
      ∀ later, Sprouts tree later →
        later.commonAncestor? a b = some n ∧ later.commonAncestor? b a = some n := by
  have hrooted : tree.Rooted := (h.arranged arranged_initial).toRooted
  obtain ⟨n, hn⟩ := hrooted.exists_commonAncestor? ha hb
  have hnearest : tree.NearestCommon a b n := hrooted.nearestCommon hn
  have hswapped : tree.commonAncestor? b a = some n := (hrooted.commonAncestor?_comm ha hb).trans hn
  refine ⟨n, hn, ⟨hnearest.left, hnearest.right, hnearest.nearest⟩,
    fun m hm => hm.unique hnearest hrooted, hswapped, fun later s => ⟨?_, ?_⟩⟩
  · rw [s.commonAncestor?_eq hrooted ha hb, hn]
  · rw [s.commonAncestor?_eq hrooted hb ha, hswapped]

/-- Two children of the root, and two children of the first of them. -/
def kin : Tree :=
  (((initial.insertChild root { id := "a", kind := .view } none).insertChild root
    { id := "b", kind := .view } none).insertChild 1 { id := "c", kind := .view } none).insertChild
      1 { id := "d", kind := .view } (some 0)

/-- The last two share their parent, which is nearer than the root, and still
do when there is a node below one of them. -/
theorem nearest_common_ancestor_of_kin :
    Sprouts initial kin ∧ kin.commonAncestor? 3 4 = some 1 ∧
      kin.Ancestor 1 3 ∧ kin.Ancestor 1 4 ∧ kin.Ancestor root 1 ∧
      kin.commonAncestor? 4 3 = some 1 ∧
      (kin.insertChild 4 { id := "e", kind := .view } none).commonAncestor? 3 4 = some 1 ∧
      kin.commonAncestor? 3 2 = some root := by
  have hkin : Sprouts initial kin := by
    refine .tail (.tail (.tail (.tail .refl (.insertChild none ?_ rfl)) (.insertChild none ?_ rfl))
      (.insertChild none ?_ rfl)) (.insertChild (some 0) ?_ rfl) <;> decide
  have hfound : kin.commonAncestor? 3 4 = some 1 := by decide +kernel
  have hrooted : kin.Rooted := (hkin.arranged arranged_initial).toRooted
  obtain ⟨n, hn, ⟨hleft, hright, hnearest⟩, -, hswapped, hlater⟩ :=
    nearest_common_ancestor hkin (by decide : 3 < kin.size) (by decide : 4 < kin.size)
  obtain rfl : 1 = n := Option.some.inj (hfound.symm.trans hn)
  have hroot : kin.Ancestor root 1 :=
    hnearest root (hrooted.ancestor_root (by decide)) (hrooted.ancestor_root (by decide))
  have hnew : Sprouts kin (kin.insertChild 4 { id := "e", kind := .view } none) :=
    .single (.insertChild none (by decide) rfl)
  exact ⟨hkin, hn, hleft, hright, hroot, hswapped, (hlater _ hnew).1, by decide +kernel⟩

end Tree

end LiveLayout
