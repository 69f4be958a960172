import LiveLayout.Proofs.Growth
import LiveLayout.Proofs.Replacement
/-!
# The search of a lineage

What is in force for an attribute can be looked for in two ways. A scan of
the arena reads flags and anchors, wherever a constraint is installed
(`activeOn`). The search of the lineage reads installed lists, of the
anchor's node and its ancestors only (`findOnLineage?`). That the two agree
rests on where constraints are installed: one that starts at an anchor is on
one list, once, and that is the list of the anchor's node or of a node above
it, wherever its second anchor lies (`Coherent.count_installed`). So the
search stops at the first node on the way up that has one at all, and misses
none that is nearer (`lineage_search_agrees`).
-/

namespace LiveLayout

namespace Tree

variable {tree : Tree} {n owner : NodeIndex} {id : ConstraintId} {c : Constraint} {anchor : Anchor}

/-! ## One list -/

/-- **The list of a node has none to find** exactly if nothing that is in
force for the anchor is installed there. -/
theorem Coherent.findInstalled?_eq_none_iff (h : tree.Coherent) :
    tree.findInstalled? n anchor = none ↔ ∀ j ∈ tree.activeOn anchor, j ∉ tree.installed n := by
  unfold findInstalled?
  rw [List.find?_eq_none]
  constructor
  · intro hnone j hactive hmem
    obtain ⟨c, hc, -, hfirst⟩ := mem_activeOn.1 hactive
    refine hnone j hmem ?_
    rw [hc, Option.any_some]
    exact decide_eq_true hfirst
  · intro hfree j hmem hholds
    obtain ⟨c, hc, hon, -⟩ := (h.listed j n).1 hmem
    rw [hc, Option.any_some, decide_eq_true_eq] at hholds
    exact hfree j (mem_activeOn.2 ⟨c, hc, hon, hholds⟩) hmem

/-- **What is in force is installed once**, on the node it starts at or
above it. -/
theorem Coherent.count_installed (h : tree.Coherent) (hc : tree.constraint? id = some c)
    (hon : c.active = true) :
    ∃ steps owner, tree.above? c.first.node steps = some owner ∧
      ∀ n, (tree.installed n).count id = if n = owner then 1 else 0 := by
  obtain ⟨owner, habove, hmem⟩ := h.exists_lineage_of_active hc hon
  obtain ⟨steps, hsteps⟩ := List.mem_iff_getElem?.1 habove
  refine ⟨steps, owner, (h.above?_eq _ _).trans hsteps, fun n => ?_⟩
  split
  · rename_i heq
    subst heq
    exact List.count_eq_one_of_mem (h.nodup n) hmem
  · rename_i hne
    refine List.count_eq_zero.2 fun hother => hne ?_
    -- a constraint has one owner
    obtain ⟨k, hk, -, howner⟩ := (h.listed id owner).1 hmem
    obtain ⟨k', hk', -, howner'⟩ := (h.listed id n).1 hother
    cases hk.symm.trans hk'
    exact Option.some.inj (howner'.symm.trans howner)

/-! ## The way up -/

/-- **What the search finds** is the first of a list on the way up, and the
lists before that one have none. -/
theorem Rooted.exists_steps_of_findOnLineage? (h : tree.Rooted)
    (hfind : tree.findOnLineage? anchor = some id) :
    ∃ steps owner, tree.above? anchor.node steps = some owner ∧
      tree.findInstalled? owner anchor = some id ∧
      ∀ fewer n, fewer < steps → tree.above? anchor.node fewer = some n →
        tree.findInstalled? n anchor = none := by
  obtain ⟨before, owner, after, hsplit, hfound, hbefore⟩ := List.findSome?_eq_some_iff.1 hfind
  refine ⟨before.length, owner, ?_, hfound, fun fewer n hlt hn => hbefore n ?_⟩
  · rw [h.above?_eq, hsplit, List.getElem?_append_right (Nat.le_refl _), Nat.sub_self]
    rfl
  · rw [h.above?_eq, hsplit, List.getElem?_append_left hlt] at hn
    exact List.mem_of_getElem? hn

/-- **The search of the lineage agrees with a scan of the arena.** Whatever
was done to a tree, and for any anchor, the search finds nothing exactly if
nothing is in force for the anchor. What it finds is in force for it, and on
no node that is fewer steps up than its owner is anything else that is.
Everything in force for the anchor is on one installed list, once, and its
node is some steps up from the anchor's. -/
theorem lineage_search_agrees (h : tree.Reached) (anchor : Anchor) :
    (tree.findOnLineage? anchor = none ↔ tree.activeOn anchor = []) ∧
      (∀ id, tree.findOnLineage? anchor = some id →
        id ∈ tree.activeOn anchor ∧
          ∃ steps owner c, tree.above? anchor.node steps = some owner ∧
            tree.constraint? id = some c ∧ c.owner = some owner ∧
            ∀ fewer n, fewer < steps → tree.above? anchor.node fewer = some n →
              ∀ j ∈ tree.activeOn anchor, j ∉ tree.installed n) ∧
      ∀ id ∈ tree.activeOn anchor, ∃ steps owner,
        tree.above? anchor.node steps = some owner ∧
          ∀ n, (tree.installed n).count id = if n = owner then 1 else 0 := by
  have hcoherent := h.coherent
  refine ⟨hcoherent.findOnLineage?_eq_none_iff, fun id hfind => ?_, fun id hactive => ?_⟩
  · obtain ⟨steps, owner, habove, hfound, hbelow⟩ :=
      hcoherent.exists_steps_of_findOnLineage? hfind
    obtain ⟨c, hc, -, howner⟩ := (hcoherent.listed id owner).1 (List.mem_of_find?_eq_some hfound)
    refine ⟨hcoherent.mem_activeOn_of_findOnLineage? hfind, steps, owner, c, habove, hc, howner,
      fun fewer n hlt hn => ?_⟩
    exact hcoherent.findInstalled?_eq_none_iff.1 (hbelow fewer n hlt hn)
  · obtain ⟨c, hc, hon, rfl⟩ := mem_activeOn.1 hactive
    exact hcoherent.count_installed hc hon

/-- Two children of the root. The top of the second is tied to the first,
and then to the second's own bottom. -/
def pair : Tree :=
  (((initial.insertChild root { id := "a", kind := .view } none).insertChild root
    { id := "b", kind := .view } none).addConstraint
      { first := ⟨2, .top⟩, second := some ⟨1, .bottom⟩, active := true }).addConstraint
        { first := ⟨2, .top⟩, second := some ⟨2, .bottom⟩, active := true }

/-- Both are in force. The search finds the later one, which is installed on
the child itself, and not the one on the root. -/
theorem lineage_search_of_pair :
    pair.Reached ∧ pair.activeOn ⟨2, .top⟩ = [0, 1] ∧ pair.findOnLineage? ⟨2, .top⟩ = some 1 ∧
      (∃ steps owner c, pair.above? 2 steps = some owner ∧ pair.constraint? 1 = some c ∧
        c.owner = some owner ∧
        ∀ fewer n, fewer < steps → pair.above? 2 fewer = some n →
          ∀ j ∈ pair.activeOn ⟨2, .top⟩, j ∉ pair.installed n) ∧
      pair.installed root = [0] := by
  have hreached : pair.Reached := by
    refine .tail (.tail (.tail (.tail .refl (.insertChild none ?_ rfl))
      (.insertChild none ?_ rfl)) (.addConstraint ⟨?_, ?_⟩)) (.addConstraint ⟨?_, ?_⟩)
    · decide
    · decide
    · decide
    · rintro s ⟨⟩
      decide
    · decide +kernel
    · rintro s ⟨⟩
      decide +kernel
  have hfound : pair.findOnLineage? ⟨2, .top⟩ = some 1 := by decide +kernel
  obtain ⟨-, hnearest, -⟩ := lineage_search_agrees hreached ⟨2, .top⟩
  exact ⟨hreached, by decide +kernel, hfound, (hnearest 1 hfound).2, by decide +kernel⟩

end Tree

end LiveLayout
