import LiveLayout.Proofs.Expressions
/-!
# Expressions applied again

What the expressions of a modify leave behind is where applying them again
puts it. Once they are applied every accepted one holds its attribute from
a position that no snapshot list addresses, and the installed list of each
owner ends with them in their order (`Settled`, `Settled.constrainAll`). In
such a tree each of them is replaced by itself and moves to the end of its
list. After the last one the lists are as they were
(`Settled.constrainAll_eq`).
-/

namespace LiveLayout

/-- **Where the constraint of an acceptance is**: its position in the arena
and the node it is installed on. -/
structure Placement where
  acceptance : Acceptance
  slot : ConstraintId
  owner : NodeIndex

namespace Placement

/-- The attribute that is held. -/
def target (p : Placement) : Anchor := p.acceptance.target

/-- The constraint as it is stored. -/
def constraint (p : Placement) : Constraint :=
  { p.acceptance.constraint with owner := some p.owner }

/-- The positions of the placements on one node, in order. -/
def slotsAt (n : NodeIndex) (ps : List Placement) : List ConstraintId :=
  (ps.filter fun p => p.owner = n).map (·.slot)

theorem slotsAt_cons (n : NodeIndex) (p : Placement) (ps : List Placement) :
    slotsAt n (p :: ps) = (if n = p.owner then [p.slot] else []) ++ slotsAt n ps := by
  unfold slotsAt
  rw [List.filter_cons]
  by_cases h : n = p.owner
  · rw [if_pos h, if_pos (decide_eq_true h.symm)]
    rfl
  · rw [if_neg h, if_neg fun he => h (of_decide_eq_true he).symm]
    rfl

theorem slotsAt_append (n : NodeIndex) (ps qs : List Placement) :
    slotsAt n (ps ++ qs) = slotsAt n ps ++ slotsAt n qs := by
  unfold slotsAt
  rw [List.filter_append, List.map_append]

end Placement

namespace Tree

variable {tree other : Tree} {idx n owner : NodeIndex} {slot : ConstraintId} {c : Constraint}
variable {a : Acceptance} {p : Placement} {ps done : List Placement} {modify : Bool}
variable {held : Option (ConstraintId × Constraint)}

/-! ## One constraint put in force -/

/-- What becomes of a node, on top of what `Enforced` says: it is positioned
if it is the constraint's. -/
theorem Coherent.node?_constrain (h : tree.Coherent) (hon : c.active = true)
    (ho : tree.ownerFor? c.first c.second = some owner) (n : NodeIndex) :
    (tree.constrain modify c).node? n = (tree.node? n).map fun node =>
      { node with
        installed := (node.without (tree.prior? modify c)).installed ++
          if n = owner then [tree.slotFor (tree.prior? modify c)] else []
        autoresizing := if c.first.node = n then false else node.autoresizing } := by
  rw [constrain_eq, position, node?_modifyNode, (h.enforced modify hon ho).node?]
  split
  · rw [Option.map_map]
    rfl
  · rfl

theorem Coherent.installed_constrain (h : tree.Coherent) (hon : c.active = true)
    (ho : tree.ownerFor? c.first c.second = some owner) (hlt : owner < tree.size)
    (n : NodeIndex) :
    (tree.constrain modify c).installed n =
      (tree.installed n).filter (fun i => some i != tree.prior? modify c) ++
        if n = owner then [tree.slotFor (tree.prior? modify c)] else [] := by
  unfold installed
  rw [h.node?_constrain hon ho]
  cases hn : tree.node? n with
  | some node => rfl
  | none =>
    have hne : n ≠ owner := by
      rintro rfl
      obtain ⟨node, hnode⟩ := node?_of_lt hlt
      rw [hn] at hnode
      cases hnode
    rw [if_neg hne]
    rfl

theorem isSnapshotted_constrain (slot : ConstraintId) :
    (tree.constrain modify c).isSnapshotted slot = tree.isSnapshotted slot := by
  rw [Bool.eq_iff_iff, isSnapshotted_iff, isSnapshotted_iff]
  simp only [snapshot_constrain]

/-! ## Acceptances in place -/

/-- **An accepted expression in place**: its constraint holds the attribute
from a position that can be reused, and its node is positioned. -/
structure InPlace (tree : Tree) (p : Placement) : Prop where
  owner : tree.ownerFor? p.target p.acceptance.second = some p.owner
  holds : tree.Holds p.target (some (p.slot, p.constraint))
  free : tree.isSnapshotted p.slot = false
  positioned : ∀ node, tree.node? p.target.node = some node → node.autoresizing = false

namespace InPlace

theorem constraint? (hp : tree.InPlace p) : tree.constraint? p.slot = some p.constraint :=
  ((hp.holds p.slot p.constraint).2 rfl).1

theorem anchored (hp : tree.InPlace p) (h : tree.Coherent) :
    tree.Anchored p.acceptance.constraint := by
  have ha := h.anchored p.slot p.constraint hp.constraint?
  exact ⟨ha.first, ha.second⟩

/-- **A constraint of another attribute leaves it in place.** -/
theorem constrain (hp : tree.InPlace p) (h : tree.Coherent) (hon : c.active = true)
    (ho : tree.ownerFor? c.first c.second = some owner) (hne : p.target ≠ c.first) :
    (tree.constrain modify c).InPlace p where
  owner := by
    rw [sameShape_constrain.ownerFor?_eq]
    exact hp.owner
  holds := h.holds_constrain_of_ne hon ho hne hp.holds
  free := by
    rw [isSnapshotted_constrain]
    exact hp.free
  positioned node hnode := by
    rw [h.node?_constrain hon ho] at hnode
    obtain ⟨before, hbefore, rfl⟩ := Option.map_eq_some_iff.1 hnode
    show (if _ then false else before.autoresizing) = false
    split
    · rfl
    · exact hp.positioned before hbefore

end InPlace

/-- **An expression that has just taken effect is in place.** -/
theorem Coherent.inPlace_constrain (h : tree.Coherent) (hrec : tree.Recorded)
    (ho : tree.ownerFor? a.target a.second = some owner) (hheld : tree.Holds a.target held)
    (hfree : modify = true ∨ held = none) :
    (tree.constrain modify a.constraint).InPlace
      ⟨a, tree.slotFor (tree.prior? modify a.constraint), owner⟩ where
  owner := by
    rw [sameShape_constrain.ownerFor?_eq]
    exact ho
  holds := h.holds_constrain rfl ho hheld hfree
  free := by
    rw [isSnapshotted_constrain]
    rcases tree.slotFor_cases (tree.prior? modify a.constraint) with hend | ⟨-, hfree⟩
    · rw [hend, ← Bool.not_eq_true, isSnapshotted_iff]
      rintro ⟨n, hmem⟩
      exact Nat.lt_irrefl _ (hrec n _ hmem)
    · exact hfree
  positioned node hnode := by
    rw [h.node?_constrain rfl ho] at hnode
    obtain ⟨before, -, rfl⟩ := Option.map_eq_some_iff.1 hnode
    exact if_pos rfl

/-! ## The first time -/

/-- **A tree in which acceptances are settled**: they are in place, and each
installed list ends with them in their order. -/
structure Settled (tree : Tree) (ps : List Placement) : Prop where
  inPlace : ∀ p ∈ ps, tree.InPlace p
  last : ∀ n, Placement.slotsAt n ps <:+ tree.installed n

/-- **One more acceptance**, of another attribute, settles behind the
others. What it replaces is none of them. -/
theorem Settled.constrain (hs : tree.Settled ps) (h : tree.Coherent) (hrec : tree.Recorded)
    (ho : tree.ownerFor? a.target a.second = some owner) (hlt : owner < tree.size)
    (hheld : tree.Holds a.target held) (hfree : modify = true ∨ held = none)
    (hnew : ∀ p ∈ ps, p.target ≠ a.target) :
    (tree.constrain modify a.constraint).Settled
      (ps ++ [⟨a, tree.slotFor (tree.prior? modify a.constraint), owner⟩]) where
  inPlace p hp := by
    rcases List.mem_append.1 hp with hp | hp
    · exact (hs.inPlace p hp).constrain h rfl ho (hnew p hp)
    · rw [List.mem_singleton.1 hp]
      exact h.inPlace_constrain hrec ho hheld hfree
  last n := by
    -- what is taken off a list is none of those that are settled
    have hkept : (Placement.slotsAt n ps).filter
        (fun i => some i != tree.prior? modify a.constraint) = Placement.slotsAt n ps := by
      refine List.filter_eq_self.2 fun i hi => bne_iff_ne.2 fun hprior => ?_
      obtain ⟨p, hp, rfl⟩ := List.mem_map.1 hi
      have hin := (List.mem_filter.1 hp).1
      exact hnew p hin (h.first_of_prior? hprior.symm (hs.inPlace p hin).constraint?)
    obtain ⟨before, hbefore⟩ := (hs.last n).filter
      fun i => some i != tree.prior? modify a.constraint
    rw [hkept] at hbefore
    refine ⟨before, ?_⟩
    rw [h.installed_constrain rfl ho hlt, Placement.slotsAt_append, Placement.slotsAt_cons,
      ← hbefore, List.append_assoc]
    simp only [Placement.slotsAt, List.filter_nil, List.map_nil, List.append_nil]

/-- **The expressions of a modify settle**, if they are of different
attributes and each attribute was held by at most one constraint. -/
theorem Settled.constrainAll {accepted : List Acceptance} (hs : tree.Settled done)
    (h : tree.Coherent) (hrec : tree.Recorded)
    (hanchored : ∀ a ∈ accepted, tree.Anchored a.constraint)
    (hsole : ∀ a ∈ accepted, tree.Sole a.target)
    (hnodup : (done.map (·.target) ++ accepted.map (·.target)).Nodup) :
    ∃ ps, ps.map (·.acceptance) = accepted ∧
      (tree.constrainAll true accepted).Settled (done ++ ps) := by
  induction accepted generalizing tree done with
  | nil =>
    refine ⟨[], rfl, ?_⟩
    rw [List.append_nil]
    exact hs
  | cons a rest ih =>
    have ha := hanchored a List.mem_cons_self
    obtain ⟨owner, ho, hlt⟩ := h.exists_ownerFor? ha
    obtain ⟨held, hheld⟩ := (hsole a List.mem_cons_self).exists_holds
    have hshape : tree.SameShape (tree.constrain true a.constraint) := sameShape_constrain
    rw [List.map_cons] at hnodup
    obtain ⟨-, hrest, hdisjoint⟩ := List.nodup_append.1 hnodup
    have hnew : ∀ p ∈ done, p.target ≠ a.target := fun p hp =>
      hdisjoint p.target (List.mem_map.2 ⟨p, hp, rfl⟩) a.target List.mem_cons_self
    have hsettled := hs.constrain h hrec ho hlt hheld (.inl rfl) hnew
    have hsole' : ∀ b ∈ rest, (tree.constrain true a.constraint).Sole b.target := by
      intro b hb
      -- the attribute of a later one is not the one just taken
      have hne : b.target ≠ a.target := by
        intro heq
        exact (List.nodup_cons.1 hrest).1 (heq ▸ List.mem_map.2 ⟨b, hb, rfl⟩)
      obtain ⟨heldb, hheldb⟩ := (hsole b (List.mem_cons_of_mem _ hb)).exists_holds
      exact (h.holds_constrain_of_ne rfl ho hne hheldb).sole
    generalize tree.slotFor (tree.prior? true a.constraint) = slot at hsettled
    have hnodup' : ((done ++ [(⟨a, slot, owner⟩ : Placement)]).map (·.target) ++
        rest.map (·.target)).Nodup := by
      rw [List.map_append, List.append_assoc]
      exact hnodup
    obtain ⟨ps, hps, hall⟩ := ih hsettled (h.constrain true ha) (hrec.constrain true a.constraint)
      (fun b hb => hshape.anchored (hanchored b (List.mem_cons_of_mem _ hb))) hsole' hnodup'
    refine ⟨⟨a, slot, owner⟩ :: ps, ?_, ?_⟩
    · rw [List.map_cons, hps]
    · rw [List.append_cons]
      exact hall

/-! ## The second time -/

/-- What stands between two parts of a list, taken out. -/
theorem filter_bne_middle {before behind : List ConstraintId} {id : ConstraintId}
    (h : (before ++ id :: behind).Nodup) :
    (before ++ id :: behind).filter (fun i => some i != some id) = before ++ behind := by
  obtain ⟨-, hbehind, hdisjoint⟩ := List.nodup_append.1 h
  have hself : ∀ l : List ConstraintId, id ∉ l →
      l.filter (fun i => some i != some id) = l := by
    intro l hl
    refine List.filter_eq_self.2 fun i hi => bne_iff_ne.2 ?_
    rintro ⟨⟩
    exact hl hi
  have hnot : id ∉ before := fun hmem => hdisjoint id hmem id List.mem_cons_self rfl
  rw [List.filter_append, hself before hnot, List.filter_cons_of_neg, hself behind]
  · exact (List.nodup_cons.1 hbehind).1
  · rw [bne_self_eq_false]
    exact Bool.false_ne_true

namespace InPlace

/-- What is replaced is the constraint itself, where it is. -/
theorem prior?_eq (hp : tree.InPlace p) (h : tree.Coherent) :
    tree.prior? true p.acceptance.constraint = some p.slot := by
  have hheld : tree.Holds p.acceptance.constraint.first (some (p.slot, p.constraint)) := hp.holds
  exact h.prior?_eq hheld (.inl rfl)

theorem slotFor_eq (hp : tree.InPlace p) : tree.slotFor (some p.slot) = p.slot :=
  if_neg ((Bool.not_eq_true _).mpr hp.free)

/-- **An expression in place that is applied again** leaves the arena as it
is. -/
theorem constraint?_constrain (hp : tree.InPlace p) (h : tree.Coherent) (j : ConstraintId) :
    (tree.constrain true p.acceptance.constraint).constraint? j = tree.constraint? j := by
  show (tree.enforce true p.acceptance.constraint).constraint? j = _
  rw [(h.enforced true rfl hp.owner).constraint?, hp.prior?_eq h, hp.slotFor_eq]
  split
  · rename_i hj
    rw [hj, hp.constraint?]
    rfl
  · rename_i hj
    rw [if_neg fun he => hj (Option.some.inj he).symm]

/-- **Its constraint moves to the end of its list.** -/
theorem node?_constrain (hp : tree.InPlace p) (h : tree.Coherent) (n : NodeIndex) :
    (tree.constrain true p.acceptance.constraint).node? n = (tree.node? n).map fun node =>
      { node with
        installed := node.installed.filter (fun i => some i != some p.slot) ++
          if n = p.owner then [p.slot] else [] } := by
  rw [h.node?_constrain rfl hp.owner, hp.prior?_eq h, hp.slotFor_eq]
  cases hn : tree.node? n with
  | none => rfl
  | some node =>
    have hauto : (if p.target.node = n then false else node.autoresizing) = node.autoresizing := by
      split
      · rename_i heq
        subst heq
        exact (hp.positioned node hn).symm
      · rfl
    rw [Option.map_some, Option.map_some]
    refine congrArg some ?_
    show { node with installed := _, autoresizing := if p.target.node = n then _ else _ } = _
    rw [hauto]
    rfl

/-- Only the arena, the shape and the snapshot lists count, and that nodes
stay positioned. -/
theorem of_same (hp : tree.InPlace p) (hshape : tree.SameShape other)
    (hc : ∀ j, other.constraint? j = tree.constraint? j)
    (hsnap : ∀ n, other.snapshot n = tree.snapshot n)
    (hauto : ∀ n, (other.node? n).map (·.autoresizing) = (tree.node? n).map (·.autoresizing)) :
    other.InPlace p where
  owner := by
    rw [hshape.ownerFor?_eq]
    exact hp.owner
  holds j k := by
    rw [hc]
    exact hp.holds j k
  free := by
    rw [← hp.free, Bool.eq_iff_iff, isSnapshotted_iff, isSnapshotted_iff]
    simp only [hsnap]
  positioned node hnode := by
    have hsame := hauto p.target.node
    rw [hnode] at hsame
    obtain ⟨before, hbefore, heq⟩ := Option.map_eq_some_iff.1 hsame.symm
    have heq : before.autoresizing = node.autoresizing := heq
    rw [← heq]
    exact hp.positioned before hbefore

end InPlace

/-- Acceptances that are settled move to the ends of their lists, one after
another, past whatever is behind them. -/
theorem constrainAll_of_inPlace (before behind : NodeIndex → List ConstraintId)
    (h : tree.Coherent) (hin : ∀ p ∈ ps, tree.InPlace p)
    (hlist : ∀ n, tree.installed n = before n ++ Placement.slotsAt n ps ++ behind n) :
    (∀ j, (tree.constrainAll true (ps.map (·.acceptance))).constraint? j = tree.constraint? j) ∧
      ∀ n, (tree.constrainAll true (ps.map (·.acceptance))).node? n =
        (tree.node? n).map fun node =>
          { node with installed := before n ++ (behind n ++ Placement.slotsAt n ps) } := by
  induction ps generalizing tree behind with
  | nil =>
    refine ⟨fun _ => rfl, fun n => ?_⟩
    show tree.node? n = _
    cases hnode : tree.node? n with
    | none => rfl
    | some node =>
      have hself : node.installed = before n ++ (behind n ++ Placement.slotsAt n []) := by
        rw [← installed_of_node? hnode, hlist n]
        simp only [Placement.slotsAt, List.filter_nil, List.map_nil, List.append_nil]
      rw [Option.map_some, ← hself]
  | cons p rest ih =>
    -- it goes to the very end, where the rest will pass it
    have hp := hin p List.mem_cons_self
    have hsame := hp.constraint?_constrain h
    have hnode := hp.node?_constrain h
    have hlist' : ∀ n, (tree.constrain true p.acceptance.constraint).installed n =
        before n ++ Placement.slotsAt n rest ++
          (behind n ++ if n = p.owner then [p.slot] else []) := by
      intro n
      have hnodup := h.nodup n
      obtain ⟨owner, ho, hlt⟩ := h.exists_ownerFor? (hp.anchored h)
      have howner : owner = p.owner := Option.some.inj (ho.symm.trans hp.owner)
      subst howner
      rw [h.installed_constrain rfl ho hlt, hp.prior?_eq h, hp.slotFor_eq, ← List.append_assoc]
      refine congrArg (· ++ _) ?_
      by_cases hn : n = p.owner
      · -- it is taken out from between the ones before and the ones after
        rw [hlist n, Placement.slotsAt_cons, if_pos hn, List.singleton_append,
          List.append_assoc, List.cons_append] at hnodup ⊢
        rw [filter_bne_middle hnodup, List.append_assoc]
      · -- it is not on this list
        have hnot : p.slot ∉ tree.installed n := by
          intro hmem
          obtain ⟨k, hk, -, hk'⟩ := (h.listed p.slot n).1 hmem
          rw [hp.constraint?] at hk
          cases hk
          exact hn (Option.some.inj hk').symm
        rw [List.filter_eq_self.2 fun i hi => bne_iff_ne.2 ?_, hlist n, Placement.slotsAt_cons,
          if_neg hn, List.nil_append]
        rintro ⟨⟩
        exact hnot hi
    have hrest : ∀ q ∈ rest, (tree.constrain true p.acceptance.constraint).InPlace q := by
      intro q hq
      refine (hin q (List.mem_cons_of_mem _ hq)).of_same sameShape_constrain hsame
        (fun _ => snapshot_constrain) fun n => ?_
      rw [hnode]
      cases tree.node? n <;> rfl
    obtain ⟨hconstraints, hnodes⟩ := ih _ (h.constrain true (hp.anchored h)) hrest hlist'
    refine ⟨fun j => (hconstraints j).trans (hsame j), fun n => (hnodes n).trans ?_⟩
    rw [hnode, Option.map_map, Placement.slotsAt_cons, ← List.append_assoc (behind n)]
    rfl

/-- **Settled expressions applied again change nothing.** -/
theorem Settled.constrainAll_eq (hs : tree.Settled ps) (h : tree.Coherent) :
    tree.constrainAll true (ps.map (·.acceptance)) = tree := by
  have hlast : ∀ n, ∃ before, before ++ Placement.slotsAt n ps = tree.installed n := hs.last
  obtain ⟨before, hbefore⟩ := Classical.axiomOfChoice hlast
  obtain ⟨hconstraints, hnodes⟩ := constrainAll_of_inPlace before (fun _ => []) h hs.inPlace
    fun n => by rw [List.append_nil, hbefore]
  refine ext_get (fun n => ?_) hconstraints
  rw [hnodes]
  cases hnode : tree.node? n with
  | none => rfl
  | some node =>
    rw [Option.map_some, List.nil_append, hbefore, installed_of_node? hnode]

end Tree

end LiveLayout
