import LiveLayout.Proofs.Admission
import LiveLayout.Proofs.Footprints
import LiveLayout.Proofs.Mirrors
/-!
# What an expression takes over

An expression that a modify brings takes its attribute over from one
constraint, the first that the search of the lineage finds. `TakenOver` says
all that this changes in the arena. The constraint is put at the old one's
position, or at the end of the arena if there is none or a snapshot list
addresses it (`Placed`). So what is in force for the attribute stays as many,
and is one where it was none: were there several, only one of them is
replaced.
-/

namespace LiveLayout

namespace Tree

variable {tree after : Tree} {registry : Registry} {idx owner : NodeIndex} {slot : ConstraintId}
variable {c : Constraint} {anchor : Anchor} {modify : Bool}

/-- **Where the constraint of an expression is put**, and how long the arena
is then. -/
inductive Placed (tree : Tree) (anchor : Anchor) : ConstraintId → Nat → Prop
  /-- There is nothing to replace. -/
  | first : tree.findOnLineage? anchor = none →
      Placed tree anchor tree.constraints.size (tree.constraints.size + 1)
  /-- A list addresses what is replaced, so that it stays. -/
  | beside {prior : ConstraintId} {n : NodeIndex} : tree.findOnLineage? anchor = some prior →
      prior ∈ tree.snapshot n →
      Placed tree anchor tree.constraints.size (tree.constraints.size + 1)
  /-- No list does. -/
  | over {prior : ConstraintId} : tree.findOnLineage? anchor = some prior →
      (∀ n, prior ∉ tree.snapshot n) → Placed tree anchor prior tree.constraints.size

/-- **A constraint that has taken its attribute over.** -/
structure TakenOver (tree : Tree) (c : Constraint) (slot : ConstraintId) (owner : NodeIndex)
    (after : Tree) : Prop where
  placed : tree.Placed c.first slot after.constraints.size
  written : after.constraint? slot = some { c with active := true, owner := some owner }
  /-- It is installed on the nearest common ancestor of its nodes. -/
  installed : slot ∈ after.installed owner
  belongs : tree.Belongs c owner
  /-- What it replaces is off, unless it is gone. -/
  replaced : ∀ prior, tree.findOnLineage? c.first = some prior → prior ≠ slot →
    after.constraint? prior = (tree.constraint? prior).map Constraint.idle
  others : ∀ j, j ≠ slot → tree.findOnLineage? c.first ≠ some j →
    after.constraint? j = tree.constraint? j
  count : (after.activeOn c.first).length = max 1 (tree.activeOn c.first).length

/-! ## How many are in force -/

theorem nodup_activeOn (tree : Tree) (anchor : Anchor) : (tree.activeOn anchor).Nodup :=
  List.nodup_range.sublist List.filter_sublist

/-- **In force for the attribute then** is the constraint, and what was in
force before but for the one it replaces. -/
theorem Coherent.activeOn_constrain_perm (h : tree.Coherent) (hon : c.active = true)
    (ho : tree.ownerFor? c.first c.second = some owner) :
    ((tree.constrain modify c).activeOn c.first).Perm
      (tree.slotFor (tree.prior? modify c) ::
        (tree.activeOn c.first).filter fun j => some j != tree.prior? modify c) := by
  have hget : ∀ j, (tree.constrain modify c).constraint? j = _ :=
    (h.enforced modify hon ho).constraint?
  refine (List.perm_ext_iff_of_nodup (nodup_activeOn _ _) (List.nodup_cons.2 ⟨?_, ?_⟩)).2
    fun j => ?_
  · -- the position is free, or is that of the one replaced
    rw [List.mem_filter, bne_iff_ne]
    rintro ⟨hmem, hne⟩
    rcases tree.slotFor_cases (tree.prior? modify c) with hend | ⟨hprior, -⟩
    · obtain ⟨k, hk, -, -⟩ := mem_activeOn.1 hmem
      exact absurd (lt_of_constraint? hk) (hend ▸ Nat.lt_irrefl _)
    · exact hne hprior.symm
  · exact (nodup_activeOn _ _).sublist List.filter_sublist
  · rw [List.mem_cons, List.mem_filter, bne_iff_ne, mem_activeOn, mem_activeOn, hget]
    by_cases hslot : j = tree.slotFor (tree.prior? modify c)
    · rw [if_pos hslot]
      exact iff_of_true ⟨_, rfl, rfl, rfl⟩ (.inl hslot)
    · rw [if_neg hslot, or_iff_right hslot]
      by_cases hprior : tree.prior? modify c = some j
      · rw [if_pos hprior]
        refine iff_of_false ?_ fun hkept => hkept.2 hprior.symm
        rintro ⟨k, hk, hkon, -⟩
        obtain ⟨old, -, rfl⟩ := Option.map_eq_some_iff.1 hk
        cases hkon
      · rw [if_neg hprior, and_iff_left fun heq => hprior heq.symm]

/-- **As many as before, and at least one.** -/
theorem Coherent.length_activeOn_constrain (h : tree.Coherent) (hon : c.active = true)
    (ho : tree.ownerFor? c.first c.second = some owner) :
    ((tree.constrain true c).activeOn c.first).length =
      max 1 (tree.activeOn c.first).length := by
  rw [(h.activeOn_constrain_perm hon ho).length_eq, List.length_cons]
  cases hprior : tree.prior? true c with
  | none =>
    rw [h.findOnLineage?_eq_none_iff.1 hprior]
    rfl
  | some prior =>
    have hmem := h.mem_activeOn_of_prior? hprior
    have hlength := List.length_erase_of_mem hmem
    rw [(tree.nodup_activeOn c.first).erase_eq_filter] at hlength
    have hpos := List.length_pos_of_mem hmem
    have hfilter : ((tree.activeOn c.first).filter fun j => some j != some prior) =
        (tree.activeOn c.first).filter (· != prior) := by
      refine List.filter_congr fun j _ => ?_
      rw [Bool.eq_iff_iff, bne_iff_ne, bne_iff_ne, ne_eq, Option.some.injEq]
    rw [hfilter, hlength]
    omega

/-! ## What changes in the arena -/

/-- The position that is chosen. -/
theorem Coherent.placed (h : tree.Coherent) (hon : c.active = true)
    (ho : tree.ownerFor? c.first c.second = some owner) :
    tree.Placed c.first (tree.slotFor (tree.prior? true c))
      (tree.constrain true c).constraints.size := by
  rw [h.size_constraints_constrain hon ho]
  cases hprior : tree.prior? true c with
  | none =>
    have hslot : tree.slotFor none = tree.constraints.size := rfl
    rw [hslot, if_pos rfl]
    exact .first hprior
  | some prior =>
    obtain ⟨k, hk, -, -⟩ := mem_activeOn.1 (h.mem_activeOn_of_prior? hprior)
    cases hsnap : tree.isSnapshotted prior with
    | true =>
      obtain ⟨n, hn⟩ := isSnapshotted_iff.1 hsnap
      have hslot : tree.slotFor (some prior) = tree.constraints.size := if_pos hsnap
      rw [hslot, if_pos rfl]
      exact .beside hprior hn
    | false =>
      have hslot : tree.slotFor (some prior) = prior := if_neg (Bool.eq_false_iff.1 hsnap)
      rw [hslot, if_neg (Nat.ne_of_lt (lt_of_constraint? hk))]
      exact .over hprior fun n hn => Bool.eq_false_iff.1 hsnap (isSnapshotted_iff.2 ⟨n, hn⟩)

/-- **A constraint that is put in force takes its attribute over.** -/
theorem Coherent.takenOver (h : tree.Coherent) (hc : tree.Anchored c) (hon : c.active = true) :
    ∃ slot owner, tree.TakenOver c slot owner (tree.constrain true c) := by
  obtain ⟨owner, ho, hlt⟩ := h.exists_ownerFor? hc
  have hget : ∀ j, (tree.constrain true c).constraint? j = _ :=
    (h.enforced true hon ho).constraint?
  refine ⟨tree.slotFor (tree.prior? true c), owner, h.placed hon ho, ?_, ?_,
    h.toRooted.belongs_of_ownerFor? ho, fun prior hprior hne => ?_, fun j hne hprior => ?_,
    h.length_activeOn_constrain hon ho⟩
  · rw [hget, if_pos rfl]
  · rw [h.installed_constrain hon ho hlt, if_pos rfl]
    exact List.mem_append_right _ List.mem_cons_self
  · have hprior' : tree.prior? true c = some prior := hprior
    rw [hget, if_neg hne, if_pos hprior']
  · have hprior' : tree.prior? true c ≠ some j := hprior
    rw [hget, if_neg hne, if_neg hprior']

/-- **What an expression of a modify does** to the tree it meets, and what is
said of it. -/
structure Expressed (resolve : Reference → Option NodeIndex) (idx : NodeIndex)
    (entry : String × String) (tree : Tree) (result : Tree × List Diagnostic) : Prop where
  /-- It is accepted exactly if it is admissible. -/
  accepted : result.2 = [] ↔ Admissible resolve idx entry.1 entry.2
  /-- Then its constraint takes the attribute over. -/
  effect : result.2 = [] → ∃ c slot owner, Admitted resolve idx entry.1 entry.2 c ∧
    tree.TakenOver c slot owner result.1
  /-- Otherwise one thing is said, and the tree is as it was. -/
  refused : result.2 ≠ [] → result.1 = tree ∧ ∃ d, result.2 = [d]
  /-- Common ancestors are never wanting. -/
  related : ∀ d ∈ result.2, ∀ name, d.cause ≠ .anchorInvalid name .noCommonAncestor

theorem Coherent.expressed (h : tree.Coherent) (hwithin : registry.Within tree)
    (hidx : idx < tree.size) (entry : String × String) :
    Expressed (registry.resolve? tree idx) idx entry tree
      (tree.applyExpression registry idx true entry) := by
  have haccepted : (tree.applyExpression registry idx true entry).2 = [] ↔
      Admissible (registry.resolve? tree idx) idx entry.1 entry.2 :=
    (SameShape.refl tree).snd_applyExpression_eq_nil_iff h.toRooted hwithin hidx true
  unfold applyExpression at haccepted ⊢
  cases hfor : tree.constraintFor registry idx entry.1 entry.2 with
  | ok c =>
    rw [hfor] at haccepted
    have hadmitted := (h.toRooted.constraintFor_eq_ok_iff hwithin hidx).1 hfor
    have hon : c.active = true := by cases hadmitted <;> rfl
    obtain ⟨slot, owner, htaken⟩ :=
      h.takenOver (h.toRooted.anchored_of_admitted hwithin hidx hadmitted) hon
    exact ⟨haccepted, fun _ => ⟨c, slot, owner, hadmitted, htaken⟩, fun hsaid => absurd rfl hsaid,
      fun _ hd => absurd hd List.not_mem_nil⟩
  | error cause =>
    rw [hfor] at haccepted
    refine ⟨haccepted, nofun, fun _ => ⟨rfl, _, rfl⟩, fun d hd name => ?_⟩
    obtain rfl := List.mem_singleton.1 hd
    exact h.toRooted.constraintFor_ne_noCommonAncestor hwithin hidx hfor name

end Tree

/-! ## Expressions -/

namespace Session

variable {session : Session} {idx : NodeIndex} {view : ViewChange}
variable {entries : List (String × String)}

/-- **The effect of an expression.** In a session that was reached, take a
modify of a node with expressions for some attributes. They are applied one
after another, and this changes nothing of the engine but the tree. Each one
is accepted, as it is met, exactly if it is admissible, and never refused for
want of a common ancestor. If it is accepted, the constraint it asks for takes
its attribute over. If it is refused, one thing is said, and the tree is as it
was. -/
theorem expression_takes_over (h : session.Reached) (hidx : idx < session.engine.tree.size)
    (hentries : view.constraints = some (.expressions entries)) :
    let styled := session.engine.styled idx view
    let resolve := session.engine.registry.resolve? session.engine.tree idx
    let express := Tree.applyExpression styled.registry idx true
    (session.engine.applyContent idx true view).1 =
        { styled with tree := (Diagnostic.collect express styled.tree entries).1 } ∧
      ∀ met ∈ Diagnostic.met express styled.tree entries,
        Tree.Expressed resolve idx met.2 met.1 (express met.1 met.2) := by
  intro styled resolve express
  have hedited : Engine.Edited idx session.engine styled :=
    Engine.edited_styled session.engine idx view
  have hsound : styled.Sound := h.sound.of_edited hidx hedited
  have hidx' : idx < styled.tree.size := hedited.tree.sameShape.size.symm ▸ hidx
  refine ⟨?_, fun met hmet => ?_⟩
  · rw [Engine.applyContent_eq, hentries]
    rfl
  · have hedits : Tree.Edits styled.registry idx styled.tree met.1 :=
      Tree.edits_of_mem_met (fun _ => Tree.edits_applyExpression true) hmet
    have hresolve : styled.registry.resolve? met.1 idx = resolve := by
      rw [hedits.sameShape.resolve?_funext, hedited.tree.sameShape.resolve?_funext,
        hedited.registry]
    have hsize := hedits.sameShape.size
    rw [← hresolve]
    exact (hedits.coherent hsound.coherent hidx').expressed
      (hsound.within.mono (Nat.le_of_eq hsize.symm)) (hsize.symm ▸ hidx') met.2

/-- An entry that gives the shelf another width. -/
def shelfWidened (text : String) : Json :=
  .object [("operation", .string "modify"),
    ("view", .object [("constraints", .object [("width", .string text)]),
      ("id", .string "shelf")])]

/-- A shelf of a fixed width is widened, and then made as wide as the root.
The width it was inserted with is on its list, so the second constraint was
put beside it; the third is written over the second. -/
theorem expression_takes_over_of_shelf :
    let session := ((initial .standard .none).tweak [shelfInserted, shelfWidened "20"]).1
    let entry := ("width", "$(superview)")
    let view : ViewChange := { id := "shelf", constraints := some (.expressions [entry]) }
    let tree := (session.engine.styled 1 view).tree
    let after := (session.engine.modify 1 view).1.tree
    session.Reached ∧ tree.snapshot 1 = [0] ∧ tree.findOnLineage? ⟨1, .width⟩ = some 1 ∧
      (∃ c slot owner, Admitted (session.engine.registry.resolve? session.engine.tree 1) 1
        entry.1 entry.2 c ∧ tree.TakenOver c slot owner after) ∧
      after.activeOn ⟨1, .width⟩ = [1] ∧ after.constraints.size = 2 := by
  intro session entry view tree after
  have hreached : session.Reached := .tweak _ (.initial _ _ _)
  obtain ⟨-, heach⟩ := expression_takes_over hreached
    (by decide +kernel : 1 < session.engine.tree.size) (rfl : view.constraints = _)
  have haccepted : (Tree.applyExpression (session.engine.styled 1 view).registry 1 true tree
      entry).2.length = 0 := by
    decide +kernel
  have hwidth := (heach (tree, entry) (.head _)).effect (List.length_eq_zero_iff.1 haccepted)
  exact ⟨hreached, by decide +kernel, by decide +kernel, hwidth, by decide +kernel,
    by decide +kernel⟩

end Session

end LiveLayout
