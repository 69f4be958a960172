import LiveLayout.Proofs.Replacement
/-!
# The expressions of an entry

Which expressions of an entry are accepted, and with what second anchor, is
settled by the shape of the tree and the registry (`SameShape.accept?_eq`).
Putting a constraint in force changes neither, so the expressions of an
entry come to a list of acceptances, found before any takes effect, whose
constraints are put in force in order (`collect_applyExpression`).
-/

namespace LiveLayout

/-- **An expression that was accepted**: the attribute it ties, the second
anchor as it resolved, and what its text says. -/
structure Acceptance where
  target : Anchor
  second : Option Anchor
  expression : Expression

/-- The constraint an accepted expression puts in force. -/
def Acceptance.constraint (a : Acceptance) : Constraint :=
  { first := a.target, second := a.second, constant := a.expression.offset, active := true }

namespace Tree

variable {tree other : Tree} {registry : Registry} {idx n owner : NodeIndex} {modify : Bool}
variable {entry : String × String} {a : Acceptance}

/-- **What is accepted** of an attribute's expression: its text is one, the
attribute is known, the second anchor resolves, and the two anchors have a
common ancestor. -/
def accept? (tree : Tree) (registry : Registry) (idx : NodeIndex) (entry : String × String) :
    Option Acceptance :=
  match Expression.parse entry.2, Attribute.ofName? entry.1 with
  | .ok expression, some own =>
    match tree.secondFor registry idx entry.1 own expression with
    | .ok second =>
      (tree.ownerFor? ⟨idx, own⟩ second).map fun _ => ⟨⟨idx, own⟩, second, expression⟩
    | .error _ => none
  | _, _ => none

/-- What is said of an expression that is not accepted. -/
def refusal? (tree : Tree) (registry : Registry) (idx : NodeIndex) (entry : String × String) :
    Option Diagnostic :=
  match tree.constraintFor registry idx entry.1 entry.2 with
  | .ok _ => none
  | .error cause => some ⟨(tree.node? idx).map (·.id), cause⟩

/-- **An expression is accepted, and takes effect, or it is refused** with
one diagnostic and no other effect. -/
theorem applyExpression_cases (tree : Tree) (registry : Registry) (idx : NodeIndex)
    (modify : Bool) (entry : String × String) :
    (∃ a, tree.accept? registry idx entry = some a ∧ tree.refusal? registry idx entry = none ∧
      tree.constraintFor registry idx entry.1 entry.2 = .ok a.constraint ∧
      tree.applyExpression registry idx modify entry = (tree.constrain modify a.constraint, [])) ∨
    (∃ d, tree.accept? registry idx entry = none ∧ tree.refusal? registry idx entry = some d ∧
      tree.applyExpression registry idx modify entry = (tree, [d])) := by
  unfold accept? refusal? applyExpression constraintFor
  cases Expression.parse entry.2 with
  | error cause => exact .inr ⟨_, rfl, rfl, rfl⟩
  | ok expression =>
    cases Attribute.ofName? entry.1 with
    | none => exact .inr ⟨_, rfl, rfl, rfl⟩
    | some own =>
      simp only
      cases tree.secondFor registry idx entry.1 own expression with
      | error cause => exact .inr ⟨_, rfl, rfl, rfl⟩
      | ok second =>
        simp only
        cases tree.ownerFor? ⟨idx, own⟩ second with
        | none => exact .inr ⟨_, rfl, rfl, rfl⟩
        | some owner => exact .inl ⟨_, rfl, rfl, rfl, rfl⟩

/-- An acceptance is of an attribute of the node, by its name. -/
theorem accept?_eq_some (h : tree.accept? registry idx entry = some a) :
    a.target.node = idx ∧ Attribute.ofName? entry.1 = some a.target.attr := by
  unfold accept? at h
  split at h
  · rename_i expression own _ hown
    split at h
    · obtain ⟨owner, -, rfl⟩ := Option.map_eq_some_iff.1 h
      exact ⟨rfl, hown⟩
    · cases h
  · cases h

/-- What is accepted is the constraint the expression asks for. -/
theorem constraintFor_of_accept? (h : tree.accept? registry idx entry = some a) :
    tree.constraintFor registry idx entry.1 entry.2 = .ok a.constraint := by
  rcases tree.applyExpression_cases registry idx false entry with
    ⟨b, hb, -, hok, -⟩ | ⟨d, hnone, -, -⟩
  · rw [h] at hb
    cases hb
    exact hok
  · rw [h] at hnone
    cases hnone

/-! ## What it depends on -/

theorem SameShape.secondFor_eq (h : tree.SameShape other) (registry : Registry) (idx : NodeIndex)
    (name : String) (own : Attribute) (expression : Expression) :
    other.secondFor registry idx name own expression =
      tree.secondFor registry idx name own expression := by
  cases expression with
  | literal value => rfl
  | relative target field offset => simp only [secondFor, h.resolve?_eq]

theorem SameShape.accept?_eq (h : tree.SameShape other) :
    other.accept? registry idx = tree.accept? registry idx := by
  funext entry
  unfold accept?
  simp only [h.secondFor_eq, h.ownerFor?_eq]

theorem SameShape.refusal?_eq (h : tree.SameShape other) :
    other.refusal? registry idx = tree.refusal? registry idx := by
  funext entry
  unfold refusal? constraintFor
  simp only [h.secondFor_eq, h.ownerFor?_eq, h.id]

/-! ## A list of expressions -/

/-- What is accepted of a list of expressions. -/
def acceptances (tree : Tree) (registry : Registry) (idx : NodeIndex)
    (entries : List (String × String)) : List Acceptance :=
  entries.filterMap (tree.accept? registry idx)

/-- The constraints of acceptances put in force, in order. -/
def constrainAll (modify : Bool) (tree : Tree) (acceptances : List Acceptance) : Tree :=
  acceptances.foldl (fun tree a => tree.constrain modify a.constraint) tree

/-- The constraints of acceptances relate nodes of the tree. -/
theorem anchored_of_mem_acceptances {entries : List (String × String)} (hr : tree.Rooted)
    (hidx : idx < tree.size) (ha : a ∈ tree.acceptances registry idx entries) :
    tree.Anchored a.constraint := by
  obtain ⟨entry, -, haccept⟩ := List.mem_filterMap.1 ha
  exact anchored_of_constraintFor hr hidx (constraintFor_of_accept? haccept)

theorem SameShape.acceptances_eq (h : tree.SameShape other) (entries : List (String × String)) :
    other.acceptances registry idx entries = tree.acceptances registry idx entries := by
  unfold acceptances
  rw [h.accept?_eq]

theorem sameShape_constrainAll (accepted : List Acceptance) :
    tree.SameShape (tree.constrainAll modify accepted) := by
  induction accepted generalizing tree with
  | nil => exact .refl tree
  | cons a rest ih => exact sameShape_constrain.trans ih

/-- **A list of expressions comes to what is accepted of it**, and to what
is said of the rest. -/
theorem collect_applyExpression (entries : List (String × String)) :
    Diagnostic.collect (applyExpression registry idx modify) tree entries =
      (tree.constrainAll modify (tree.acceptances registry idx entries),
        entries.filterMap (tree.refusal? registry idx)) := by
  induction entries generalizing tree with
  | nil => rfl
  | cons entry rest ih =>
    unfold acceptances
    rcases tree.applyExpression_cases registry idx modify entry with
      ⟨a, haccept, hrefusal, -, happly⟩ | ⟨d, haccept, hrefusal, happly⟩
    · have hshape : tree.SameShape (tree.constrain modify a.constraint) := sameShape_constrain
      simp only [Diagnostic.collect, happly, ih, List.filterMap_cons, haccept, hrefusal,
        hshape.acceptances_eq, hshape.refusal?_eq]
      rfl
    · simp only [Diagnostic.collect, happly, ih, List.filterMap_cons, haccept, hrefusal]
      rfl

/-- Different names are of different attributes. -/
theorem nodup_targets {entries : List (String × String)} (h : (entries.map (·.1)).Nodup) :
    ((tree.acceptances registry idx entries).map (·.target)).Nodup := by
  have hpairwise : entries.Pairwise fun e f => e.1 ≠ f.1 := List.pairwise_map.1 h
  refine List.pairwise_map.2 (List.pairwise_filterMap.2 (hpairwise.imp ?_))
  intro e f hne a ha b hb heq
  rw [← Attribute.name_of_ofName? (accept?_eq_some ha).2,
    ← Attribute.name_of_ofName? (accept?_eq_some hb).2] at hne
  exact hne (congrArg (·.attr.name) heq)

/-- **Where none of the attributes is held, a modify puts constraints in
force as an insert does.** Each of them takes one attribute, and the others
are still free. -/
theorem Coherent.constrainAll_of_free {accepted : List Acceptance} (h : tree.Coherent)
    (hanchored : ∀ a ∈ accepted, tree.Anchored a.constraint)
    (hfree : ∀ a ∈ accepted, tree.activeOn a.target = [])
    (hnodup : (accepted.map (·.target)).Nodup) :
    tree.constrainAll true accepted = tree.constrainAll false accepted := by
  induction accepted generalizing tree with
  | nil => rfl
  | cons a rest ih =>
    have ha := hanchored a List.mem_cons_self
    obtain ⟨owner, ho, -⟩ := h.exists_ownerFor? ha
    obtain ⟨hnotin, hrest⟩ := List.nodup_cons.1 hnodup
    have hstep : tree.constrain true a.constraint = tree.constrain false a.constraint :=
      h.constrain_of_free (hfree a List.mem_cons_self)
    have hshape : tree.SameShape (tree.constrain false a.constraint) := sameShape_constrain
    show (tree.constrain true a.constraint).constrainAll true rest =
      (tree.constrain false a.constraint).constrainAll false rest
    rw [hstep]
    refine ih (h.constrain false ha) (fun b hb => ?_) (fun b hb => ?_) hrest
    · exact hshape.anchored (hanchored b (List.mem_cons_of_mem _ hb))
    · have hne : b.target ≠ a.target := fun heq => hnotin (List.mem_map.2 ⟨b, hb, heq⟩)
      have hheld := activeOn_eq_nil_iff.1 (hfree b (List.mem_cons_of_mem _ hb))
      exact activeOn_eq_nil_iff.2 (h.holds_constrain_of_ne rfl ho hne hheld)

end Tree

end LiveLayout
