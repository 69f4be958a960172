import LiveLayout.Proofs.Commutation
import LiveLayout.Proofs.InsertedDescriptions
import LiveLayout.Proofs.Reporting
/-!
# Lists of descriptions

The descriptions of a list are applied one after another, and the node's
snapshot list, by which they address constraints, gets longer on the way. So
what is made of a description depends on how many were appended before it:
the `Verdict` on it goes by the list as it then is. `Applied` says all that
follows from a verdict, and `Accounted` sums up a list of them: the arena and
the node's list grow by what is appended, in order and with nothing between,
and nothing else changes but what is updated. Both hold of every list, and of
what any of its descriptions meets (`Orderly.accounted`,
`descriptions_accounted_for`).
-/

namespace LiveLayout

/-- **What is made of a description.** -/
inductive Verdict where
  /-- The constraint it addresses is updated. -/
  | update (id : ConstraintId)
  /-- A constraint is appended. -/
  | append
  /-- It is passed over, for a cause. -/
  | refuse (cause : TweakError)

namespace Verdict

/-- A constraint is updated. -/
def isUpdate : Verdict → Bool
  | update _ => true
  | _ => false

/-- A constraint is appended. -/
def isAppend : Verdict → Bool
  | append => true
  | _ => false

/-- Why it is passed over, if it is. -/
def cause? : Verdict → Option TweakError
  | refuse cause => some cause
  | _ => none

/-- How many are updates. -/
def updates (verdicts : List Verdict) : Nat := verdicts.countP isUpdate

/-- How many are appended. -/
def appends (verdicts : List Verdict) : Nat := verdicts.countP isAppend

/-- The causes of those that are passed over, in order. -/
def refusals (verdicts : List Verdict) : List TweakError := verdicts.filterMap cause?

/-- **Every verdict is one of the three.** -/
theorem updates_add_appends_add_refusals (verdicts : List Verdict) :
    updates verdicts + appends verdicts + (refusals verdicts).length = verdicts.length := by
  induction verdicts with
  | nil => rfl
  | cons verdict rest ih =>
    unfold updates appends refusals at ih ⊢
    rw [List.countP_cons, List.countP_cons, List.filterMap_cons, List.length_cons]
    cases verdict with
    | update id =>
      simp only [isUpdate, isAppend, cause?, if_true, Bool.false_eq_true, if_false]
      omega
    | append =>
      simp only [isUpdate, isAppend, cause?, if_true, Bool.false_eq_true, if_false]
      omega
    | refuse cause =>
      simp only [isUpdate, isAppend, cause?, Bool.false_eq_true, if_false, List.length_cons]
      omega

end Verdict

namespace Tree

variable {tree before middle after other : Tree} {registry : Registry} {idx n : NodeIndex}
variable {id : ConstraintId} {c live : Constraint} {config : ConstraintConfig}
variable {entry : Json × Nat} {first second : List Verdict}

/-- **The verdict on a description** that meets a tree. -/
def verdict (tree : Tree) (idx : NodeIndex) (entry : Json × Nat) : Verdict :=
  match ConstraintConfig.ofDatum? entry.1.toDatum with
  | none => .refuse (.entryMalformed (.undecodableConfig entry.2))
  | some config =>
    match tree.addressed? idx config with
    | some id => .update id
    | none =>
      match config.toLive? tree idx with
      | some _ => .append
      | none => .refuse (.anchorInvalid (constraintLabel entry.2) .unresolvedConfig)

/-- The verdicts on the descriptions of a list, each as it is met. -/
def verdicts (tree : Tree) (idx : NodeIndex) (entries : List (Json × Nat)) : List Verdict :=
  (Diagnostic.met (applyConfig idx) tree entries).map fun m => m.1.verdict idx m.2

/-! ## One description -/

/-- **A constraint updated in place.** Its constant, zero if none is given,
and its priority are as described, and it is in force as described. -/
structure Updated (tree : Tree) (id : ConstraintId) (config : ConstraintConfig) (after : Tree) :
    Prop where
  written : ∃ c owner, tree.constraint? id = some c ∧ after.constraint? id =
    some { c with
      constant := config.constant.getD .zero, priority := config.priority,
      active := config.isActive, owner }
  others : ∀ j, j ≠ id → after.constraint? j = tree.constraint? j
  size : after.constraints.size = tree.constraints.size
  lists : ∀ n, after.snapshot n = tree.snapshot n

/-- **A constraint appended**, to the arena and to the node's list. It is the
one that is described, flagged as added. -/
structure Appended (tree : Tree) (idx : NodeIndex) (config : ConstraintConfig) (after : Tree) :
    Prop where
  written : ∃ live owner, config.toLive? tree idx = some live ∧
    after.constraint? tree.constraints.size =
      some { live with added := true, active := config.isActive, owner }
  /-- If it is in force, then on the node or one of its children. -/
  installed : config.isActive = true →
    ∃ owner, tree.Family idx owner ∧ tree.constraints.size ∈ after.installed owner
  others : ∀ j, j < tree.constraints.size → after.constraint? j = tree.constraint? j
  size : after.constraints.size = tree.constraints.size + 1
  list : after.snapshot idx = tree.snapshot idx ++ [tree.constraints.size]
  lists : ∀ n, n ≠ idx → after.snapshot n = tree.snapshot n

/-- A description that addresses nothing: it names no position, or one past
the node's list. -/
def Beyond (tree : Tree) (idx : NodeIndex) (config : ConstraintConfig) : Prop :=
  ∀ position, config.idx = some position → (tree.snapshot idx).length ≤ position.toNat

/-- **A description applied to a tree**: what is made of it, and what this
comes to. -/
inductive Applied (tree : Tree) (idx : NodeIndex) (entry : Json × Nat) :
    Verdict → Tree × List Diagnostic → Prop
  | updated {config : ConstraintConfig} {position : UInt64} {id : ConstraintId} {after : Tree} :
      ConstraintConfig.ofDatum? entry.1.toDatum = some config → config.idx = some position →
      (tree.snapshot idx)[position.toNat]? = some id → tree.Updated id config after →
      Applied tree idx entry (.update id) (after, [])
  | appended {config : ConstraintConfig} {after : Tree} :
      ConstraintConfig.ofDatum? entry.1.toDatum = some config → tree.Beyond idx config →
      tree.Appended idx config after → Applied tree idx entry .append (after, [])
  | undecodable {cause : TweakError} : ConstraintConfig.ofDatum? entry.1.toDatum = none →
      cause = .entryMalformed (.undecodableConfig entry.2) →
      Applied tree idx entry (.refuse cause) (tree, [⟨(tree.node? idx).map (·.id), cause⟩])
  | unresolved {config : ConstraintConfig} {cause : TweakError} :
      ConstraintConfig.ofDatum? entry.1.toDatum = some config → tree.Beyond idx config →
      config.toLive? tree idx = none →
      cause = .anchorInvalid (constraintLabel entry.2) .unresolvedConfig →
      Applied tree idx entry (.refuse cause) (tree, [⟨(tree.node? idx).map (·.id), cause⟩])

/-- **What relates a node and its children is installed on one of them.** The
node is above them all, so the nearest of their common ancestors is not above
the node. -/
theorem Rooted.family_of_ownerFor? (h : tree.Rooted) (hfiled : tree.Filed)
    (hlocal : tree.LocalTo idx c) (ho : tree.ownerFor? c.first c.second = some n) :
    tree.Family idx n := by
  have habove : ∀ m, tree.Family idx m → tree.Ancestor idx m := by
    rintro m (rfl | hchild)
    · exact .self
    · exact .up (hfiled idx m hchild) .self
  have hbelongs := h.belongs_of_ownerFor? ho
  unfold Belongs at hbelongs
  cases hs : c.second with
  | none =>
    rw [hs] at hbelongs
    subst hbelongs
    exact hlocal.first
  | some second =>
    rw [hs] at hbelongs
    have hbelow : tree.Ancestor idx n := hbelongs.nearest idx (habove _ hlocal.first)
      (habove _ (hlocal.second second hs))
    rcases h.near_of_ownerFor? hfiled hlocal ho with hup | hchild
    · exact .inl (Nat.le_antisymm (hup.le h) (hbelow.le h))
    · exact .inr hchild

/-- So whatever is in force of a local constraint is installed there. -/
theorem Orderly.exists_family (h : tree.Orderly) (hc : tree.constraint? id = some c)
    (hlocal : tree.LocalTo idx c) (hon : c.active = true) :
    ∃ owner, tree.Family idx owner ∧ id ∈ tree.installed owner := by
  obtain ⟨owner, howner, hmem⟩ := h.coherent.exists_owner hc hon
  have hfamily := h.coherent.toRooted.family_of_ownerFor? h.filed hlocal
    (h.coherent.home id c owner hc howner)
  exact ⟨owner, hfamily, hmem⟩

/-- **A constraint that is added** is at the end of the arena, in force if it
asks for it. -/
theorem Coherent.constraint?_addConstraint (h : tree.Coherent) (hc : tree.Anchored c) :
    ∃ owner, (tree.addConstraint c).constraint? tree.constraints.size =
      some { c with owner } := by
  have hstored : (tree.store c).constraint? tree.nextConstraint = some c.idle := by
    rw [constraint?_store, if_pos rfl]
  rw [addConstraint_eq]
  cases hon : c.active with
  | true =>
    obtain ⟨on, owner, hget⟩ :=
      (switch_cases (tree.store c) tree.nextConstraint true).constraint?_self hstored
    have hswitched : on = true := (h.store hc).active_switch hget
    subst hswitched
    exact ⟨owner, hget⟩
  | false => exact ⟨none, hstored⟩

theorem Coherent.updated (h : tree.Coherent) (hc : tree.constraint? id = some c)
    (config : ConstraintConfig) :
    tree.Updated id config
      (tree.updateConstraint id (config.constant.getD .zero) config.isActive config.priority) := by
  obtain ⟨⟨owner, hself⟩, hother⟩ := h.constraint?_updateConstraint hc
    (config.constant.getD .zero) config.isActive config.priority
  exact ⟨⟨c, owner, hc, hself⟩, fun j hne => hother j hne.symm, size_constraints_updateConstraint,
    fun n => snapshot_updateConstraint⟩

theorem Orderly.appended (h : tree.Orderly) (hidx : idx < tree.size)
    (haddressed : tree.addressed? idx config = none) (hlive : config.toLive? tree idx = some live) :
    tree.Appended idx config
      ((tree.addConstraint { live with added := true }).pushSnapshot idx
        tree.nextConstraint) := by
  have hanchored := anchored_of_toLive? hlive
  have hactive := active_of_toLive? hlive
  have hsize : (tree.addConstraint { live with added := true }).constraints.size =
      tree.constraints.size + 1 := size_constraints_addConstraint
  have hshape : tree.SameShape (tree.addConstraint { live with added := true }) :=
    sameShape_addConstraint
  have hlists : ∀ n, ((tree.addConstraint { live with added := true }).pushSnapshot idx
      tree.nextConstraint).snapshot n =
        if idx = n then tree.snapshot n ++ [tree.constraints.size] else tree.snapshot n := by
    intro n
    rw [snapshot_pushSnapshot (hshape.size.symm ▸ hidx), snapshot_addConstraint]
    rfl
  obtain ⟨owner, hget⟩ := h.coherent.constraint?_addConstraint
    (⟨hanchored.first, hanchored.second⟩ : tree.Anchored { live with added := true })
  have hedit : Edit .empty idx tree _ := .append haddressed hlive
  refine ⟨⟨live, owner, hlive, ?_⟩, fun hon => ?_, fun j hj => constraint?_addConstraint_of_lt hj,
    hsize, ?_, fun n hne => ?_⟩
  · rw [← hactive]
    exact hget
  · have hlocal : LocalTo _ idx { live with added := true, owner } :=
      (localTo_of_toLive? hlive).of_anchors rfl rfl fun _ => hedit.family_iff.2
    obtain ⟨owner, hfamily, hmem⟩ := (h.edits hidx (.single hedit)).exists_family hget hlocal
      (hactive.trans hon)
    exact ⟨owner, hedit.family_iff.1 hfamily, hmem⟩
  · rw [hlists, if_pos rfl]
  · rw [hlists, if_neg hne.symm]

/-- **A description does what its verdict says.** -/
theorem Orderly.applied (h : tree.Orderly) (hidx : idx < tree.size) (entry : Json × Nat) :
    Applied tree idx entry (tree.verdict idx entry) (tree.applyConfig idx entry) := by
  unfold verdict applyConfig
  cases hconfig : ConstraintConfig.ofDatum? entry.1.toDatum with
  | none => exact .undecodable hconfig rfl
  | some config =>
    simp only
    cases haddressed : tree.addressed? idx config with
    | some id =>
      obtain ⟨position, hposition, hget⟩ := Option.bind_eq_some_iff.1 haddressed
      obtain ⟨c, hc⟩ := constraint?_of_lt (h.recorded idx id (List.mem_of_getElem? hget))
      exact .updated hconfig hposition hget (h.coherent.updated hc config)
    | none =>
      have hbeyond : tree.Beyond idx config := by
        intro position hposition
        unfold addressed? at haddressed
        rw [hposition, Option.bind_some] at haddressed
        exact List.getElem?_eq_none_iff.1 haddressed
      cases hlive : config.toLive? tree idx with
      | some live => exact .appended hconfig hbeyond (h.appended hidx haddressed hlive)
      | none => exact .unresolved hconfig hbeyond hlive rfl

/-! ## Lists of them -/

/-- **What verdicts come to**, from the tree before the descriptions to the
one after them. -/
structure Accounted (idx : NodeIndex) (verdicts : List Verdict) (before after : Tree) : Prop where
  size : after.constraints.size = before.constraints.size + Verdict.appends verdicts
  /-- What is appended is at the end of the arena, and of the node's list, in
  order. -/
  list : after.snapshot idx =
    before.snapshot idx ++ List.range' before.constraints.size (Verdict.appends verdicts)
  lists : ∀ n, n ≠ idx → after.snapshot n = before.snapshot n
  /-- A constraint that was there is the same unless it is updated. -/
  kept : ∀ id, id < before.constraints.size → .update id ∉ verdicts →
    after.constraint? id = before.constraint? id
  /-- And if it is, it keeps its terms. -/
  terms : ∀ id c, before.constraint? id = some c →
    ∃ c', after.constraint? id = some c' ∧ c'.SameTerms c
  added : ∀ id c, before.constraints.size ≤ id → after.constraint? id = some c → c.added = true

namespace Accounted

/-- Without descriptions nothing changes that they could. -/
theorem of_resembles (h : tree.Resembles other) : Accounted idx [] tree other where
  size := h.size_constraints
  list := (h.snapshot idx).trans (List.append_nil _).symm
  lists n _ := h.snapshot n
  kept id _ _ := h.constraint? id
  terms id c hc := ⟨c, (h.constraint? id).trans hc, .refl c⟩
  added id c hle hc := by
    rw [h.constraint?] at hc
    exact absurd (lt_of_constraint? hc) (Nat.not_lt_of_le hle)

/-- **One list after another.** -/
theorem trans (h : Accounted idx first before middle) (h' : Accounted idx second middle after) :
    Accounted idx (first ++ second) before after := by
  have happends : Verdict.appends (first ++ second) =
      Verdict.appends first + Verdict.appends second := List.countP_append
  refine ⟨?_, ?_, fun n hne => (h'.lists n hne).trans (h.lists n hne), fun id hlt hnot => ?_,
    fun id c hc => ?_, fun id c hle hc => ?_⟩
  · rw [h'.size, h.size, happends, Nat.add_assoc]
  · rw [h'.list, h.list, h.size, happends, List.append_assoc, List.range'_append_1]
  · rw [List.mem_append, not_or] at hnot
    have hlt' : id < middle.constraints.size := by
      rw [h.size]
      exact Nat.lt_add_right _ hlt
    rw [h'.kept id hlt' hnot.2, h.kept id hlt hnot.1]
  · obtain ⟨k, hk, hsame⟩ := h.terms id c hc
    obtain ⟨c', hc', hsame'⟩ := h'.terms id k hk
    exact ⟨c', hc', hsame'.trans hsame⟩
  · -- it was appended by the first list and has kept its flag, or by the second
    by_cases hlt : id < middle.constraints.size
    · obtain ⟨k, hk⟩ := constraint?_of_lt hlt
      obtain ⟨c', hc', hsame⟩ := h'.terms id k hk
      cases hc'.symm.trans hc
      rw [hsame.added]
      exact h.added id k hle hk
    · exact h'.added id c (Nat.le_of_not_lt hlt) hc

end Accounted

theorem Updated.accounted (h : tree.Updated id config after) :
    Accounted idx [.update id] tree after where
  size := h.size
  list := (h.lists idx).trans (List.append_nil _).symm
  lists n _ := h.lists n
  kept j _ hnot := h.others j fun heq => hnot (heq ▸ List.mem_singleton.2 rfl)
  terms j c hc := by
    by_cases hj : j = id
    · subst hj
      obtain ⟨k, owner, hk, hafter⟩ := h.written
      cases hk.symm.trans hc
      exact ⟨_, hafter, rfl, rfl, rfl, rfl, rfl⟩
    · exact ⟨c, (h.others j hj).trans hc, .refl c⟩
  added j c hle hc := absurd (lt_of_constraint? hc) (Nat.not_lt_of_le (h.size ▸ hle))

theorem Appended.accounted (h : tree.Appended idx config after) :
    Accounted idx [.append] tree after where
  size := h.size
  list := h.list
  lists := h.lists
  kept j hlt _ := h.others j hlt
  terms j c hc := ⟨c, (h.others j (lt_of_constraint? hc)).trans hc, .refl c⟩
  added j c hle hc := by
    have hlt := lt_of_constraint? hc
    rw [h.size] at hlt
    obtain rfl := Nat.le_antisymm (Nat.le_of_lt_succ hlt) hle
    obtain ⟨live, owner, -, hafter⟩ := h.written
    cases hafter.symm.trans hc
    rfl

theorem accounted_of_refused {cause : TweakError} : Accounted idx [.refuse cause] tree tree :=
  { Accounted.of_resembles (.refl tree) with
    kept := fun _ _ _ => rfl }

theorem Applied.accounted {verdict : Verdict} {result : Tree × List Diagnostic}
    (h : Applied tree idx entry verdict result) : Accounted idx [verdict] tree result.1 := by
  cases h with
  | updated _ _ _ hupdated => exact hupdated.accounted
  | appended _ _ happended => exact happended.accounted
  | undecodable => exact accounted_of_refused
  | unresolved => exact accounted_of_refused

/-- What is said of a description is why it is passed over. -/
theorem Applied.said {verdict : Verdict} {result : Tree × List Diagnostic}
    (h : Applied tree idx entry verdict result) :
    result.2 = (Verdict.refusals [verdict]).map fun cause =>
      ⟨(tree.node? idx).map (·.id), cause⟩ := by
  cases h <;> rfl

/-- **A list of descriptions comes to its verdicts**, in the tree and in what
is said. -/
theorem Orderly.accounted (h : tree.Orderly) (hidx : idx < tree.size)
    (entries : List (Json × Nat)) :
    let result := Diagnostic.collect (applyConfig idx) tree entries
    Accounted idx (tree.verdicts idx entries) tree result.1 ∧
      result.2 = (Verdict.refusals (tree.verdicts idx entries)).map fun cause =>
        ⟨(tree.node? idx).map (·.id), cause⟩ := by
  induction entries generalizing tree with
  | nil => exact ⟨.of_resembles (.refl tree), rfl⟩
  | cons entry rest ih =>
    have hedits : Edits .empty idx tree (tree.applyConfig idx entry).1 := edits_applyConfig entry
    have hstep := h.applied hidx entry
    obtain ⟨hrest, hsaid⟩ := ih (h.edits hidx hedits) (hedits.sameShape.size.symm ▸ hidx)
    rw [hedits.sameShape.id] at hsaid
    refine ⟨hstep.accounted.trans hrest, ?_⟩
    have hrefusals : Verdict.refusals (tree.verdicts idx (entry :: rest)) =
        Verdict.refusals [tree.verdict idx entry] ++
          Verdict.refusals ((tree.applyConfig idx entry).1.verdicts idx rest) :=
      @List.filterMap_append _ _ [tree.verdict idx entry] _ _
    rw [hrefusals, List.map_append, ← hstep.said, ← hsaid]
    rfl

/-- **What a description of a list meets** is accounted for by those before
it, and it does there what its verdict says. -/
theorem Orderly.accounted_met (h : tree.Orderly) (hidx : idx < tree.size)
    {entries : List (Json × Nat)} {i : Nat} {m : Tree × (Json × Nat)}
    (hm : (Diagnostic.met (applyConfig idx) tree entries)[i]? = some m) :
    Accounted idx ((tree.verdicts idx entries).take i) tree m.1 ∧
      Applied m.1 idx m.2 (m.1.verdict idx m.2) (m.1.applyConfig idx m.2) := by
  have hedits : Edits .empty idx tree m.1 :=
    edits_of_mem_met (fun _ => edits_applyConfig) (List.mem_of_getElem? hm)
  refine ⟨?_, (h.edits hidx hedits).applied (hedits.sameShape.size.symm ▸ hidx) m.2⟩
  have hbefore := (h.accounted hidx (entries.take i)).1
  unfold verdicts at hbefore
  rw [Diagnostic.met_take, List.map_take, ← Diagnostic.fst_of_getElem?_met hm] at hbefore
  exact hbefore

theorem length_verdicts (tree : Tree) (idx : NodeIndex) (entries : List (Json × Nat)) :
    (tree.verdicts idx entries).length = entries.length := by
  have hmet : (Diagnostic.met (applyConfig idx) tree entries).length = entries.length := by
    rw [← List.length_map (·.2), Diagnostic.map_snd_met]
  unfold verdicts
  rw [List.length_map, hmet]

end Tree

/-! ## Modifies -/

namespace Session

variable {session : Session} {idx : NodeIndex} {view : ViewChange} {configs : List Json}

/-- **Every description is accounted for.** In a session that was reached,
take a modify of a node with a list of descriptions. Each one updates a
constraint, is appended or is refused, by its position and the node's list as
it is then, with all that was appended before it. What is refused is reported,
in order, and besides these the modify says what it says without the list.
The arena and the node's list grow by what is appended. Nothing else changes
of any list, and no constraint that is not updated. What is appended is
flagged as added, and in force on the node or one of its children, if at
all. -/
theorem descriptions_accounted_for (h : session.Reached) (hidx : idx < session.engine.tree.size)
    (hconfigs : view.constraints = some (.indexed configs)) :
    let before := session.engine.tree
    let after := (session.engine.modify idx view).1.tree
    let styled := (session.engine.styled idx view).tree
    let verdicts := styled.verdicts idx configs.zipIdx
    Verdict.updates verdicts + Verdict.appends verdicts + (Verdict.refusals verdicts).length =
        configs.length ∧
      (∃ look frame,
        (session.engine.modify idx view).2 =
          look ++ (Verdict.refusals verdicts).map (Diagnostic.mk ((before.node? idx).map (·.id))) ++
            frame ∧
        (session.engine.modify idx { view with constraints := none }).2 = look ++ frame) ∧
      Tree.Accounted idx verdicts before after ∧
      (Diagnostic.collect (Tree.applyConfig idx) styled configs.zipIdx).1.Resembles after ∧
      (∀ id c, before.constraints.size ≤ id → after.constraint? id = some c → c.active = true →
        ∃ owner, before.Family idx owner ∧ id ∈ after.installed owner) ∧
      ∀ i met, (Diagnostic.met (Tree.applyConfig idx) styled configs.zipIdx)[i]? = some met →
        Tree.Accounted idx (verdicts.take i) before met.1 ∧
          Tree.Applied met.1 idx met.2 (met.1.verdict idx met.2)
            (met.1.applyConfig idx met.2) := by
  intro before after styled verdicts
  have hlook : Engine.Edited idx session.engine (session.engine.styled idx view) :=
    Engine.edited_styled session.engine idx view
  have horderly : styled.Orderly := h.orderly.edits hidx hlook.tree
  have hidx' : idx < styled.size := hlook.tree.sameShape.size.symm ▸ hidx
  have hstyled : Tree.Accounted idx [] before styled :=
    .of_resembles (session.engine.resembles_styled idx view)
  have hmodified : Tree.Edits session.engine.registry idx before after :=
    (Engine.edited_modify session.engine idx view).tree
  -- the frame, which comes after the list, is nothing to constraints
  have hframe : (Diagnostic.collect (Tree.applyConfig idx) styled configs.zipIdx).1.Resembles
      after := by
    have hcontent : (session.engine.applyContent idx true view).1.tree =
        (Diagnostic.collect (Tree.applyConfig idx) styled configs.zipIdx).1 := by
      rw [Engine.applyContent_eq, hconfigs]
      rfl
    rw [← hcontent]
    exact session.engine.resembles_modify idx view
  have hafter : Tree.Accounted idx verdicts before after := by
    have hlist := hstyled.trans (horderly.accounted hidx' configs.zipIdx).1
    exact List.append_nil verdicts ▸ hlist.trans (.of_resembles hframe)
  refine ⟨?_, ?_, hafter, hframe, fun id c hle hc hon => ?_, fun i met hmet => ⟨?_, ?_⟩⟩
  · rw [Verdict.updates_add_appends_add_refusals, Tree.length_verdicts, List.length_zipIdx]
  · obtain ⟨look, frame, hsaid, hplain⟩ :=
      @snd_perform session (.modify idx view) hidx (.indexed configs) hconfigs
    refine ⟨look, frame, hsaid.trans ?_, hplain⟩
    have hlist := (horderly.accounted hidx' configs.zipIdx).2
    rw [hlook.tree.sameShape.id] at hlist
    rw [← hlist]
    rfl
  · have hmem : id ∈ after.snapshot idx := by
      rw [hafter.list, List.mem_append, List.mem_range'_1, ← hafter.size]
      exact .inr ⟨hle, Tree.lt_of_constraint? hc⟩
    have hlater := h.orderly.edits hidx hmodified
    obtain ⟨owner, hfamily, hinstalled⟩ :=
      hlater.exists_family hc (hlater.domestic idx id c hmem hc) hon
    unfold Tree.Family at hfamily
    rw [hmodified.children_eq] at hfamily
    exact ⟨owner, hfamily, hinstalled⟩
  · exact hstyled.trans (horderly.accounted_met hidx' hmet).1
  · exact (horderly.accounted_met hidx' hmet).2

/-- Descriptions for the card: its icon is aligned with it, then moved five
down from there by the position this was just given. The other two are no
description and one of a node that is not there. -/
def cardListed : List Json :=
  let icon : Json := .object [("attribute", .string "top"), ("item", .string "icon")]
  let card : Json := .object [("attribute", .string "top"), ("item", .string "card")]
  let nobody : Json := .object [("attribute", .string "top"), ("item", .string "nobody")]
  [.object [("first", icon), ("second", card)],
    .object [("constant", .number (.natural 5)), ("first", icon), ("idx", .number (.natural 0))],
    .null, .object [("first", nobody)]]

/-- The first description is appended, the second updates it, and two are
reported. -/
theorem descriptions_accounted_for_of_card :
    let view : ViewChange := { id := "card", constraints := some (.indexed cardListed) }
    let after := (gallery.engine.modify 1 view).1.tree
    gallery.Reached ∧ (gallery.engine.modify 1 view).2.length = 2 ∧
      after.constraints.size = 2 ∧ after.snapshot 1 = [1] ∧ after.snapshot 3 = [0] ∧
      (after.constraint? 1).map (·.constant) = some (.ofNat 5) ∧
      ∃ owner, gallery.engine.tree.Family 1 owner ∧ 1 ∈ after.installed owner := by
  intro view after
  have hreached : gallery.Reached := .tweak _ (.initial _ _ _)
  obtain ⟨hcounts, ⟨look, frame, hsaid, hplain⟩, haccounted, -, hfamily, -⟩ :=
    descriptions_accounted_for hreached (by decide +kernel : 1 < gallery.engine.tree.size)
      (rfl : view.constraints = some (.indexed cardListed))
  have hupdates : Verdict.updates
      ((gallery.engine.styled 1 view).tree.verdicts 1 cardListed.zipIdx) = 1 := by
    decide +kernel
  have happends : Verdict.appends
      ((gallery.engine.styled 1 view).tree.verdicts 1 cardListed.zipIdx) = 1 := by
    decide +kernel
  have hsize : gallery.engine.tree.constraints.size = 1 := by decide +kernel
  have hbare : (gallery.engine.modify 1 { view with constraints := none }).2.length = 0 := by
    decide +kernel
  have hlength : cardListed.length = 4 := rfl
  refine ⟨hreached, ?_, ?_, ?_, ?_, by decide +kernel, ?_⟩
  · rw [hplain, List.length_append] at hbare
    rw [hsaid, List.length_append, List.length_append, List.length_map]
    omega
  · rw [haccounted.size]
    omega
  · have hbefore : gallery.engine.tree.snapshot 1 = [] := by decide +kernel
    rw [haccounted.list, hbefore, hsize, happends]
    rfl
  · rw [haccounted.lists 3 (by decide)]
    decide +kernel
  · obtain ⟨c, hc⟩ := Tree.constraint?_of_lt
      (by decide +kernel : 1 < after.constraints.size)
    have hactive : (after.constraint? 1).map (·.active) = some true := by decide +kernel
    rw [hc] at hactive
    exact hfamily 1 c (Nat.le_of_eq hsize) hc (Option.some.inj hactive)

end Session

end LiveLayout
