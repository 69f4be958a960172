import LiveLayout.Proofs.InsertedDescriptions
import LiveLayout.Proofs.LastWriter
/-!
# Legal constraints

A constraint is legal if its second anchor lies on the axis of the first, if
it has no second anchor only where the first is a width or a height, and if
the node it starts at is marked as positioned by constraints (`Tree.Legal`).
Expressions see to all three, descriptions to the first alone. `Chronicled`
is the invariant: a tree and the log of all expressions accepted on the way,
which tells what no description made and which nodes are marked.
-/

namespace LiveLayout

/-- **A constant is of a dimension**: without a second anchor the first is a
width or a height. -/
def Constraint.Sized (c : Constraint) : Prop :=
  c.second = none → c.first.attr = .width ∨ c.first.attr = .height

/-- **What no description made was asked for** by an expression in the log,
with these anchors. -/
def Constraint.Asked (log : List Acceptance) (c : Constraint) : Prop :=
  c.added = false → ∃ a ∈ log, c.first = a.target ∧ c.second = a.second

theorem Constraint.unswitched_asked (log : List Acceptance) : Unswitched (Asked log) :=
  fun _ _ _ h => h

theorem Attribute.eq_of_isDimension {attr : Attribute} (h : attr.isDimension = true) :
    attr = .width ∨ attr = .height := by
  cases attr <;> first | exact .inl rfl | exact .inr rfl | cases h

namespace Tree

variable {tree other : Tree} {registry : Registry} {idx n : NodeIndex} {modify : Bool}
variable {c : Constraint} {a : Acceptance} {log : List Acceptance}

/-- The mark of a node that no constraint positions it. -/
def autoresizing? (tree : Tree) (n : NodeIndex) : Option Bool :=
  (tree.node? n).map (·.autoresizing)

/-- **A legal constraint**: along one axis, sized, and of a node that is
marked as positioned by constraints. -/
structure Legal (tree : Tree) (c : Constraint) : Prop where
  aligned : c.Aligned
  sized : c.Sized
  positioned : tree.autoresizing? c.first.node = some false

/-- An expression asks for a constant of dimensions only. -/
theorem sized_of_constraintFor {name text : String}
    (h : tree.constraintFor registry idx name text = .ok c) : c.Sized := by
  obtain ⟨expression, own, second, -, -, hsecond, rfl⟩ := constraintFor_ok h
  intro hnone
  obtain rfl : second = none := hnone
  cases expression with
  | literal value =>
    simp only [secondFor] at hsecond
    split at hsecond
    · rename_i hdimension
      exact Attribute.eq_of_isDimension hdimension
    · cases hsecond
  | relative target field offset =>
    simp only [secondFor] at hsecond
    split at hsecond
    · cases hsecond
    · split at hsecond
      · cases hsecond
      · split at hsecond <;> cases hsecond

/-- Of all nodes, putting a constraint in force marks the one it starts
at. -/
theorem autoresizing?_constrain : (tree.constrain modify c).autoresizing? n =
    if c.first.node = n then (tree.autoresizing? n).map fun _ => false
    else tree.autoresizing? n := by
  have hmarks : tree.Reads (·.autoresizing) (tree.enforce modify c) := reads_enforce fun _ _ => rfl
  have henforced : (tree.enforce modify c).autoresizing? n = tree.autoresizing? n := hmarks n
  rw [constrain_eq, ← henforced]
  unfold position autoresizing?
  rw [node?_modifyNode]
  split
  · rw [Option.map_map, Option.map_map]
    rfl
  · rfl

/-- A frame changes nothing of nodes but frames. -/
theorem reads_applyFrame {β : Type} {view : Node → β}
    (hv : ∀ node frame, view { node with frame } = view node) (fields : List (String × Json)) :
    tree.Reads view (tree.applyFrame registry idx fields).1 := by
  unfold applyFrame
  split
  · exact .refl tree
  · exact reads_modifyNode _ fun node => hv node _

/-! ## The log of expressions -/

/-- **The log of accepted expressions is true of the tree.** It tells which
nodes are marked and the anchors of all that no description made, and it
holds nothing but what expressions can ask for of nodes of the tree. -/
structure Chronicled (tree : Tree) (log : List Acceptance) : Prop where
  marks : ∀ n mark, tree.autoresizing? n = some mark →
    (mark = false ↔ ∃ a ∈ log, a.target.node = n)
  asked : tree.Throughout (Constraint.Asked log)
  proper : ∀ a ∈ log, a.constraint.Aligned ∧ a.constraint.Sized
  within : ∀ a ∈ log, a.target.node < tree.size

namespace Chronicled

/-- Only the marks and the constraints count. -/
theorem of_reads (h : tree.Chronicled log) (hmarks : tree.Reads (·.autoresizing) other)
    (hc : ∀ id, other.constraint? id = tree.constraint? id) (hsize : other.size = tree.size) :
    other.Chronicled log where
  marks n mark hmark := h.marks n mark ((hmarks n).symm.trans hmark)
  asked id c hid := h.asked id c ((hc id).symm.trans hid)
  proper := h.proper
  within a ha := hsize ▸ h.within a ha

/-- **One more acceptance** marks its node, and makes what it asks for. -/
theorem constrain (h : tree.Chronicled log) (hidx : a.target.node < tree.size)
    (hproper : a.constraint.Aligned ∧ a.constraint.Sized) (modify : Bool) :
    (tree.constrain modify a.constraint).Chronicled (log ++ [a]) where
  marks n mark hmark := by
    rw [autoresizing?_constrain] at hmark
    by_cases hn : a.target.node = n
    · obtain ⟨-, -, rfl⟩ := Option.map_eq_some_iff.1 ((if_pos hn).symm.trans hmark)
      exact iff_of_true rfl ⟨a, List.mem_append_right _ List.mem_cons_self, hn⟩
    · rw [h.marks n mark ((if_neg hn).symm.trans hmark)]
      simp only [List.mem_append, List.mem_singleton, or_and_right, exists_or, exists_eq_left, hn,
        or_false]
  asked := by
    have hlonger : tree.Throughout (Constraint.Asked (log ++ [a])) := by
      intro id c hc hmade
      obtain ⟨b, hb, hanchors⟩ := h.asked id c hc hmade
      exact ⟨b, List.mem_append_left _ hb, hanchors⟩
    exact hlonger.constrain (Constraint.unswitched_asked _)
      (fun _ => ⟨a, List.mem_append_right _ List.mem_cons_self, rfl, rfl⟩) modify
  proper := List.forall_mem_append.2 ⟨h.proper, List.forall_mem_singleton.2 hproper⟩
  within := by
    rw [sameShape_constrain.size]
    exact List.forall_mem_append.2 ⟨h.within, List.forall_mem_singleton.2 hidx⟩

theorem constrainAll {accepted : List Acceptance} (h : tree.Chronicled log)
    (hidx : ∀ a ∈ accepted, a.target.node < tree.size)
    (hproper : ∀ a ∈ accepted, a.constraint.Aligned ∧ a.constraint.Sized) :
    (tree.constrainAll modify accepted).Chronicled (log ++ accepted) := by
  induction accepted generalizing tree log with
  | nil =>
    rw [List.append_nil]
    exact h
  | cons a rest ih =>
    have hstep := h.constrain (hidx a List.mem_cons_self) (hproper a List.mem_cons_self) modify
    rw [List.append_cons]
    refine ih hstep (fun b hb => ?_) fun b hb => hproper b (List.mem_cons_of_mem _ hb)
    rw [sameShape_constrain.size]
    exact hidx b (List.mem_cons_of_mem _ hb)

/-- **A description marks no node**, and what it makes is marked as made by
a change. -/
theorem applyConfig (h : tree.Chronicled log) (entry : Json × Nat) :
    (tree.applyConfig idx entry).1.Chronicled log := by
  have hunmarked : Node.BesideList (fun node : Node => node.autoresizing) := fun _ _ => rfl
  have hkeep := Constraint.unswitched_asked log
  have hedits : Edits .empty idx tree (tree.applyConfig idx entry).1 := edits_applyConfig entry
  have hsize := hedits.sameShape.size
  refine ⟨?_, ?_, h.proper, fun a ha => hsize ▸ h.within a ha⟩
  · have hmarks : tree.Reads (·.autoresizing) (tree.applyConfig idx entry).1 := by
      unfold Tree.applyConfig
      split
      · exact .refl tree
      · split
        · exact reads_updateConstraint hunmarked
        · split
          · exact (reads_addConstraint hunmarked).trans (reads_modifyNode _ fun _ => rfl)
          · exact .refl tree
    exact fun n mark hmark => h.marks n mark ((hmarks n).symm.trans hmark)
  · unfold Tree.applyConfig
    split
    · exact h.asked
    · split
      · exact h.asked.updateConstraint hkeep (fun _ hc => hc) _ _
      · split
        · exact h.asked.addConstraint hkeep fun hmade => absurd hmade Bool.noConfusion
        · exact h.asked

/-- **A new node** is not marked, and nothing was accepted for it. -/
theorem insertChild {node : Node} (h : tree.Chronicled log) (hnode : node.autoresizing = true)
    (parent : NodeIndex) (position : Option Nat) :
    (tree.insertChild parent node position).Chronicled log where
  marks n mark hmark := by
    have hread : (tree.insertChild parent node position).autoresizing? n =
        if n = tree.size then some node.autoresizing else tree.autoresizing? n :=
      map_node?_insertChild (fun _ _ => rfl) (fun _ _ => rfl) ..
    rw [hread, hnode] at hmark
    split at hmark
    · rename_i hnew
      cases hmark
      refine iff_of_false Bool.noConfusion ?_
      rintro ⟨a, ha, htarget⟩
      have hlt := h.within a ha
      rw [htarget, hnew] at hlt
      exact Nat.lt_irrefl _ hlt
    · exact h.marks n mark hmark
  asked := h.asked
  proper := h.proper
  within a ha := by
    rw [size_insertChild]
    exact Nat.lt_succ_of_lt (h.within a ha)

end Chronicled

end Tree

namespace Engine

variable {engine : Engine} {idx : NodeIndex} {log : List Acceptance}

/-- **The content of an entry** leaves the log, with what is accepted of it,
true. -/
theorem chronicled_applyContent (h : engine.tree.Chronicled log) (hidx : idx < engine.tree.size)
    (modify : Bool) (view : ViewChange) :
    (engine.applyContent idx modify view).1.tree.Chronicled
      (log ++ engine.accepted idx modify view) := by
  have hshape := (edited_styled engine idx view).tree.sameShape
  have hidx' : idx < (engine.styled idx view).tree.size := hshape.size ▸ hidx
  have hstyled : (engine.styled idx view).tree.Chronicled log := by
    refine h.of_reads (reads_styled (fun _ _ _ _ => rfl) engine idx view) (fun id => ?_)
      hshape.size
    unfold Tree.constraint?
    rw [constraints_styled]
  rw [applyContent_eq]
  unfold accepted
  generalize engine.styled idx view = styled at hstyled hidx' ⊢
  cases view.constraints with
  | none =>
    rw [List.append_nil]
    exact hstyled
  | some field =>
    cases field with
    | expressions entries =>
      simp only [Tree.accepted_eq, Tree.applyConstraints, Tree.collect_applyExpression]
      refine hstyled.constrainAll (fun a ha => ?_) fun a ha => ?_
      · obtain ⟨entry, -, haccept⟩ := List.mem_filterMap.1 ha
        rw [(Tree.accept?_eq_some haccept).1]
        exact hidx'
      · obtain ⟨entry, -, haccept⟩ := List.mem_filterMap.1 ha
        have hc := Tree.constraintFor_of_accept? haccept
        exact ⟨Tree.aligned_of_constraintFor hc, Tree.sized_of_constraintFor hc⟩
    | indexed configs =>
      rw [List.append_nil]
      let Keeps (t t' : Tree) : Prop := t.Chronicled log → t'.Chronicled log
      exact Diagnostic.collect_rel Keeps (fun _ => id) (fun hab hbc h => hbc (hab h))
        (fun _ entry ht => ht.applyConfig entry) styled.tree configs.zipIdx hstyled
    | unsupported value =>
      rw [List.append_nil]
      exact hstyled

end Engine

namespace Session

variable {session : Session} {log : List Acceptance}

/-- **Every entry leaves the log true**, with what is accepted of it. -/
theorem chronicled_apply (hsound : session.engine.Sound) (h : session.engine.tree.Chronicled log)
    (entry : Json) :
    (session.apply entry).1.engine.tree.Chronicled (log ++ session.acceptedBy entry) := by
  unfold apply acceptedBy
  cases hr : session.resolve entry with
  | error diagnostic =>
    rw [List.append_nil]
    exact h
  | ok action =>
    cases action with
    | insert id parent type view =>
      have hplanted : (session.engine.planted id parent type view).tree.Chronicled log :=
        h.insertChild rfl _ _
      have hfilled := Engine.chronicled_applyContent hplanted
        (session.engine.nextIndex_lt_planted id parent type view) false view
      refine hfilled.of_reads ?_ (fun _ => rfl) (Tree.size_modifyNode _ _ _)
      exact Tree.reads_modifyNode _ fun _ => rfl
    | modify idx view =>
      obtain ⟨⟨id, -, hid⟩, -⟩ := resolve_modify hr
      have hcontent := Engine.chronicled_applyContent h (hsound.within _ _ hid) true view
      show (session.engine.modify idx view).1.tree.Chronicled _
      rw [Engine.modify_eq]
      cases view.frame with
      | none => exact hcontent
      | some fields =>
        -- the frame that follows has no part in constraints
        exact hcontent.of_reads (Tree.reads_applyFrame (fun _ _ => rfl) fields)
          (Tree.constraint?_applyFrame fields) (Tree.edits_applyFrame fields).sameShape.size

/-- **The log of accepted expressions is true of every session reached.** -/
theorem Course.chronicled (h : session.Course acceptedBy log) :
    session.engine.tree.Chronicled log := by
  refine h.invariant (P := fun engine log => engine.tree.Chronicled log) (fun config images => ?_)
    fun _ _ hsound hlog entry => chronicled_apply hsound hlog entry
  refine ⟨fun n mark hmark => ?_, fun id c hc => ?_, fun a ha => ?_, fun a ha => ?_⟩
  · cases n with
    | zero =>
      cases hmark
      exact iff_of_false Bool.noConfusion fun ⟨_, ha, _⟩ => List.not_mem_nil ha
    | succ n => cases hmark
  · cases hc
  · cases ha
  · cases ha

/-- **What is legal of constraints.** In a session reached, every constraint
of the arena is along one axis, and one that no description made is legal.
An expression marks its node as positioned by constraints and nothing else
does, so a description's constraint is legal exactly if it is sized and some
expression was accepted for its first node. All that is in force is legal
exactly if that is so of what descriptions put there. -/
theorem legal_unless_described (h : session.Course acceptedBy log) :
    let tree := session.engine.tree
    (∀ id c, tree.constraint? id = some c → c.Aligned) ∧
      (∀ id c, tree.constraint? id = some c → c.added = false → tree.Legal c) ∧
      (∀ n node, tree.node? n = some node →
        (node.autoresizing = false ↔ ∃ a ∈ log, a.target.node = n)) ∧
      (∀ id c, tree.constraint? id = some c →
        (tree.Legal c ↔ c.Sized ∧ ∃ a ∈ log, a.target.node = c.first.node)) ∧
      ((∀ id c, tree.constraint? id = some c → c.active = true → tree.Legal c) ↔
        ∀ id c, tree.constraint? id = some c → c.active = true → c.added = true →
          c.Sized ∧ ∃ a ∈ log, a.target.node = c.first.node) := by
  intro tree
  have hlog : tree.Chronicled log := h.chronicled
  have haligned : tree.Throughout Constraint.Aligned := h.reached.describable.aligned
  have hlegal : ∀ id c, tree.constraint? id = some c →
      (tree.Legal c ↔ c.Sized ∧ ∃ a ∈ log, a.target.node = c.first.node) := by
    intro id c hc
    have hanchored := h.reached.sound.coherent.anchored id c hc
    obtain ⟨node, hnode⟩ := Tree.node?_of_lt hanchored.first
    have hmark : tree.autoresizing? c.first.node = some node.autoresizing := by
      unfold Tree.autoresizing?
      rw [hnode]
      rfl
    rw [← hlog.marks _ _ hmark]
    constructor
    · intro hl
      exact ⟨hl.sized, Option.some.inj (hmark.symm.trans hl.positioned)⟩
    · rintro ⟨hsized, hpositioned⟩
      exact ⟨haligned id c hc, hsized, hmark.trans (congrArg some hpositioned)⟩
  have hmade : ∀ id c, tree.constraint? id = some c → c.added = false → tree.Legal c := by
    intro id c hc hmade
    obtain ⟨a, ha, hfirst, hsecond⟩ := hlog.asked id c hc hmade
    refine (hlegal id c hc).2 ⟨fun hnone => ?_, a, ha, congrArg Anchor.node hfirst.symm⟩
    rw [hfirst]
    exact (hlog.proper a ha).2 (hsecond.symm.trans hnone)
  refine ⟨haligned, hmade, fun n node hnode => hlog.marks n _ ?_, hlegal, ?_⟩
  · unfold Tree.autoresizing?
    rw [hnode]
    rfl
  · constructor
    · exact fun hall id c hc hon _ => (hlegal id c hc).1 (hall id c hc hon)
    · intro hdescribed id c hc hon
      cases hadded : c.added with
      | false => exact hmade id c hc hadded
      | true => exact (hlegal id c hc).2 (hdescribed id c hc hon hadded)

/-- A box as wide as the root, and then 10 high by a description. -/
def boxMixed : List Json :=
  [boxInserted, boxRedescribed [sideDescribed "height" 10 []]]

/-- The width marks the box, and so the height that is described is legal
too. -/
theorem legal_unless_described_of_box :
    let session := ((initial .standard .none).tweak boxMixed).1
    let log := (initial .standard .none).account acceptedBy boxMixed
    session.Course acceptedBy log ∧ log.map (·.target) = [⟨1, .width⟩] ∧
      session.engine.tree.activeOn ⟨1, .width⟩ = [0] ∧
      session.engine.tree.activeOn ⟨1, .height⟩ = [1] ∧
      ∀ id c, session.engine.tree.constraint? id = some c → c.active = true →
        session.engine.tree.Legal c := by
  intro session log
  have hcourse : session.Course acceptedBy log := .tweak boxMixed (.initial _ _ _)
  have htargets : log.map (·.target) = [⟨1, .width⟩] := by decide +kernel
  have hdescribed : ∀ c ∈ session.engine.tree.constraints.toList, c.added = true →
      c.first = ⟨1, .height⟩ := by decide +kernel
  obtain ⟨a, ha, htarget⟩ : ∃ a ∈ log, a.target = ⟨1, .width⟩ := by
    refine List.mem_map.1 ?_
    rw [htargets]
    exact List.mem_cons_self
  refine ⟨hcourse, htargets, by decide +kernel, by decide +kernel, ?_⟩
  refine (legal_unless_described hcourse).2.2.2.2.2 fun id c hc _ hadded => ?_
  have hfirst := hdescribed c (Array.mem_toList_iff.2 (Array.mem_of_getElem? hc)) hadded
  have hnode : a.target.node = 1 := congrArg Anchor.node htarget
  rw [hfirst]
  exact ⟨fun _ => .inr (congrArg Anchor.attr hfirst), a, ha, hnode⟩

/-- **A description alone puts what is illegal in force**, and nothing is
skipped: the width of a box that is not marked, and a constant for its
top. -/
theorem illegal_descriptions :
    let wide := (initial .standard .none).tweak [boxDescribed [sideDescribed "width" 10 []]]
    let topped := (initial .standard .none).tweak [boxDescribed [sideDescribed "top" 10 []]]
    (wide.2.isClean = true ∧ wide.1.engine.tree.activeOn ⟨1, .width⟩ = [0] ∧
        wide.1.engine.tree.autoresizing? 1 = some true) ∧
      (topped.2.isClean = true ∧ topped.1.engine.tree.activeOn ⟨1, .top⟩ = [0] ∧
        (topped.1.engine.tree.constraint? 0).map (·.second) = some none) ∧
      ¬∀ (session : Session) id c, session.Reached →
        session.engine.tree.constraint? id = some c → c.active = true →
        session.engine.tree.Legal c := by
  intro wide topped
  have hunmarked : wide.1.engine.tree.autoresizing? 1 = some true := by decide +kernel
  have hwidth : (wide.1.engine.tree.constraint? 0).map (fun c => (c.first, c.active)) =
      some (⟨1, .width⟩, true) := by decide +kernel
  refine ⟨⟨by decide +kernel, by decide +kernel, hunmarked⟩,
    ⟨by decide +kernel, by decide +kernel, by decide +kernel⟩, fun hclaim => ?_⟩
  obtain ⟨c, hc, heq⟩ := Option.map_eq_some_iff.1 hwidth
  obtain ⟨hfirst, hon⟩ := Prod.mk.inj heq
  have hmark := (hclaim wide.1 0 c (.tweak _ (.initial _ _ _)) hc hon).positioned
  rw [hfirst] at hmark
  cases hunmarked.symm.trans hmark

end Session

end LiveLayout
