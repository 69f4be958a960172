import LiveLayout.Proofs.Documents
import LiveLayout.Proofs.Expressions
/-!
# The last writer

As long as constraints are only given by expressions, an attribute of a
node is held by the constraint of the expression that was accepted for it
last, and by no other (`last_writer`). `Written` is a session together with
the log of what was accepted on the way, and `Latest` is the invariant: the
log says of every attribute what holds it.
-/

namespace LiveLayout

/-- The last acceptance for an attribute in a log. -/
def lastFor (anchor : Anchor) (log : List Acceptance) : Option Acceptance :=
  log.reverse.find? fun a => a.target = anchor

theorem lastFor_concat (anchor : Anchor) (log : List Acceptance) (a : Acceptance) :
    lastFor anchor (log ++ [a]) = if a.target = anchor then some a else lastFor anchor log := by
  unfold lastFor
  rw [List.reverse_append, List.reverse_singleton, List.singleton_append, List.find?_cons]
  by_cases h : a.target = anchor <;> simp only [h, decide_true, decide_false, if_true, if_false]

theorem lastFor_eq_none_iff {anchor : Anchor} {log : List Acceptance} :
    lastFor anchor log = none ↔ ∀ a ∈ log, a.target ≠ anchor := by
  unfold lastFor
  simp only [List.find?_eq_none, List.mem_reverse, decide_eq_true_eq, ne_eq]

theorem of_lastFor {anchor : Anchor} {log : List Acceptance} {a : Acceptance}
    (h : lastFor anchor log = some a) : a ∈ log ∧ a.target = anchor := by
  unfold lastFor at h
  have hholds := List.find?_some h
  rw [decide_eq_true_eq] at hholds
  exact ⟨List.mem_reverse.1 (List.mem_of_find?_eq_some h), hholds⟩

namespace Tree

variable {tree other : Tree} {registry : Registry} {idx n owner : NodeIndex} {modify : Bool}
variable {anchor : Anchor} {a : Acceptance} {log : List Acceptance}

/-- A constraint in force is an accepted expression's. -/
def FromAcceptance (a : Acceptance) (held : ConstraintId × Constraint) : Prop :=
  ∃ owner, held.2 = { a.constraint with owner := some owner }

/-- **The log says what holds an attribute**: the constraint of its last
acceptance, or none. -/
def Latest (tree : Tree) (log : List Acceptance) : Prop :=
  ∀ anchor, ∃ held, tree.Holds anchor held ∧ Option.Rel FromAcceptance (lastFor anchor log) held

/-- Only the constraints count. -/
theorem Latest.of_same (h : tree.Latest log)
    (hc : ∀ id, other.constraint? id = tree.constraint? id) : other.Latest log := by
  intro anchor
  obtain ⟨held, hheld, hrel⟩ := h anchor
  refine ⟨held, fun j k => ?_, hrel⟩
  rw [hc]
  exact hheld j k

/-- What holds an attribute is on a node of the tree, and so nothing was
accepted for a node yet to come. -/
theorem Latest.lastFor_eq_none (h : tree.Latest log) (hcoh : tree.Coherent)
    (hnew : tree.size ≤ anchor.node) : lastFor anchor log = none := by
  obtain ⟨held, hheld, hrel⟩ := h anchor
  generalize lastFor anchor log = last at hrel ⊢
  cases hrel with
  | none => rfl
  | @some a held hfrom =>
    obtain ⟨id, c⟩ := held
    obtain ⟨hc, -, hfirst⟩ := (hheld id c).2 rfl
    have hlt := (hcoh.anchored id c hc).first
    rw [hfirst] at hlt
    exact absurd hlt (Nat.not_lt_of_le hnew)

/-- **One more acceptance** takes the attribute over. -/
theorem Latest.constrain (h : tree.Latest log) (hcoh : tree.Coherent)
    (ho : tree.ownerFor? a.target a.second = some owner)
    (hfree : modify = true ∨ lastFor a.target log = none) :
    (tree.constrain modify a.constraint).Latest (log ++ [a]) := by
  intro anchor
  rw [lastFor_concat]
  by_cases hanchor : a.target = anchor
  · subst hanchor
    obtain ⟨held, hheld, hrel⟩ := h a.target
    have hfree' : modify = true ∨ held = none := by
      refine hfree.imp_right fun hnone => ?_
      rw [hnone] at hrel
      cases hrel
      rfl
    rw [if_pos rfl]
    exact ⟨_, hcoh.holds_constrain rfl ho hheld hfree', .some ⟨owner, rfl⟩⟩
  · obtain ⟨held, hheld, hrel⟩ := h anchor
    rw [if_neg hanchor]
    exact ⟨held, hcoh.holds_constrain_of_ne rfl ho (Ne.symm hanchor) hheld, hrel⟩

/-- Acceptances in a row, each for an attribute that is free unless this is
a modify. -/
theorem Latest.constrainAll {accepted : List Acceptance} (h : tree.Latest log)
    (hcoh : tree.Coherent) (hanchored : ∀ a ∈ accepted, tree.Anchored a.constraint)
    (hfree : modify = true ∨ (accepted.map (·.target)).Nodup ∧
      ∀ a ∈ accepted, lastFor a.target log = none) :
    (tree.constrainAll modify accepted).Latest (log ++ accepted) := by
  induction accepted generalizing tree log with
  | nil =>
    rw [List.append_nil]
    exact h
  | cons a rest ih =>
    have ha := hanchored a List.mem_cons_self
    obtain ⟨owner, ho, -⟩ := hcoh.exists_ownerFor? ha
    have hshape : tree.SameShape (tree.constrain modify a.constraint) := sameShape_constrain
    have hstep := h.constrain hcoh ho (hfree.imp_right fun hf => hf.2 a List.mem_cons_self)
    rw [List.append_cons]
    refine ih hstep (hcoh.constrain modify ha) (fun b hb => ?_) (hfree.imp_right fun hf => ?_)
    · exact hshape.anchored (hanchored b (List.mem_cons_of_mem _ hb))
    · obtain ⟨hnotin, hnodup⟩ := List.nodup_cons.1 hf.1
      refine ⟨hnodup, fun b hb => ?_⟩
      -- the attribute of a later one is not the one just taken
      have hne : a.target ≠ b.target := by
        intro heq
        exact hnotin (List.mem_map.2 ⟨b, hb, heq.symm⟩)
      rw [lastFor_concat, if_neg hne]
      exact hf.2 b (List.mem_cons_of_mem _ hb)

/-- **What is accepted of a list of expressions**, each in the tree as the
ones before it left it. -/
def accepted (registry : Registry) (idx : NodeIndex) (modify : Bool) :
    Tree → List (String × String) → List Acceptance
  | _, [] => []
  | tree, entry :: rest =>
    (tree.accept? registry idx entry).toList ++
      accepted registry idx modify (tree.applyExpression registry idx modify entry).1 rest

/-- The ones before make no difference to what is accepted. -/
theorem accepted_eq (entries : List (String × String)) :
    accepted registry idx modify tree entries = tree.acceptances registry idx entries := by
  induction entries generalizing tree with
  | nil => rfl
  | cons entry rest ih =>
    have hshape : tree.SameShape (tree.applyExpression registry idx modify entry).1 :=
      (edits_applyExpression modify entry).sameShape
    unfold accepted acceptances
    rw [ih, hshape.acceptances_eq, List.filterMap_cons]
    cases tree.accept? registry idx entry <;> rfl

end Tree

/-! ## The constraints of an entry -/

namespace Engine

variable {engine : Engine} {idx parent : NodeIndex} {view : ViewChange} {modify : Bool}
variable {log : List Acceptance}

/-- **What is accepted of an entry's content**, once the node has its
look. -/
def accepted (engine : Engine) (idx : NodeIndex) (modify : Bool) (view : ViewChange) :
    List Acceptance :=
  let styled := engine.styled idx view
  match view.constraints with
  | some (.expressions entries) => Tree.accepted styled.registry idx modify styled.tree entries
  | _ => []

/-- **The content of an entry** leaves the log, with what is accepted of it,
true. A list of descriptions is left out of account. -/
theorem Sound.latest_applyContent (h : engine.Sound) (hidx : idx < engine.tree.size)
    (hlog : engine.tree.Latest log) (hview : view.Ordered)
    (hplain : ∀ configs, view.constraints ≠ some (.indexed configs))
    (hfree : modify = true ∨ ∀ anchor, anchor.node = idx → lastFor anchor log = none) :
    (engine.applyContent idx modify view).1.tree.Latest
      (log ++ engine.accepted idx modify view) := by
  have hedited := edited_styled engine idx view
  have hstyled : (engine.styled idx view).Sound := h.of_edited hidx hedited
  have hidx' : idx < (engine.styled idx view).tree.size := by
    rw [hedited.tree.sameShape.size]
    exact hidx
  have hlatest : (engine.styled idx view).tree.Latest log := by
    refine hlog.of_same fun id => ?_
    unfold Tree.constraint?
    rw [constraints_styled]
  rw [applyContent_eq]
  unfold accepted
  generalize engine.styled idx view = styled at hstyled hidx' hlatest ⊢
  cases hfield : view.constraints with
  | none =>
    rw [List.append_nil]
    exact hlatest
  | some field =>
    cases field with
    | indexed configs => exact absurd hfield (hplain configs)
    | unsupported value =>
      rw [List.append_nil]
      exact hlatest
    | expressions entries =>
      simp only [Tree.accepted_eq, Tree.applyConstraints, Tree.collect_applyExpression]
      have hanchored : ∀ a ∈ styled.tree.acceptances styled.registry idx entries,
          styled.tree.Anchored a.constraint := fun a =>
        Tree.anchored_of_mem_acceptances hstyled.coherent.toRooted hidx'
      refine hlatest.constrainAll hstyled.coherent hanchored (hfree.imp_right fun hf => ?_)
      refine ⟨Tree.nodup_targets (hview.expressions entries hfield), fun a ha => ?_⟩
      obtain ⟨entry, -, haccept⟩ := List.mem_filterMap.1 ha
      exact hf a.target (Tree.accept?_eq_some haccept).1

end Engine

/-! ## Sessions -/

/-- An entry whose constraints, if it has any, are no list of
descriptions. -/
def Json.Plain (entry : Json) : Prop :=
  ∀ change, Change.ofJson? entry = some change →
    ∀ configs, change.view.constraints ≠ some (.indexed configs)

namespace Session

variable {session : Session} {entry : Json} {log : List Acceptance}

/-- **What is accepted of an entry.** Of one that is refused that is
nothing. -/
def acceptedBy (session : Session) (entry : Json) : List Acceptance :=
  match session.resolve entry with
  | .error _ => []
  | .ok (.insert id parent type view) =>
    (session.engine.planted id parent type view).accepted session.engine.tree.nextIndex false view
  | .ok (.modify idx view) => session.engine.accepted idx true view

/-- What is accepted of a change sequence, in order. -/
def acceptedIn (session : Session) : List Json → List Acceptance
  | [] => []
  | entry :: rest => session.acceptedBy entry ++ (session.apply entry).1.acceptedIn rest

/-- **A session reached by expressions alone**, with the log of all that was
accepted on the way. Entries are as they are read, in order. -/
inductive Written : Session → List Acceptance → Prop
  | initial (config : EngineConfig) (images : ImageLoader) (known : KnownIdentifiers) :
      Written ⟨.initial config images, known⟩ []
  | tweak {session : Session} {log : List Acceptance} {changes : List Json} :
      Written session log → (∀ entry ∈ changes, entry.Ordered ∧ entry.Plain) →
      Written (session.tweak changes).1 (log ++ session.acceptedIn changes)

/-- **Every entry leaves the log true.** What an insert gives its node comes
to attributes that nothing was accepted for. -/
theorem latest_apply (h : session.engine.Sound) (hlog : session.engine.tree.Latest log)
    (hordered : entry.Ordered) (hplain : entry.Plain) :
    (session.apply entry).1.engine.tree.Latest (log ++ session.acceptedBy entry) := by
  unfold apply acceptedBy
  cases hr : session.resolve entry with
  | error diagnostic =>
    rw [List.append_nil]
    exact hlog
  | ok action =>
    cases action with
    | insert id parent type view =>
      obtain ⟨hparent, change, hchange, rfl⟩ := resolve_insert hr
      -- the log says nothing of the new node
      have hplanted := h.planted (h.within _ _ hparent) id type change.view
      have hlatest : (session.engine.planted id parent type change.view).tree.Latest log :=
        hlog.of_same fun _ => rfl
      have hidx : session.engine.tree.size <
          (session.engine.planted id parent type change.view).tree.size := by
        unfold Engine.planted
        rw [Tree.size_insertChild]
        exact Nat.lt_succ_self _
      have hfilled : (session.engine.filled id parent type change.view).tree.Latest
          (log ++ (session.engine.planted id parent type change.view).accepted
            session.engine.tree.nextIndex false change.view) :=
        hplanted.latest_applyContent hidx hlatest (Change.ordered_of_ofJson? hordered hchange)
          (hplain change hchange) (.inr fun anchor hanchor =>
            hlog.lastFor_eq_none h.coherent (Nat.le_of_eq hanchor.symm))
      exact hfilled.of_same fun _ => rfl
    | modify idx view =>
      obtain ⟨⟨id, -, hid⟩, change, hchange, rfl⟩ := resolve_modify hr
      have hcontent := h.latest_applyContent (h.within _ _ hid) hlog
        (Change.ordered_of_ofJson? hordered hchange) (hplain change hchange) (.inl rfl)
      -- the frame that may follow leaves the arena alone
      refine hcontent.of_same fun j => ?_
      show (session.engine.modify idx change.view).1.tree.constraint? j = _
      rw [Engine.modify_eq]
      cases change.view.frame with
      | none => rfl
      | some fields => exact Tree.constraint?_applyFrame fields j

theorem Written.sound (h : session.Written log) : session.engine.Sound := by
  have hreached : session.Reached := by
    induction h with
    | initial config images known => exact .initial config images known
    | tweak _ _ ih => exact .tweak _ ih
  exact hreached.sound

/-- **The log is true of every session reached by expressions alone.** -/
theorem Written.latest (h : session.Written log) : session.engine.tree.Latest log := by
  induction h with
  | initial config images known =>
    refine fun anchor => ⟨none, fun j k => ⟨fun hk => ?_, fun hk => ?_⟩, .none⟩
    · cases hk.1
    · cases hk
  | @tweak session log changes hbefore hentries ih =>
    have hsound := hbefore.sound
    clear hbefore
    induction changes generalizing session log with
    | nil =>
      rw [acceptedIn, List.append_nil]
      exact ih
    | cons entry rest ihrest =>
      obtain ⟨hordered, hplain⟩ := hentries entry List.mem_cons_self
      have hstep := latest_apply hsound ih hordered hplain
      rw [acceptedIn, ← List.append_assoc]
      exact ihrest (fun e he => hentries e (List.mem_cons_of_mem _ he)) hstep
        (sound_apply hsound entry)

/-- **The last writer wins.** In a session reached by expressions alone, an
attribute of a node has at most one constraint in force. It has one exactly
if an expression was accepted for it, and then it is the constraint of the
last such expression. -/
theorem last_writer (h : session.Written log) (anchor : Anchor) :
    (session.engine.tree.activeOn anchor).length ≤ 1 ∧
      (session.engine.tree.activeOn anchor ≠ [] ↔ ∃ a ∈ log, a.target = anchor) ∧
      ∀ a, lastFor anchor log = some a →
        ∃ id c, session.engine.tree.activeOn anchor = [id] ∧
          session.engine.tree.constraint? id = some c ∧ c.first = anchor ∧
          c.second = a.second ∧ c.constant = a.expression.offset ∧ c.relation = .equal ∧
          c.multiplier = .one ∧ c.priority = requiredPriority ∧ c.added = false := by
  obtain ⟨held, hheld, hrel⟩ := h.latest anchor
  have hactive := hheld.activeOn_eq
  refine ⟨Tree.sole_iff_length_le.1 hheld.sole, ?_, fun a ha => ?_⟩
  · rw [hactive]
    cases hlast : lastFor anchor log with
    | none =>
      rw [hlast] at hrel
      cases hrel
      refine iff_of_false (fun hne => hne rfl) ?_
      rintro ⟨a, ha, htarget⟩
      exact lastFor_eq_none_iff.1 hlast a ha htarget
    | some a =>
      rw [hlast] at hrel
      cases hrel
      exact iff_of_true (List.cons_ne_nil _ _) ⟨a, of_lastFor hlast⟩
  · rw [ha] at hrel
    cases hrel with
    | @some _ held hfrom =>
      obtain ⟨id, c⟩ := held
      obtain ⟨owner, rfl⟩ := hfrom
      obtain ⟨hc, -, hfirst⟩ := (hheld id _).2 rfl
      exact ⟨id, _, hactive, hc, hfirst, rfl, rfl, rfl, rfl, rfl, rfl⟩

/-- An entry that inserts a box as wide as the root. -/
def boxInserted : Json :=
  .object [("operation", .string "insert"),
    ("view", .object [("constraints", .object [("width", .string "$(superview)")]),
      ("id", .string "box"), ("superview", .string "root"), ("type", .string "View")])]

/-- An entry that makes the box as wide as it is high. -/
def boxSquared : Json :=
  .object [("operation", .string "modify"),
    ("view", .object [("constraints", .object [("width", .string "$(self).height")]),
      ("id", .string "box")])]

/-- The width of a box is given twice. Its own height is in force, alone. -/
theorem last_writer_of_box :
    let session := ((initial .standard .none).tweak [boxInserted, boxSquared]).1
    let log := (initial .standard .none).acceptedIn [boxInserted, boxSquared]
    session.Written log ∧ log.map (·.target) = [⟨1, .width⟩, ⟨1, .width⟩] ∧
      ∃ id c, session.engine.tree.activeOn ⟨1, .width⟩ = [id] ∧
        session.engine.tree.constraint? id = some c ∧ c.second = some ⟨1, .height⟩ := by
  intro session log
  have hentries : ∀ entry ∈ [boxInserted, boxSquared], entry.Ordered ∧ entry.Plain := by
    intro entry hentry
    simp only [List.mem_cons, List.not_mem_nil, or_false] at hentry
    rcases hentry with rfl | rfl
    · refine ⟨by decide +kernel, fun change hchange configs hindexed => ?_⟩
      have hview : change.view.constraints =
          some (.expressions [("width", "$(superview)")]) := by
        cases hchange
        rfl
      rw [hview] at hindexed
      cases hindexed
    · refine ⟨by decide +kernel, fun change hchange configs hindexed => ?_⟩
      have hview : change.view.constraints =
          some (.expressions [("width", "$(self).height")]) := by
        cases hchange
        rfl
      rw [hview] at hindexed
      cases hindexed
  have hwritten : session.Written log := .tweak (.initial _ _ _) hentries
  have hsecond : (lastFor ⟨1, .width⟩ log).map (·.second) = some (some ⟨1, .height⟩) := by
    decide +kernel
  obtain ⟨a, ha, hheight⟩ := Option.map_eq_some_iff.1 hsecond
  obtain ⟨id, c, hactive, hc, -, hc', -⟩ := (last_writer hwritten ⟨1, .width⟩).2.2 a ha
  exact ⟨hwritten, by decide +kernel, id, c, hactive, hc, hc'.trans hheight⟩

end Session

end LiveLayout
