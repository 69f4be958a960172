import LiveLayout.Proofs.Sessions
/-!
# Snapshot addresses

A position on a node's snapshot list stays the address of one constraint.
Lists only get longer, and what they address keeps its terms: its anchors,
its relation, its multiplier and where it came from. `Keeps` says so of two
trees; every edit does it, an entry does it for the nodes there were, and
so does a whole change sequence (`snapshot_addresses_stable`). What carries
it is that a replacement never writes over an addressed constraint
(`replaceConstraint_slot`).
-/

namespace LiveLayout

/-- **The terms of a constraint**: what a description can address it for.
The constant, the priority and being in force are not among them. -/
structure Constraint.SameTerms (later c : Constraint) : Prop where
  first : later.first = c.first
  second : later.second = c.second
  relation : later.relation = c.relation
  multiplier : later.multiplier = c.multiplier
  added : later.added = c.added

namespace Constraint.SameTerms

variable {c later last : Constraint}

theorem refl (c : Constraint) : c.SameTerms c := ⟨rfl, rfl, rfl, rfl, rfl⟩

theorem trans (h : last.SameTerms later) (h' : later.SameTerms c) : last.SameTerms c where
  first := h.first.trans h'.first
  second := h.second.trans h'.second
  relation := h.relation.trans h'.relation
  multiplier := h.multiplier.trans h'.multiplier
  added := h.added.trans h'.added

end Constraint.SameTerms

namespace Tree

variable {tree later last edited : Tree} {registry : Registry} {idx n : NodeIndex}
variable {id prior : ConstraintId} {c k : Constraint}

/-- **Addresses are kept** from one tree to a later one. -/
structure Keeps (tree later : Tree) : Prop where
  addresses : ∀ n, tree.snapshot n <+: later.snapshot n
  terms : ∀ n id c, id ∈ tree.snapshot n → tree.constraint? id = some c →
    ∃ c', later.constraint? id = some c' ∧ c'.SameTerms c

theorem Keeps.refl (tree : Tree) : tree.Keeps tree where
  addresses _ := List.prefix_rfl
  terms _ _ c _ hc := ⟨c, hc, .refl c⟩

theorem Keeps.trans (h : tree.Keeps later) (h' : later.Keeps last) : tree.Keeps last where
  addresses n := (h.addresses n).trans (h'.addresses n)
  terms n id c hid hc := by
    obtain ⟨c', hc', hsame⟩ := h.terms n id c hid hc
    obtain ⟨c'', hc'', hsame'⟩ := h'.terms n id c' ((h.addresses n).subset hid) hc'
    exact ⟨c'', hc'', hsame'.trans hsame⟩

/-- A list that is as it was keeps what is on it. -/
theorem prefix_of_eq (h : later.snapshot n = tree.snapshot n) :
    tree.snapshot n <+: later.snapshot n := h ▸ List.prefix_rfl

/-! ## Replacements -/

/-- **A replacement takes no addressed place**: what is addressed is kept
and the replacement goes to the end of the arena. -/
theorem replaceConstraint_slot (h : tree.Recorded) (prior : ConstraintId) (c : Constraint)
    (n : NodeIndex) : (tree.replaceConstraint prior c).2 ∉ tree.snapshot n := by
  rw [replaceConstraint_eq]
  split
  · intro hmem
    have hlt : tree.constraints.size ≤ (tree.switch prior false).nextConstraint := by
      unfold nextConstraint
      exact Nat.le_of_eq size_constraints_switch.symm
    exact Nat.not_lt_of_le hlt (h n _ hmem)
  · rename_i hcond
    rw [not_or, isSnapshotted_iff] at hcond
    intro hmem
    refine hcond.1 ⟨n, ?_⟩
    rw [snapshot_switch]
    exact hmem

/-- So of an addressed constraint a replacement changes nothing but whether
it is in force. -/
theorem constraint?_replaceConstraint (hid : id ∈ tree.snapshot n)
    (hk : tree.constraint? id = some k) (prior : ConstraintId) (c : Constraint) :
    ∃ on owner, (tree.replaceConstraint prior c).1.constraint? id =
      some { k with active := on, owner } := by
  have hfreed : ∃ on owner, (tree.switch prior false).constraint? id =
      some { k with active := on, owner } := by
    by_cases heq : prior = id
    · subst heq
      exact (tree.switch_cases prior false).constraint?_self hk
    · rw [(tree.switch_cases prior false).constraint?_of_ne heq]
      exact ⟨k.active, k.owner, hk⟩
  have hmem : id ∈ (tree.switch prior false).snapshot n := by
    rw [snapshot_switch]
    exact hid
  obtain ⟨on, owner, hget⟩ := hfreed
  refine ⟨on, owner, ?_⟩
  rw [replaceConstraint_eq]
  split
  · rw [constraint?_addConstraint_of_lt (lt_of_constraint? hget)]
    exact hget
  · -- the position written is on no list, this one is
    rename_i hcond
    rw [not_or, isSnapshotted_iff] at hcond
    have hne : prior ≠ id := by
      rintro rfl
      exact hcond.1 ⟨n, hmem⟩
    have hover : ((tree.switch prior false).overwrite prior c).constraint? id =
        some { k with active := on, owner } := by
      rw [constraint?_overwrite, if_neg hne]
      exact hget
    split
    · rw [(switch_cases _ prior true).constraint?_of_ne hne]
      exact hover
    · exact hover

/-! ## Edits -/

/-- An expression keeps every address, whatever it replaces. -/
theorem keeps_constrain (modify : Bool) (c : Constraint) :
    tree.Keeps (tree.constrain modify c) where
  addresses n := prefix_of_eq snapshot_constrain
  terms n id k hid hk := by
    rw [constrain_eq]
    show ∃ c', (tree.enforce modify c).constraint? id = some c' ∧ c'.SameTerms k
    rcases tree.enforce_cases modify c with ⟨prior, -, -, heq⟩ | ⟨-, heq⟩
    · obtain ⟨on, owner, hget⟩ := constraint?_replaceConstraint hid hk prior c
      rw [heq]
      exact ⟨_, hget, ⟨rfl, rfl, rfl, rfl, rfl⟩⟩
    · rw [heq, constraint?_addConstraint_of_lt (lt_of_constraint? hk)]
      exact ⟨k, hk, .refl k⟩

/-- An update reaches the constant, the priority and the switch. -/
theorem keeps_updateConstraint (id : ConstraintId) (constant : Binary64) (active : Bool)
    (priority : Binary32) : tree.Keeps (tree.updateConstraint id constant active priority) where
  addresses n := prefix_of_eq snapshot_updateConstraint
  terms n j k _ hk := by
    unfold updateConstraint
    by_cases heq : id = j
    · subst heq
      have hamended :
          (tree.modifyConstraint id fun c => { c with constant, priority }).constraint? id =
            some { k with constant, priority } := by
        rw [constraint?_modifyConstraint, if_pos rfl, hk]
        rfl
      obtain ⟨on, owner, hget⟩ := (switch_cases _ id active).constraint?_self hamended
      exact ⟨_, hget, ⟨rfl, rfl, rfl, rfl, rfl⟩⟩
    · rw [(switch_cases _ id active).constraint?_of_ne heq, constraint?_modifyConstraint,
        if_neg heq]
      exact ⟨k, hk, .refl k⟩

/-- A list that is added to keeps what is on it. -/
theorem prefix_pushSnapshot : tree.snapshot n <+: (tree.pushSnapshot idx id).snapshot n := by
  by_cases hidx : idx < tree.size
  · rw [snapshot_pushSnapshot hidx]
    split
    · exact List.prefix_append _ _
    · exact List.prefix_rfl
  · have hsame : tree.pushSnapshot idx id = tree :=
      modifyNode_eq_self _ fun node hnode => absurd (lt_size_of_node? hnode) hidx
    exact prefix_of_eq (congrArg (·.snapshot n) hsame)

/-- **Every edit keeps every address.** -/
theorem Edit.keeps (e : Edit registry idx tree edited) : tree.Keeps edited := by
  cases e with
  | style hn hkeep =>
    exact ⟨fun n => prefix_of_eq (snapshot_restyle hn hkeep),
      fun _ _ c _ hc => ⟨c, hc, .refl c⟩⟩
  | express modify => exact keeps_constrain modify _
  | update => exact keeps_updateConstraint _ _ _ _
  | append =>
    refine ⟨fun n => ?_, fun _ id c _ hc => ⟨c, ?_, .refl c⟩⟩
    · exact (prefix_of_eq snapshot_addConstraint).trans prefix_pushSnapshot
    · rw [pushSnapshot, constraint?_modifyNode,
        constraint?_addConstraint_of_lt (lt_of_constraint? hc)]
      exact hc

theorem Edits.keeps (e : Edits registry idx tree edited) : tree.Keeps edited := by
  induction e with
  | refl => exact .refl tree
  | tail _ e ih => exact ih.trans e.keeps

theorem keeps_insertChild {parent : NodeIndex} {node : Node} {position : Option Nat}
    (hbare : node.snapshot = []) : tree.Keeps (tree.insertChild parent node position) where
  addresses _ := prefix_of_eq (snapshot_insertChild hbare)
  terms _ _ c _ hc := ⟨c, hc, .refl c⟩

/-- **Recording a node's constraints** keeps the addresses of any tree that
did not have the node yet. -/
theorem Keeps.captureSnapshot (h : tree.Keeps later) (hnew : tree.snapshot idx = []) :
    tree.Keeps (later.captureSnapshot idx) where
  addresses n := by
    rw [snapshot_captureSnapshot]
    split
    · rename_i heq
      subst heq
      rw [hnew]
      exact List.nil_prefix
    · exact h.addresses n
  terms := h.terms

end Tree

/-! ## Sessions -/

namespace Session

variable {session : Session}

/-- **An entry keeps every address**: the only list it writes anew is the
new node's. -/
theorem keeps_apply (session : Session) (entry : Json) :
    session.engine.tree.Keeps (session.apply entry).1.engine.tree := by
  have hcases := session.apply_cases entry
  generalize (session.apply entry).1.engine = engine at hcases ⊢
  cases hcases with
  | refused => exact .refl _
  | @inserted id parent type view =>
    rw [Engine.insert_eq]
    refine Tree.Keeps.captureSnapshot ?_ ?_
    · exact (Tree.keeps_insertChild rfl).trans
        (Engine.edited_filled session.engine id parent type view).tree.keeps
    · unfold Tree.snapshot
      rw [Tree.nextIndex, ← Tree.size, Tree.node?_size]
      rfl
  | modified => exact (Engine.edited_modify ..).tree.keeps

theorem keeps_tweak (session : Session) (changes : List Json) :
    session.engine.tree.Keeps (session.tweak changes).1.engine.tree :=
  tweak_rel (fun s s' => s.engine.tree.Keeps s'.engine.tree) (fun _ => .refl _) .trans
    keeps_apply session changes

/-- **Snapshot addresses are stable.** In a session that was reached, any
further changes leave every node its snapshot list, perhaps longer, and
leave what a position addresses its terms. And at no point of an entry's
edits does a replacement take a place that some list addresses. -/
theorem snapshot_addresses_stable (h : session.Reached) (changes : List Json) :
    (∀ n, n < session.engine.tree.size →
      session.engine.tree.snapshot n <+: (session.tweak changes).1.engine.tree.snapshot n ∧
      ∀ (i : Nat) id, (session.engine.tree.snapshot n)[i]? = some id →
        ∃ c c', session.engine.tree.constraint? id = some c ∧
          (session.tweak changes).1.engine.tree.constraint? id = some c' ∧ c'.SameTerms c) ∧
    ∀ idx between, Tree.Edits session.engine.registry idx session.engine.tree between →
      ∀ prior c n, (between.replaceConstraint prior c).2 ∉ between.snapshot n := by
  refine ⟨fun n _ => ?_, fun idx between e prior c n => ?_⟩
  · have hkeeps := session.keeps_tweak changes
    refine ⟨hkeeps.addresses n, fun i id hi => ?_⟩
    have hmem : id ∈ session.engine.tree.snapshot n := List.mem_of_getElem? hi
    obtain ⟨c, hc⟩ := Tree.constraint?_of_lt (h.sound.recorded n id hmem)
    obtain ⟨c', hc', hsame⟩ := hkeeps.terms n id c hmem hc
    exact ⟨c, c', hc, hc', hsame⟩
  · exact Tree.replaceConstraint_slot (e.recorded h.sound.recorded) prior c n

/-- An entry that inserts a square box. -/
def squareInserted : Json :=
  .object [("operation", .string "insert"),
    ("view", .object [("constraints", .object [("width", .string "$(self).height")]),
      ("id", .string "box"), ("superview", .string "root"), ("type", .string "View")])]

/-- An entry that makes the box as wide as its parent is high. -/
def squareWidened : Json :=
  .object [("operation", .string "modify"),
    ("view", .object [("constraints", .object [("width", .string "$(superview).height")]),
      ("id", .string "box")])]

/-- A session with a square box. -/
def squared : Session := ((initial .standard .none).tweak [squareInserted]).1

/-- The box has the constraint of its width on its list. Another width does
not take its place: it is installed on the root, at the next position. -/
theorem snapshot_addresses_of_square :
    squared.Reached ∧ squared.engine.tree.snapshot 1 = [0] ∧
      (squared.tweak [squareWidened]).1.engine.tree.installed Tree.root = [1] ∧
      ∃ c c', squared.engine.tree.constraint? 0 = some c ∧
        (squared.tweak [squareWidened]).1.engine.tree.constraint? 0 = some c' ∧
        c'.SameTerms c := by
  have hreached : squared.Reached := .tweak _ (.initial _ _ _)
  have hsnapshot : squared.engine.tree.snapshot 1 = [0] := by decide +kernel
  have hsize : 1 < squared.engine.tree.size := by decide +kernel
  have hstable := (snapshot_addresses_stable hreached [squareWidened]).1 1 hsize
  refine ⟨hreached, hsnapshot, by decide +kernel, hstable.2 0 0 ?_⟩
  rw [hsnapshot]
  rfl

end Session

end LiveLayout
