import LiveLayout.Proofs.Edits
/-!
# Sessions and what holds of them

A session is reached by change sequences from a new engine. In every one
of them the tree is coherent, the registry leads into the tree and the
snapshot lists lead into the arena (`Reached.sound`). An entry either is
refused and changes nothing, or it is an insert or a modify of nodes that
are there (`apply_cases`). Where a law speaks of what happened on the way,
`Course` is a session reached with the account of it.
-/

namespace LiveLayout

namespace Tree

variable {tree edited : Tree} {registry : Registry} {idx n : NodeIndex} {id prior : ConstraintId}
variable {c : Constraint}

/-- **Snapshot lists address the arena.** -/
def Recorded (tree : Tree) : Prop :=
  ∀ n id, id ∈ tree.snapshot n → id < tree.constraints.size

/-- The arena never shrinks. -/
theorem le_size_constraints_replaceConstraint :
    tree.constraints.size ≤ (tree.replaceConstraint prior c).1.constraints.size := by
  rw [replaceConstraint_eq]
  split
  · rw [size_constraints_addConstraint, size_constraints_switch]
    exact Nat.le_succ _
  · split
    · refine Nat.le_of_eq ?_
      rw [size_constraints_switch, overwrite, size_constraints_modifyConstraint,
        size_constraints_switch]
    · refine Nat.le_of_eq ?_
      rw [overwrite, size_constraints_modifyConstraint, size_constraints_switch]

theorem le_size_constraints_constrain {modify : Bool} :
    tree.constraints.size ≤ (tree.constrain modify c).constraints.size := by
  rw [constrain_eq]
  show tree.constraints.size ≤ (tree.enforce modify c).constraints.size
  rcases tree.enforce_cases modify c with ⟨prior, -, -, heq⟩ | ⟨-, heq⟩
  · rw [heq]
    exact le_size_constraints_replaceConstraint
  · rw [heq, size_constraints_addConstraint]
    exact Nat.le_succ _

/-- An expression keeps snapshot lists inside the arena. -/
theorem Recorded.constrain (h : tree.Recorded) (modify : Bool) (c : Constraint) :
    (tree.constrain modify c).Recorded := by
  intro n id hid
  rw [snapshot_constrain] at hid
  exact Nat.lt_of_lt_of_le (h n id hid) le_size_constraints_constrain

/-- Only what is pushed comes onto a snapshot list, and onto one only. -/
theorem mem_snapshot_pushSnapshot {j : ConstraintId}
    (h : j ∈ (tree.pushSnapshot idx id).snapshot n) : j ∈ tree.snapshot n ∨ (n = idx ∧ j = id) := by
  by_cases hidx : idx < tree.size
  · rw [snapshot_pushSnapshot hidx] at h
    split at h
    · rename_i heq
      rcases List.mem_append.1 h with h | h
      · exact .inl h
      · exact .inr ⟨heq.symm, List.mem_singleton.1 h⟩
    · exact .inl h
  · -- a position without a node has no list
    have hsame : tree.pushSnapshot idx id = tree :=
      modifyNode_eq_self _ fun node hnode => absurd (lt_size_of_node? hnode) hidx
    rw [hsame] at h
    exact .inl h

/-- **Edits keep snapshot lists inside the arena.** -/
theorem Edit.recorded (e : Edit registry idx tree edited) (h : tree.Recorded) :
    edited.Recorded := by
  intro n id hid
  cases e with
  | style hn hkeep =>
    rw [snapshot_restyle hn hkeep] at hid
    exact h n id hid
  | express modify => exact h.constrain modify _ n id hid
  | update =>
    rw [snapshot_updateConstraint] at hid
    rw [size_constraints_updateConstraint]
    exact h n id hid
  | append =>
    show id < (tree.addConstraint _).constraints.size
    rw [size_constraints_addConstraint]
    rcases mem_snapshot_pushSnapshot hid with hid | ⟨-, rfl⟩
    · rw [snapshot_addConstraint] at hid
      exact Nat.lt_succ_of_lt (h n id hid)
    · exact Nat.lt_succ_self _

theorem Edits.recorded (e : Edits registry idx tree edited) (h : tree.Recorded) :
    edited.Recorded := by
  induction e with
  | refl => exact h
  | tail _ e ih => exact e.recorded ih

theorem Recorded.insertChild {parent : NodeIndex} {node : Node} {position : Option Nat}
    (h : tree.Recorded) (hbare : node.snapshot = []) :
    (tree.insertChild parent node position).Recorded := by
  intro n id hid
  rw [snapshot_insertChild hbare] at hid
  exact h n id hid

theorem Recorded.captureSnapshot (h : tree.Recorded) (hc : tree.Coherent) :
    (tree.captureSnapshot idx).Recorded := by
  intro n id hid
  rw [snapshot_captureSnapshot] at hid
  show id < tree.constraints.size
  split at hid
  · obtain ⟨c, hc, -, -⟩ := (hc.listed id n).1 hid
    exact lt_of_constraint? hc
  · exact h n id hid

end Tree

namespace Session

variable {session : Session} {entry : Json} {view : ViewChange}

/-! ## Entries -/

theorem resolveInsert_ok {action : Action} (h : session.resolveInsert view = .ok action) :
    ∃ id parent type, view.id = some id ∧
      session.engine.registry.lookup? (view.superview.getD "") = some parent ∧
      NodeType.ofTag? (view.typeTag.getD "") = some type ∧
      action = .insert id parent type view := by
  simp only [resolveInsert] at h
  split at h
  · cases h
  · rename_i id hid
    split at h
    · cases h
    · rename_i parent hparent
      split at h
      · cases h
      · rename_i type htype
        cases h
        exact ⟨id, parent, type, hid, hparent, htype, rfl⟩

theorem resolveModify_ok {action : Action} (h : session.resolveModify view = .ok action) :
    ∃ id idx, view.id = some id ∧ session.engine.registry.lookup? id = some idx ∧
      action = .modify idx view := by
  unfold resolveModify at h
  split at h
  · cases h
  · rename_i id hid
    split at h
    · cases h
    · rename_i idx hidx
      cases h
      exact ⟨id, idx, hid, hidx, rfl⟩

/-- An entry that is not refused is one or the other. -/
theorem resolve_ok {action : Action} (h : session.resolve entry = .ok action) :
    ∃ change, Change.ofJson? entry = some change ∧
      ((change.operation? = some .insert ∧ session.resolveInsert change.view = .ok action) ∨
        (change.operation? = some .modify ∧ session.resolveModify change.view = .ok action)) := by
  unfold resolve at h
  split at h
  · cases h
  · rename_i change hchange
    split at h
    · rename_i hop
      exact ⟨change, hchange, .inl ⟨hop, h⟩⟩
    · rename_i hop
      exact ⟨change, hchange, .inr ⟨hop, h⟩⟩
    · cases h

/-- **An insert that is applied** is under a node that is registered. -/
theorem resolve_insert {id : Identifier} {parent : NodeIndex} {type : NodeType}
    (h : session.resolve entry = .ok (.insert id parent type view)) :
    session.engine.registry.lookup? (view.superview.getD "") = some parent ∧
      ∃ change, Change.ofJson? entry = some change ∧ change.view = view := by
  obtain ⟨change, hchange, ⟨-, h⟩ | ⟨-, h⟩⟩ := resolve_ok h
  · obtain ⟨_, _, _, -, hparent, -, heq⟩ := resolveInsert_ok h
    cases heq
    exact ⟨hparent, change, hchange, rfl⟩
  · obtain ⟨_, _, -, -, heq⟩ := resolveModify_ok h
    cases heq

/-- **A modify that is applied** is of a node that is registered. -/
theorem resolve_modify {idx : NodeIndex} (h : session.resolve entry = .ok (.modify idx view)) :
    (∃ id, view.id = some id ∧ session.engine.registry.lookup? id = some idx) ∧
      ∃ change, Change.ofJson? entry = some change ∧ change.view = view := by
  obtain ⟨change, hchange, ⟨-, h⟩ | ⟨-, h⟩⟩ := resolve_ok h
  · obtain ⟨_, _, _, -, -, -, heq⟩ := resolveInsert_ok h
    cases heq
  · obtain ⟨id, _, hid, hidx, heq⟩ := resolveModify_ok h
    cases heq
    exact ⟨⟨id, hid, hidx⟩, change, hchange, rfl⟩

/-- **What becomes of the engine** when an entry is applied. -/
inductive Applied (session : Session) (entry : Json) : Engine → Prop
  /-- A refused entry changes nothing. -/
  | refused {diagnostic : Diagnostic} : session.resolve entry = .error diagnostic →
      Applied session entry session.engine
  | inserted {id : Identifier} {parent : NodeIndex} {type : NodeType} {view : ViewChange} :
      session.resolve entry = .ok (.insert id parent type view) →
      Applied session entry (session.engine.insert id parent type view).1
  | modified {idx : NodeIndex} {view : ViewChange} :
      session.resolve entry = .ok (.modify idx view) →
      Applied session entry (session.engine.modify idx view).1

theorem apply_cases (session : Session) (entry : Json) :
    Applied session entry (session.apply entry).1.engine := by
  unfold apply
  cases hr : session.resolve entry with
  | error diagnostic => exact .refused hr
  | ok action =>
    cases action with
    | insert id parent type view => exact .inserted hr
    | modify idx view => exact .modified hr

/-- What each entry keeps, a change sequence keeps. -/
theorem tweak_rel (R : Session → Session → Prop) (refl : ∀ s, R s s)
    (trans : ∀ {a b c}, R a b → R b c → R a c) (h : ∀ s entry, R s (s.apply entry).1)
    (session : Session) (changes : List Json) : R session (session.tweak changes).1 := by
  induction changes generalizing session with
  | nil => exact refl session
  | cons entry rest ih => exact trans (h session entry) (ih (session.apply entry).1)

/-- **Each entry of a change sequence with the session it meets**, the one
the entries before it left. -/
def met (session : Session) : List Json → List (Session × Json)
  | [] => []
  | entry :: rest => (session, entry) :: (session.apply entry).1.met rest

/-! ## The invariant -/

/-- **A session reached** by change sequences, from a new engine with any
configuration and any image loader, whatever identifiers were given out
elsewhere. -/
inductive Reached : Session → Prop
  | initial (config : EngineConfig) (images : ImageLoader) (known : KnownIdentifiers) :
      Reached ⟨.initial config images, known⟩
  | tweak {session : Session} (changes : List Json) :
      Reached session → Reached (session.tweak changes).1

end Session

/-- **Every identifier registered stands for a node** of the tree. -/
def Registry.Within (registry : Registry) (tree : Tree) : Prop :=
  ∀ id idx, registry.lookup? id = some idx → idx < tree.size

/-- A registry that leads into a tree leads into any with as many nodes. -/
theorem Registry.Within.mono {registry : Registry} {tree other : Tree}
    (h : registry.Within tree) (hle : tree.size ≤ other.size) : registry.Within other :=
  fun id i hi => Nat.lt_of_lt_of_le (h id i hi) hle

/-- **The invariant of an engine**: its tree is coherent, its registry leads
into the tree, and snapshot lists lead into the arena. -/
structure Engine.Sound (engine : Engine) : Prop where
  coherent : engine.tree.Coherent
  within : engine.registry.Within engine.tree
  recorded : engine.tree.Recorded

namespace Engine

variable {engine edited : Engine} {idx parent : NodeIndex}

theorem sound_initial (config : EngineConfig) (images : ImageLoader) :
    (Engine.initial config images).Sound where
  coherent := Tree.coherent_initial
  within id idx hidx := by
    unfold initial at hidx
    rw [Registry.lookup?_register] at hidx
    split at hidx
    · cases hidx
      exact Nat.zero_lt_one
    · cases hidx
  recorded n id hid := by
    have hempty : Tree.initial.snapshot n = [] := by
      cases n <;> rfl
    change id ∈ Tree.initial.snapshot n at hid
    rw [hempty] at hid
    cases hid

/-- **Edits of a node keep the invariant.** -/
theorem Sound.of_edited (h : engine.Sound) (hidx : idx < engine.tree.size)
    (e : Edited idx engine edited) : edited.Sound where
  coherent := e.tree.coherent h.coherent hidx
  within := by
    rw [e.registry]
    exact h.within.mono (Nat.le_of_eq e.tree.sameShape.size.symm)
  recorded := e.tree.recorded h.recorded

theorem Sound.modify (h : engine.Sound) (hidx : idx < engine.tree.size) (view : ViewChange) :
    (engine.modify idx view).1.Sound :=
  h.of_edited hidx (edited_modify engine idx view)

/-- The bare node keeps it, and so does its content. -/
theorem Sound.planted (h : engine.Sound) (hp : parent < engine.tree.size) (id : Identifier)
    (type : NodeType) (view : ViewChange) : (engine.planted id parent type view).Sound where
  coherent := h.coherent.insertChild hp rfl
  within := h.within.mono Tree.grows_insertChild.size
  recorded := h.recorded.insertChild rfl

theorem Sound.filled (h : engine.Sound) (hp : parent < engine.tree.size) (id : Identifier)
    (type : NodeType) (view : ViewChange) : (engine.filled id parent type view).Sound := by
  refine (h.planted hp id type view).of_edited ?_ (edited_filled engine id parent type view)
  show engine.tree.size < (engine.tree.insertChild _ _ _).size
  rw [Tree.size_insertChild]
  exact Nat.lt_succ_self _

/-- The new node is in the tree while its content is applied. -/
theorem size_filled (engine : Engine) (id : Identifier) (parent : NodeIndex) (type : NodeType)
    (view : ViewChange) :
    (engine.filled id parent type view).tree.size = engine.tree.size + 1 := by
  rw [(edited_filled engine id parent type view).tree.sameShape.size]
  exact Tree.size_insertChild ..

theorem Sound.insert (h : engine.Sound) (hp : parent < engine.tree.size) (id : Identifier)
    (type : NodeType) (view : ViewChange) : (engine.insert id parent type view).1.Sound := by
  have hfilled := h.filled hp id type view
  rw [insert_eq]
  refine ⟨hfilled.coherent.captureSnapshot _, ?_, hfilled.recorded.captureSnapshot hfilled.coherent⟩
  intro name i hi
  show i < (Tree.captureSnapshot _ _).size
  rw [Tree.sameShape_captureSnapshot.size, size_filled]
  rw [Registry.lookup?_register] at hi
  split at hi
  · cases hi
    exact Nat.lt_succ_self _
  · rw [(edited_filled engine id parent type view).registry] at hi
    exact Nat.lt_succ_of_lt (h.within name i hi)

end Engine

namespace Session

variable {session : Session}

/-- **Every entry keeps the invariant.** -/
theorem sound_apply (h : session.engine.Sound) (entry : Json) :
    (session.apply entry).1.engine.Sound := by
  have hcases := session.apply_cases entry
  generalize (session.apply entry).1.engine = engine at hcases ⊢
  cases hcases with
  | refused => exact h
  | inserted hr => exact h.insert (h.within _ _ (resolve_insert hr).1) _ _ _
  | modified hr =>
    obtain ⟨⟨id, -, hid⟩, -⟩ := resolve_modify hr
    exact h.modify (h.within _ _ hid) _

/-- **Every session reached has it.** -/
theorem Reached.sound (h : session.Reached) : session.engine.Sound := by
  induction h with
  | initial config images known => exact Engine.sound_initial config images
  | @tweak session changes _ ih =>
    exact tweak_rel (fun s s' => s.engine.Sound → s'.engine.Sound) (fun _ h => h)
      (fun hab hbc h => hbc (hab h)) (fun _ entry h => sound_apply h entry) session changes ih

/-! ## Accounts -/

variable {α : Type} {note : Session → Json → List α} {log : List α}

/-- **The account of a change sequence**, in order: of each entry what is
noted of it as it is met. -/
def account (session : Session) (note : Session → Json → List α) (changes : List Json) :
    List α :=
  (session.met changes).flatMap fun m => note m.1 m.2

/-- **A session reached, with the account of the way**, from a new engine on:
of all entries that were met, whatever became of them. -/
inductive Course (note : Session → Json → List α) : Session → List α → Prop
  | initial (config : EngineConfig) (images : ImageLoader) (known : KnownIdentifiers) :
      Course note ⟨.initial config images, known⟩ []
  | tweak {session : Session} {log : List α} (changes : List Json) :
      Course note session log →
      Course note (session.tweak changes).1 (log ++ session.account note changes)

theorem Course.reached (h : session.Course note log) : session.Reached := by
  induction h with
  | initial config images known => exact .initial config images known
  | tweak changes _ ih => exact .tweak changes ih

/-- Every session reached has an account. -/
theorem Reached.exists_course (h : session.Reached) (note : Session → Json → List α) :
    ∃ log, session.Course note log := by
  induction h with
  | initial config images known => exact ⟨[], .initial config images known⟩
  | tweak changes _ ih =>
    obtain ⟨log, hlog⟩ := ih
    exact ⟨_, hlog.tweak changes⟩

/-- What every entry keeps of an engine and the account so far, a change
sequence keeps. -/
theorem account_tweak {P : Engine → List α → Prop} (hsound : session.engine.Sound)
    (h : P session.engine log)
    (happly : ∀ (s : Session) log, s.engine.Sound → P s.engine log →
      ∀ entry, P (s.apply entry).1.engine (log ++ note s entry)) (changes : List Json) :
    P (session.tweak changes).1.engine (log ++ session.account note changes) := by
  induction changes generalizing session log with
  | nil =>
    rw [account, met, List.flatMap_nil, List.append_nil]
    exact h
  | cons entry rest ih =>
    rw [account, met, List.flatMap_cons, ← List.append_assoc]
    exact ih (sound_apply hsound entry) (happly session log hsound h entry)

/-- **What a new engine has and every entry keeps**, every session reached
has with its account. -/
theorem Course.invariant {P : Engine → List α → Prop} (h : session.Course note log)
    (hinitial : ∀ config images, P (.initial config images) [])
    (happly : ∀ (s : Session) log, s.engine.Sound → P s.engine log →
      ∀ entry, P (s.apply entry).1.engine (log ++ note s entry)) :
    P session.engine log := by
  induction h with
  | initial config images known => exact hinitial config images
  | tweak changes hbefore ih => exact account_tweak hbefore.reached.sound ih happly changes

end Session

end LiveLayout
