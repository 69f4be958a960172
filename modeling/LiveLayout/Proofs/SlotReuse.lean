import LiveLayout.Proofs.Legality
import LiveLayout.Proofs.Takeover
import Mathlib.Data.Finset.Card
/-!
# Slots that are written over

What an expression puts in force for an attribute has a slot of its own: no
snapshot list addresses it, and the next expression for the attribute is
written over it, wherever it leads (`Tree.OwnSlot`). So modifies that bring
expressions make the arena longer by one for each attribute that they give a
slot of its own and that had none before, and by nothing else
(`arena_grows_by_attributes`). `Tree.Frugal` is the invariant: the log of what
was accepted tells both the length of the arena and which attributes have
slots of their own.
-/

namespace LiveLayout

/-- **The attributes that expressions were accepted for**, each once. -/
def attributes (log : List Acceptance) : Finset Anchor := (log.map (·.target)).toFinset

theorem attributes_concat (log : List Acceptance) (a : Acceptance) :
    attributes (log ++ [a]) = insert a.target (attributes log) := by
  ext anchor
  simp only [attributes, List.map_append, List.map_cons, List.map_nil, List.mem_toFinset,
    List.mem_append, List.mem_singleton, Finset.mem_insert]
  exact or_comm

namespace Tree

variable {start tree other : Tree} {c : Constraint} {a : Acceptance} {anchor : Anchor}
variable {slot : ConstraintId} {size : Nat} {log accepted : List Acceptance}

theorem isSnapshotted_eq_false_iff :
    tree.isSnapshotted slot = false ↔ ∀ n, slot ∉ tree.snapshot n := by
  rw [← Bool.not_eq_true, isSnapshotted_iff, not_exists]

/-- **An attribute has a slot of its own** if something is in force for it
that no snapshot list addresses. -/
def OwnSlot (tree : Tree) (anchor : Anchor) : Prop :=
  ∃ id ∈ tree.activeOn anchor, tree.isSnapshotted id = false

instance (tree : Tree) : DecidablePred tree.OwnSlot := fun anchor =>
  inferInstanceAs (Decidable (∃ id ∈ tree.activeOn anchor, tree.isSnapshotted id = false))

/-- Only constraints and snapshot lists count. -/
theorem ownSlot_congr (hc : ∀ id, other.constraint? id = tree.constraint? id)
    (hsnapshot : ∀ n, other.snapshot n = tree.snapshot n) :
    other.OwnSlot anchor ↔ tree.OwnSlot anchor := by
  have hlisted : ∀ id, other.isSnapshotted id = tree.isSnapshotted id := by
    intro id
    rw [Bool.eq_iff_iff, isSnapshotted_iff, isSnapshotted_iff]
    simp only [hsnapshot]
  unfold OwnSlot
  simp only [mem_activeOn, hc, hlisted]

/-! ## One expression -/

/-- **Where a constraint is put, no list addresses it.** -/
theorem Placed.isSnapshotted_eq (h : tree.Placed anchor slot size) (hrec : tree.Recorded) :
    tree.isSnapshotted slot = false := by
  have hend : tree.isSnapshotted tree.constraints.size = false :=
    isSnapshotted_eq_false_iff.2 fun n hn => Nat.lt_irrefl _ (hrec n _ hn)
  rcases h with _ | _ | ⟨-, hfree⟩
  · exact hend
  · exact hend
  · exact isSnapshotted_eq_false_iff.2 hfree

/-- **The arena is longer by one unless the attribute has a slot of its
own**, if it is not held twice. -/
theorem Placed.size_eq (h : tree.Placed anchor slot size) (hcoh : tree.Coherent)
    (hsole : tree.Sole anchor) :
    size = tree.constraints.size + if tree.OwnSlot anchor then 0 else 1 := by
  rcases h with hnone | @⟨prior, n, hprior, hlisted⟩ | ⟨hprior, hfree⟩
  · have hempty := hcoh.findOnLineage?_eq_none_iff.1 hnone
    rw [if_neg]
    rintro ⟨id, hid, -⟩
    rw [hempty] at hid
    cases hid
  · have hmem := hcoh.mem_activeOn_of_findOnLineage? hprior
    rw [if_neg]
    rintro ⟨id, hid, hfree⟩
    obtain rfl := hsole id prior hid hmem
    exact isSnapshotted_eq_false_iff.1 hfree n hlisted
  · have hmem := hcoh.mem_activeOn_of_findOnLineage? hprior
    rw [if_pos ⟨slot, hmem, isSnapshotted_eq_false_iff.2 hfree⟩]
    rfl

/-- **An expression that a modify brings gives its attribute a slot of its
own**, and changes nothing of the others. -/
theorem Coherent.ownSlot_constrain_iff (h : tree.Coherent) (hrec : tree.Recorded)
    (hc : tree.Anchored c) (hon : c.active = true) :
    (tree.constrain true c).OwnSlot anchor ↔ anchor = c.first ∨ tree.OwnSlot anchor := by
  obtain ⟨owner, ho, -⟩ := h.exists_ownerFor? hc
  by_cases hanchor : anchor = c.first
  · subst hanchor
    obtain ⟨slot, owner, htaken⟩ := h.takenOver hc hon
    refine iff_of_true ⟨slot, mem_activeOn.2 ⟨_, htaken.written, rfl, rfl⟩, ?_⟩ (.inl rfl)
    rw [isSnapshotted_constrain]
    exact htaken.placed.isSnapshotted_eq hrec
  · rw [or_iff_right hanchor]
    unfold OwnSlot
    refine exists_congr fun id => ?_
    rw [isSnapshotted_constrain, mem_activeOn, mem_activeOn]
    refine and_congr_left fun _ => exists_congr fun k => ?_
    refine and_congr_left fun hk => h.constraint?_constrain_of_ne hon ho ?_
    rw [hk.2]
    exact hanchor

/-! ## Expressions in a row -/

/-- **A tree that reused every slot it could**, since another one, with the
log of what was accepted on the way. -/
structure Frugal (start : Tree) (log : List Acceptance) (tree : Tree) : Prop where
  size : tree.constraints.size =
    start.constraints.size + ((attributes log).filter fun anchor => ¬start.OwnSlot anchor).card
  own : ∀ anchor, tree.OwnSlot anchor ↔ anchor ∈ attributes log ∨ start.OwnSlot anchor
  single : tree.Single

namespace Frugal

theorem refl (hsingle : start.Single) : start.Frugal [] start where
  size := rfl
  own anchor := by
    rw [or_iff_right]
    exact Finset.notMem_empty anchor
  single := hsingle

/-- Only constraints and snapshot lists count. -/
theorem of_same (h : start.Frugal log tree)
    (hc : ∀ id, other.constraint? id = tree.constraint? id)
    (hsnapshot : ∀ n, other.snapshot n = tree.snapshot n) : start.Frugal log other where
  size := by
    have hsame : other.constraints = tree.constraints := Array.ext_getElem? hc
    rw [hsame]
    exact h.size
  own anchor := (ownSlot_congr hc hsnapshot).trans (h.own anchor)
  single := h.single.of_same hc

/-- **One more expression**: the arena grows if its attribute is new to the
log and had no slot of its own at the start. -/
theorem constrain (h : start.Frugal log tree) (hcoh : tree.Coherent) (hrec : tree.Recorded)
    (ha : tree.Anchored a.constraint) :
    start.Frugal (log ++ [a]) (tree.constrain true a.constraint) where
  size := by
    obtain ⟨slot, owner, htaken⟩ := hcoh.takenOver ha rfl
    have hgrown : (tree.constrain true a.constraint).constraints.size =
        tree.constraints.size + if tree.OwnSlot a.target then 0 else 1 :=
      htaken.placed.size_eq hcoh (h.single a.target)
    have hown := h.own a.target
    rw [hgrown, h.size, attributes_concat, Finset.filter_insert]
    by_cases hstart : start.OwnSlot a.target
    · rw [if_pos (hown.2 (.inr hstart)), if_neg (not_not_intro hstart)]
      rfl
    · rw [if_pos hstart, Nat.add_assoc]
      by_cases hlogged : a.target ∈ attributes log
      · rw [if_pos (hown.2 (.inl hlogged)),
          Finset.insert_eq_of_mem (Finset.mem_filter.2 ⟨hlogged, hstart⟩)]
        rfl
      · have hnew : a.target ∉ (attributes log).filter fun anchor => ¬start.OwnSlot anchor :=
          fun hmem => hlogged (Finset.mem_filter.1 hmem).1
        rw [if_neg (mt hown.1 (not_or.2 ⟨hlogged, hstart⟩)), Finset.card_insert_of_notMem hnew]
  own anchor := by
    rw [hcoh.ownSlot_constrain_iff hrec ha rfl, h.own, attributes_concat, Finset.mem_insert,
      or_assoc]
    rfl
  single := hcoh.single_constrain h.single ha rfl

theorem constrainAll (h : start.Frugal log tree) (hcoh : tree.Coherent) (hrec : tree.Recorded)
    (hanchored : ∀ a ∈ accepted, tree.Anchored a.constraint) :
    start.Frugal (log ++ accepted) (tree.constrainAll true accepted) := by
  induction accepted generalizing tree log with
  | nil =>
    rw [List.append_nil]
    exact h
  | cons a rest ih =>
    have ha := hanchored a List.mem_cons_self
    have hshape : tree.SameShape (tree.constrain true a.constraint) := sameShape_constrain
    rw [List.append_cons]
    refine ih (h.constrain hcoh hrec ha) (hcoh.constrain true ha) (hrec.constrain true _) ?_
    exact fun b hb => hshape.anchored (hanchored b (List.mem_cons_of_mem _ hb))

end Frugal

end Tree

/-! ## Modifies -/

namespace Engine

variable {engine : Engine} {start : Tree} {idx : NodeIndex} {view : ViewChange}
variable {log : List Acceptance}

/-- **A modify that brings no descriptions** reuses every slot it can. -/
theorem Sound.frugal_modify (h : engine.Sound) (hidx : idx < engine.tree.size)
    (hlog : start.Frugal log engine.tree)
    (hplain : ∀ configs, view.constraints ≠ some (.indexed configs)) :
    start.Frugal (log ++ engine.accepted idx true view) (engine.modify idx view).1.tree := by
  have hedited := edited_styled engine idx view
  have hstyled : (engine.styled idx view).Sound := h.of_edited hidx hedited
  have hidx' : idx < (engine.styled idx view).tree.size := hedited.tree.sameShape.size.symm ▸ hidx
  have hfrugal : start.Frugal log (engine.styled idx view).tree := by
    refine hlog.of_same (fun id => ?_) (snapshot_styled engine idx view)
    unfold Tree.constraint?
    rw [constraints_styled]
  have hcontent : start.Frugal (log ++ engine.accepted idx true view)
      (engine.applyContent idx true view).1.tree := by
    rw [applyContent_eq]
    unfold accepted
    generalize engine.styled idx view = styled at hstyled hidx' hfrugal ⊢
    cases hfield : view.constraints with
    | none =>
      rw [List.append_nil]
      exact hfrugal
    | some field =>
      cases field with
      | indexed configs => exact absurd hfield (hplain configs)
      | unsupported value =>
        rw [List.append_nil]
        exact hfrugal
      | expressions entries =>
        simp only [Tree.accepted_eq, Tree.applyConstraints, Tree.collect_applyExpression]
        refine hfrugal.constrainAll hstyled.coherent hstyled.recorded fun a => ?_
        exact Tree.anchored_of_mem_acceptances hstyled.coherent.toRooted hidx'
  -- the frame that may follow leaves constraints and lists alone
  rw [modify_eq]
  cases view.frame with
  | none => exact hcontent
  | some fields =>
    refine hcontent.of_same (Tree.constraint?_applyFrame fields) fun n => ?_
    unfold Tree.snapshot
    rw [Tree.reads_applyFrame (fun _ _ => rfl) fields n]

end Engine

/-- An entry that inserts. -/
def Json.Inserts (entry : Json) : Prop :=
  ∃ change, Change.ofJson? entry = some change ∧ change.operation? = some .insert

namespace Session

variable {session : Session} {start : Tree} {entry : Json} {changes : List Json}
variable {log : List Acceptance}

/-- **What does not insert modifies**, unless it is refused. -/
theorem eq_modify_of_resolve {action : Action} (h : ¬entry.Inserts)
    (haction : session.resolve entry = .ok action) : ∃ idx view, action = .modify idx view := by
  obtain ⟨change, hchange, ⟨hinsert, -⟩ | ⟨-, hmodify⟩⟩ := resolve_ok haction
  · exact absurd ⟨change, hchange, hinsert⟩ h
  · obtain ⟨-, idx, -, -, rfl⟩ := resolveModify_ok hmodify
    exact ⟨idx, change.view, rfl⟩

theorem frugal_apply (h : session.engine.Sound) (hlog : start.Frugal log session.engine.tree)
    (hplain : entry.Plain) (hinserts : ¬entry.Inserts) :
    start.Frugal (log ++ session.acceptedBy entry) (session.apply entry).1.engine.tree := by
  unfold apply acceptedBy
  cases haction : session.resolve entry with
  | error diagnostic =>
    rw [List.append_nil]
    exact hlog
  | ok action =>
    obtain ⟨idx, view, rfl⟩ := eq_modify_of_resolve hinserts haction
    obtain ⟨⟨id, -, hid⟩, change, hchange, rfl⟩ := resolve_modify haction
    exact h.frugal_modify (h.within _ _ hid) hlog (hplain change hchange)

theorem frugal_tweak (h : session.engine.Sound) (hlog : start.Frugal log session.engine.tree)
    (hentries : ∀ entry ∈ changes, entry.Plain ∧ ¬entry.Inserts) :
    start.Frugal (log ++ session.acceptedIn changes) (session.tweak changes).1.engine.tree := by
  induction changes generalizing session log with
  | nil =>
    rw [acceptedIn, List.append_nil]
    exact hlog
  | cons entry rest ih =>
    obtain ⟨hplain, hinserts⟩ := hentries entry List.mem_cons_self
    have hstep := frugal_apply h hlog hplain hinserts
    rw [acceptedIn, ← List.append_assoc]
    exact ih (sound_apply h entry) hstep fun e he => hentries e (List.mem_cons_of_mem _ he)

/-- **The arena grows by attributes, not by expressions.** In a session that
was reached, let no attribute be held twice. Whatever modifies follow, as long
as they bring no descriptions, the arena is longer afterwards by the number of
attributes that some expression was accepted for and that had no slot of their
own. That is at most the number of all attributes that some expression was
accepted for, however often, and wherever they led. -/
theorem arena_grows_by_attributes (h : session.Reached)
    (hsingle : ∀ anchor, (session.engine.tree.activeOn anchor).length ≤ 1)
    (hentries : ∀ entry ∈ changes, entry.Plain ∧ ¬entry.Inserts) :
    let before := session.engine.tree
    let after := (session.tweak changes).1.engine.tree
    let given := attributes (session.acceptedIn changes)
    after.constraints.size =
        before.constraints.size + (given.filter fun anchor => ¬before.OwnSlot anchor).card ∧
      after.constraints.size ≤ before.constraints.size + given.card := by
  intro before after given
  have hstart : before.Frugal [] before :=
    .refl fun anchor => Tree.sole_iff_length_le.2 (hsingle anchor)
  have hafter : before.Frugal (session.acceptedIn changes) after :=
    frugal_tweak h.sound hstart hentries
  refine ⟨hafter.size, ?_⟩
  rw [hafter.size]
  exact Nat.add_le_add_left (Finset.card_filter_le _ _) _

/-- A shelf is inserted with a width, which its list addresses, and given
others after that: a number, the root's width, a text that is none, its own
height. The arena is longer by one, the slot that the first of these took. -/
theorem arena_grows_by_attributes_of_shelf :
    let session := ((initial .standard .none).tweak [shelfInserted]).1
    let changes := [shelfWidened "20", shelfWidened "$(superview)", shelfWidened "wide",
      shelfWidened "$(self).height"]
    let after := (session.tweak changes).1.engine.tree
    session.Reached ∧ (∀ anchor, (session.engine.tree.activeOn anchor).length ≤ 1) ∧
      (∀ entry ∈ changes, entry.Plain ∧ ¬entry.Inserts) ∧
      (session.acceptedIn changes).length = 3 ∧
      after.constraints.size ≤ session.engine.tree.constraints.size + 1 ∧
      after.constraints.size = 2 := by
  intro session changes after
  have hreached : session.Reached := .tweak _ (.initial _ _ _)
  have hsize : session.engine.tree.constraints.size = 1 := by decide +kernel
  have hsingle : ∀ anchor, (session.engine.tree.activeOn anchor).length ≤ 1 := by
    intro anchor
    have hle : (session.engine.tree.activeOn anchor).length ≤
        (List.range session.engine.tree.constraints.size).length := List.length_filter_le _ _
    rw [hsize] at hle
    exact hle
  have hview : ∀ text change, Change.ofJson? (shelfWidened text) = some change →
      change.operation? = some .modify ∧
        change.view.constraints = some (.expressions [("width", text)]) := by
    intro text change hchange
    cases hchange
    exact ⟨rfl, rfl⟩
  have hplain : ∀ text, (shelfWidened text).Plain ∧ ¬(shelfWidened text).Inserts := by
    intro text
    refine ⟨fun change hchange configs hindexed => ?_, ?_⟩
    · rw [(hview text change hchange).2] at hindexed
      cases hindexed
    · rintro ⟨change, hchange, hinsert⟩
      rw [(hview text change hchange).1] at hinsert
      cases hinsert
  have hentries : ∀ entry ∈ changes, entry.Plain ∧ ¬entry.Inserts :=
    List.forall_mem_cons.2 ⟨hplain _, List.forall_mem_cons.2 ⟨hplain _,
      List.forall_mem_cons.2 ⟨hplain _, List.forall_mem_cons.2 ⟨hplain _, nofun⟩⟩⟩⟩
  have hgiven : (attributes (session.acceptedIn changes)).card = 1 := by decide +kernel
  obtain ⟨-, hgrowth⟩ := arena_grows_by_attributes hreached hsingle hentries
  rw [hgiven] at hgrowth
  exact ⟨hreached, hsingle, hentries, by decide +kernel, hgrowth, by decide +kernel⟩

end Session

end LiveLayout
