import LiveLayout.Proofs.Operations
import Mathlib.Logic.Relation
/-!
# Installation

Whether a constraint is in force is recorded three times: by its own flag,
by its owner, and by the owner's installed list. `Coherent` is the
invariant that keeps the three in step, together with what it rests on: the
tree is grown from its root and constraints relate nodes of it. Every
operation keeps it (`Step.coherent`), and so it holds of every tree there is
(`installation_of_reached`).
-/

namespace LiveLayout

/-- **A node in the place of another**: only what it looks like may differ. -/
structure Node.SamePlace (changed node : Node) : Prop where
  id : changed.id = node.id
  installed : changed.installed = node.installed
  snapshot : changed.snapshot = node.snapshot
  parent : changed.parent = node.parent
  children : changed.children = node.children

namespace Tree

variable {tree other : Tree} {parent idx n owner : NodeIndex} {id j : ConstraintId}
variable {c k : Constraint} {node : Node} {position : Option Nat}

/-- The nodes a constraint relates are in the tree. -/
structure Anchored (tree : Tree) (c : Constraint) : Prop where
  first : c.first.node < tree.size
  second : ∀ s, c.second = some s → s.node < tree.size

/-- **The invariant of the arena.** -/
structure Coherent (tree : Tree) : Prop extends Rooted tree where
  anchored : ∀ id c, tree.constraint? id = some c → tree.Anchored c
  listed : ∀ id n, id ∈ tree.installed n ↔
    ∃ c, tree.constraint? id = some c ∧ c.active = true ∧ c.owner = some n
  nodup : ∀ n, (tree.installed n).Nodup
  owned : ∀ id c, tree.constraint? id = some c → c.active = c.owner.isSome
  home : ∀ id c n, tree.constraint? id = some c → c.owner = some n →
    tree.ownerFor? c.first c.second = some n

/-! ## A new node -/

theorem parent?_insertChild (n : NodeIndex) :
    (tree.insertChild parent node position).parent? n =
      if n = tree.size then some parent else tree.parent? n := by
  rw [insertChild_eq, (sameShape_modifyNode (adopt _ _) (fun _ => rfl) fun _ => rfl).parent]
  unfold parent?
  rw [node?_extend]
  split <;> rfl

theorem installed_insertChild (hbare : node.installed = []) :
    (tree.insertChild parent node position).installed n = tree.installed n := by
  rw [insertChild_eq, installed_modifyNode (adopt _ _) fun _ => rfl]
  unfold installed
  rw [node?_extend]
  split
  · rename_i heq
    subst heq
    rw [node?_size]
    exact hbare
  · rfl

theorem snapshot_insertChild (hbare : node.snapshot = []) :
    (tree.insertChild parent node position).snapshot n = tree.snapshot n := by
  rw [insertChild_eq, snapshot_modifyNode (adopt _ _) fun _ => rfl]
  unfold snapshot
  rw [node?_extend]
  split
  · rename_i heq
    subst heq
    rw [node?_size]
    exact hbare
  · rfl

theorem grows_insertChild : tree.Grows (tree.insertChild parent node position) where
  size := by
    rw [size_insertChild]
    exact Nat.le_succ _
  parent idx hidx := by rw [parent?_insertChild, if_neg (Nat.ne_of_lt hidx)]

/-- Under a parent that is there, the tree still grows from its root. -/
theorem Rooted.insertChild (h : tree.Rooted) (hp : parent < tree.size) :
    (tree.insertChild parent node position).Rooted where
  nonempty := by
    rw [size_insertChild]
    exact Nat.succ_pos _
  root := by
    have hne : Tree.root ≠ tree.size := Nat.ne_of_lt h.nonempty
    rw [parent?_insertChild, if_neg hne]
    exact h.root
  parent idx hidx hne := by
    rw [size_insertChild] at hidx
    rw [parent?_insertChild]
    split
    · rename_i heq
      exact ⟨parent, rfl, heq ▸ hp⟩
    · rename_i hold
      exact h.parent idx (Nat.lt_of_le_of_ne (Nat.le_of_lt_succ hidx) hold) hne

/-! ## A node changed where it stands -/

section Restyle

variable {changed : Node}

theorem node?_restyle (hn : tree.node? idx = some node) (n : NodeIndex) :
    (tree.modifyNode idx fun _ => changed).node? n =
      if idx = n then some changed else tree.node? n := by
  rw [node?_modifyNode]
  split
  · rename_i heq
    subst heq
    rw [hn]
    rfl
  · rfl

/-- What the changed node shares with the old one is read as before. -/
theorem map_node?_restyle {β : Type} (view : Node → β) (hn : tree.node? idx = some node)
    (h : view changed = view node) :
    ((tree.modifyNode idx fun _ => changed).node? n).map view = (tree.node? n).map view := by
  rw [node?_restyle hn]
  split
  · rename_i heq
    subst heq
    rw [hn, Option.map_some, Option.map_some, h]
  · rfl

theorem sameShape_restyle (hn : tree.node? idx = some node) (hkeep : changed.SamePlace node) :
    tree.SameShape (tree.modifyNode idx fun _ => changed) where
  size := tree.size_modifyNode idx _
  parent n := by
    unfold parent?
    rw [node?_restyle hn]
    split
    · rename_i heq
      subst heq
      rw [hn]
      exact hkeep.parent
    · rfl
  id n := map_node?_restyle (·.id) hn hkeep.id

theorem installed_restyle (hn : tree.node? idx = some node) (hkeep : changed.SamePlace node) :
    (tree.modifyNode idx fun _ => changed).installed n = tree.installed n := by
  simp only [installed, map_node?_restyle (·.installed) hn hkeep.installed]

theorem snapshot_restyle (hn : tree.node? idx = some node) (hkeep : changed.SamePlace node) :
    (tree.modifyNode idx fun _ => changed).snapshot n = tree.snapshot n := by
  simp only [snapshot, map_node?_restyle (·.snapshot) hn hkeep.snapshot]

end Restyle

/-! ## Owners -/

/-- **There is always a node to install a constraint on**: nodes of one tree
have a common ancestor. -/
theorem Rooted.exists_ownerFor? (h : tree.Rooted) (hc : tree.Anchored c) :
    ∃ owner, tree.ownerFor? c.first c.second = some owner ∧ owner < tree.size := by
  cases hs : c.second with
  | some s =>
    obtain ⟨owner, ho⟩ := h.exists_commonAncestor? hc.first (hc.second s hs)
    exact ⟨owner, ho, h.commonAncestor?_lt hc.first ho⟩
  | none =>
    obtain ⟨node, hnode⟩ := node?_of_lt hc.first
    refine ⟨c.first.node, ?_, hc.first⟩
    simp only [ownerFor?, hnode, Option.map_some]

theorem SameShape.anchored (h : tree.SameShape other) (hc : tree.Anchored c) : other.Anchored c :=
  ⟨h.size ▸ hc.first, fun s hs => h.size ▸ hc.second s hs⟩

namespace Coherent

/-- A constraint that is off is on no list. -/
theorem not_mem_installed (h : tree.Coherent) (hc : tree.constraint? id = some c)
    (hoff : c.active = false) (n : NodeIndex) : id ∉ tree.installed n := by
  intro hmem
  obtain ⟨c', hc', hon, -⟩ := (h.listed id n).1 hmem
  rw [hc] at hc'
  cases hc'
  rw [hoff] at hon
  cases hon

/-- A constraint that is on is on one list. -/
theorem exists_owner (h : tree.Coherent) (hc : tree.constraint? id = some c)
    (hon : c.active = true) : ∃ n, c.owner = some n ∧ id ∈ tree.installed n := by
  have hsome := h.owned id c hc
  rw [hon] at hsome
  obtain ⟨n, hn⟩ := Option.isSome_iff_exists.1 hsome.symm
  exact ⟨n, hn, (h.listed id n).2 ⟨c, hc, hon, hn⟩⟩

/-- **A constraint is on the same lists** of any tree that has it as it is
here. -/
theorem mem_installed_iff (h : tree.Coherent) (h' : other.Coherent)
    (hsame : other.constraint? id = tree.constraint? id) (n : NodeIndex) :
    id ∈ other.installed n ↔ id ∈ tree.installed n := by
  rw [h.listed, h'.listed, hsame]

/-- The invariant only looks at the shape, the lists and the constraints. -/
theorem of_same (h : tree.Coherent) (hshape : tree.SameShape other)
    (hi : ∀ n, other.installed n = tree.installed n)
    (hc : ∀ id, other.constraint? id = tree.constraint? id) : other.Coherent where
  toRooted := hshape.rooted h.toRooted
  anchored id c hk := hshape.anchored (h.anchored id c (hc id ▸ hk))
  listed id n := by rw [hi, hc, h.listed]
  nodup n := hi n ▸ h.nodup n
  owned id c hk := h.owned id c (hc id ▸ hk)
  home id c n hk ho := by
    rw [hshape.ownerFor?_eq]
    exact h.home id c n (hc id ▸ hk) ho

/-- **One position of the arena rewritten**, and its listing with it. What is
there now belongs where it is listed; the others are as they were. -/
theorem rewrite (h : tree.Coherent) (id : ConstraintId) (hshape : tree.SameShape other)
    (hk : tree.Anchored k) (hat : other.constraint? id = some k)
    (hother : ∀ j, j ≠ id → other.constraint? j = tree.constraint? j)
    (howned : k.active = k.owner.isSome)
    (hhome : ∀ n, k.owner = some n → tree.ownerFor? k.first k.second = some n)
    (hself : ∀ n, id ∈ other.installed n ↔ k.owner = some n)
    (hlists : ∀ j n, j ≠ id → (j ∈ other.installed n ↔ j ∈ tree.installed n))
    (hnodup : ∀ n, (other.installed n).Nodup) : other.Coherent where
  toRooted := hshape.rooted h.toRooted
  anchored j c hc := by
    by_cases hj : j = id
    · subst hj
      cases hat.symm.trans hc
      exact hshape.anchored hk
    · exact hshape.anchored (h.anchored j c (hother j hj ▸ hc))
  listed j n := by
    by_cases hj : j = id
    · subst hj
      rw [hself]
      constructor
      · intro hn
        have hon : k.active = true := by rw [howned, hn, Option.isSome_some]
        exact ⟨k, hat, hon, hn⟩
      · rintro ⟨c, hc, -, hn⟩
        cases hat.symm.trans hc
        exact hn
    · rw [hlists j n hj, hother j hj]
      exact h.listed j n
  nodup := hnodup
  owned j c hc := by
    by_cases hj : j = id
    · subst hj
      cases hat.symm.trans hc
      exact howned
    · exact h.owned j c (hother j hj ▸ hc)
  home j c n hc hn := by
    rw [hshape.ownerFor?_eq]
    by_cases hj : j = id
    · subst hj
      cases hat.symm.trans hc
      exact hhome n hn
    · exact h.home j c n (hother j hj ▸ hc) hn

/-! ## Switching -/

theorem install (h : tree.Coherent) (hc : tree.constraint? id = some c) (hoff : c.active = false)
    (ho : tree.ownerFor? c.first c.second = some owner) (hlt : owner < tree.size) :
    (tree.install id owner).Coherent := by
  have hfree := h.not_mem_installed hc hoff
  have hat : (tree.install id owner).constraint? id =
      some { c with active := true, owner := some owner } := by
    rw [constraint?_install, if_pos rfl, hc]
    rfl
  refine h.rewrite id sameShape_install ?_ hat ?_ rfl ?_ ?_ ?_ ?_
  · exact ⟨(h.anchored id c hc).first, (h.anchored id c hc).second⟩
  · intro j hj
    rw [constraint?_install, if_neg hj.symm]
  · intro n hn
    exact ho.trans hn
  · intro n
    rw [installed_install hlt]
    split
    · rename_i heq
      subst heq
      exact iff_of_true (List.mem_append_right _ List.mem_cons_self) rfl
    · rename_i hne
      exact iff_of_false (hfree n) fun hn => hne (Option.some.inj hn)
  · intro j n hj
    rw [installed_install hlt]
    split
    · simp only [List.mem_append, List.mem_singleton, hj, or_false]
    · exact Iff.rfl
  · intro n
    rw [installed_install hlt]
    split
    · refine List.nodup_append.2 ⟨h.nodup n, List.pairwise_singleton _ id, ?_⟩
      rintro a ha b hb rfl
      rw [List.mem_singleton] at hb
      subst hb
      exact hfree n ha
    · exact h.nodup n

theorem uninstall (h : tree.Coherent) (hc : tree.constraint? id = some c) :
    (tree.uninstall id c.owner).Coherent := by
  have hat : (tree.uninstall id c.owner).constraint? id = some c.idle := by
    rw [constraint?_uninstall, if_pos rfl, hc]
    rfl
  refine h.rewrite id sameShape_uninstall ?_ hat ?_ rfl ?_ ?_ ?_ ?_
  · exact ⟨(h.anchored id c hc).first, (h.anchored id c hc).second⟩
  · intro j hj
    rw [constraint?_uninstall, if_neg hj.symm]
  · rintro n ⟨⟩
  · intro n
    refine iff_of_false ?_ fun hn => nomatch hn
    rw [installed_uninstall]
    split
    · simp only [List.mem_filter, bne_self_eq_false, Bool.false_eq_true, and_false,
        not_false_eq_true]
    · -- it is on no list but its owner's
      rename_i hne
      intro hmem
      obtain ⟨c', hc', -, hn⟩ := (h.listed id n).1 hmem
      cases hc.symm.trans hc'
      exact hne hn
  · intro j n hj
    rw [installed_uninstall]
    split
    · simp only [List.mem_filter, bne_iff_ne, ne_eq, hj, not_false_eq_true, and_true]
    · exact Iff.rfl
  · intro n
    rw [installed_uninstall]
    split
    · exact (h.nodup n).sublist List.filter_sublist
    · exact h.nodup n

/-- **Switching keeps the invariant**, whatever comes of it. -/
theorem switch (h : tree.Coherent) (id : ConstraintId) (active : Bool) :
    (tree.switch id active).Coherent := by
  have hcases := tree.switch_cases id active
  generalize tree.switch id active = switched at hcases ⊢
  cases hcases with
  | kept => exact h
  | on _ hc hoff ho =>
    obtain ⟨owner, ho', hlt⟩ := h.exists_ownerFor? (h.anchored _ _ hc)
    rw [ho] at ho'
    cases ho'
    exact h.install hc hoff ho hlt
  | off _ hc _ => exact h.uninstall hc

/-! ## Storing -/

/-- **A constraint put where none is in force**, not installed, disturbs
nothing. -/
theorem put (h : tree.Coherent) (id : ConstraintId) (hshape : tree.SameShape other)
    (hi : ∀ n, other.installed n = tree.installed n) (hk : tree.Anchored k)
    (hat : other.constraint? id = some k.idle)
    (hother : ∀ j, j ≠ id → other.constraint? j = tree.constraint? j)
    (hfree : ∀ c, tree.constraint? id = some c → c.active = false) : other.Coherent := by
  have hoff : ∀ n, id ∉ tree.installed n := by
    intro n hmem
    obtain ⟨c, hc, hon, -⟩ := (h.listed id n).1 hmem
    rw [hfree c hc] at hon
    cases hon
  have hidle : tree.Anchored k.idle := ⟨hk.first, hk.second⟩
  refine h.rewrite id hshape hidle hat hother rfl ?_ ?_ ?_ ?_
  · rintro n ⟨⟩
  · intro n
    rw [hi]
    exact iff_of_false (hoff n) fun hn => nomatch hn
  · intro j n _
    rw [hi]
  · intro n
    rw [hi]
    exact h.nodup n

theorem store (h : tree.Coherent) (hc : tree.Anchored c) : (tree.store c).Coherent := by
  refine h.put tree.nextConstraint sameShape_store (fun _ => rfl) hc ?_ ?_ ?_
  · rw [constraint?_store, if_pos rfl]
  · intro j hj
    rw [constraint?_store, if_neg hj]
  · intro k hk
    exact absurd (lt_of_constraint? hk) (Nat.lt_irrefl _)

theorem overwrite (h : tree.Coherent) (hc : tree.Anchored c) (hk : tree.constraint? id = some k)
    (hoff : k.active = false) : (tree.overwrite id c).Coherent := by
  refine h.put id sameShape_overwrite (fun _ => rfl) hc ?_ ?_ ?_
  · rw [constraint?_overwrite, if_pos rfl, hk]
    rfl
  · intro j hj
    rw [constraint?_overwrite, if_neg fun he => hj he.symm]
  · intro k' hk'
    rw [hk] at hk'
    cases hk'
    exact hoff

/-- Changing what is not read here: the constant and the priority. -/
theorem amend (h : tree.Coherent) (constant : Binary64) (priority : Binary32) :
    (tree.modifyConstraint id fun c => { c with constant, priority }).Coherent := by
  have hget : ∀ j k, (tree.modifyConstraint id fun c => { c with constant, priority }).constraint? j
      = some k → ∃ k', tree.constraint? j = some k' ∧ k'.first = k.first ∧ k'.second = k.second ∧
        k'.active = k.active ∧ k'.owner = k.owner := by
    intro j k hk
    rw [constraint?_modifyConstraint] at hk
    split at hk
    · obtain ⟨k', hk', rfl⟩ := Option.map_eq_some_iff.1 hk
      exact ⟨k', hk', rfl, rfl, rfl, rfl⟩
    · exact ⟨k, hk, rfl, rfl, rfl, rfl⟩
  have hshape : tree.SameShape (tree.modifyConstraint id fun c => { c with constant, priority }) :=
    sameShape_modifyConstraint
  refine { toRooted := hshape.rooted h.toRooted, anchored := ?_, listed := ?_, nodup := ?_,
           owned := ?_, home := ?_ }
  · intro j k hk
    obtain ⟨k', hk', hf, hs, -, -⟩ := hget j k hk
    have ha := h.anchored j k' hk'
    exact hshape.anchored ⟨hf ▸ ha.first, hs ▸ ha.second⟩
  · intro j n
    rw [installed_modifyConstraint, h.listed, constraint?_modifyConstraint]
    split
    · cases tree.constraint? j <;> simp
    · exact Iff.rfl
  · exact h.nodup
  · intro j k hk
    obtain ⟨k', hk', -, -, ha, ho⟩ := hget j k hk
    rw [← ha, ← ho]
    exact h.owned j k' hk'
  · intro j k n hk hn
    obtain ⟨k', hk', hf, hs, -, ho⟩ := hget j k hk
    rw [hshape.ownerFor?_eq, ← hf, ← hs]
    exact h.home j k' n hk' (ho.trans hn)

/-! ## The operations -/

theorem addConstraint (h : tree.Coherent) (hc : tree.Anchored c) :
    (tree.addConstraint c).Coherent := by
  rw [addConstraint_eq]
  split
  · exact (h.store hc).switch _ _
  · exact h.store hc

/-- **A replacement keeps the invariant**: what it is written over was
switched off before. -/
theorem replaceConstraint (h : tree.Coherent) (prior : ConstraintId) (hc : tree.Anchored c) :
    (tree.replaceConstraint prior c).1.Coherent := by
  have hoff := h.switch prior false
  have hc' : (tree.switch prior false).Anchored c := (sameShape_switch false).anchored hc
  rw [replaceConstraint_eq]
  split
  · exact hoff.addConstraint hc'
  · rename_i hcond
    have hin : prior < (tree.switch prior false).constraints.size := by
      rw [not_or] at hcond
      exact Nat.lt_of_not_le hcond.2
    obtain ⟨k, hk⟩ := constraint?_of_lt hin
    have hover := hoff.overwrite hc' hk (Switched.off_of_get (tree.switch_cases prior false) hk)
    split
    · exact hover.switch _ _
    · exact hover

theorem updateConstraint (h : tree.Coherent) (id : ConstraintId) (constant : Binary64)
    (active : Bool) (priority : Binary32) :
    (tree.updateConstraint id constant active priority).Coherent :=
  (h.amend constant priority).switch id active

theorem captureSnapshot (h : tree.Coherent) (idx : NodeIndex) :
    (tree.captureSnapshot idx).Coherent :=
  h.of_same sameShape_captureSnapshot (fun _ => installed_captureSnapshot) fun _ => rfl

theorem pushSnapshot (h : tree.Coherent) (idx : NodeIndex) (id : ConstraintId) :
    (tree.pushSnapshot idx id).Coherent :=
  h.of_same sameShape_pushSnapshot (fun _ => installed_pushSnapshot) fun _ => rfl

/-- **A new node keeps the invariant**: it moves no nearest common
ancestor. -/
theorem insertChild (h : tree.Coherent) (hp : parent < tree.size) (hbare : node.installed = []) :
    (tree.insertChild parent node position).Coherent where
  toRooted := h.toRooted.insertChild hp
  anchored id c hc := by
    have ha := h.anchored id c hc
    have hle : tree.size ≤ (tree.insertChild parent node position).size := grows_insertChild.size
    exact ⟨Nat.lt_of_lt_of_le ha.first hle, fun s hs => Nat.lt_of_lt_of_le (ha.second s hs) hle⟩
  listed id n := by
    rw [installed_insertChild hbare]
    exact h.listed id n
  nodup n := by
    rw [installed_insertChild hbare]
    exact h.nodup n
  owned id c hc := h.owned id c hc
  home id c n hc hn := by
    have ha := h.anchored id c hc
    rw [grows_insertChild.ownerFor?_eq h.toRooted ha.first ha.second]
    exact h.home id c n hc hn

/-- **A node changed where it stands** keeps the invariant. -/
theorem restyle (h : tree.Coherent) {changed : Node} (hn : tree.node? idx = some node)
    (hkeep : changed.SamePlace node) : (tree.modifyNode idx fun _ => changed).Coherent :=
  h.of_same (sameShape_restyle hn hkeep) (fun _ => installed_restyle hn hkeep) fun _ => rfl

end Coherent

/-! ## All that can happen to a tree -/

/-- **One operation on a tree.** New nodes have nothing installed on them and
go under a node that is there, and new constraints relate nodes that are
there; everything else may be asked of any position, good or not. -/
inductive Step (tree : Tree) : Tree → Prop
  | insertChild {parent : NodeIndex} {node : Node} (position : Option Nat) :
      parent < tree.size → node.installed = [] → Step tree (tree.insertChild parent node position)
  | restyle {idx : NodeIndex} {node changed : Node} :
      tree.node? idx = some node → changed.SamePlace node →
      Step tree (tree.modifyNode idx fun _ => changed)
  | addConstraint {c : Constraint} : tree.Anchored c → Step tree (tree.addConstraint c)
  | replaceConstraint (prior : ConstraintId) {c : Constraint} :
      tree.Anchored c → Step tree (tree.replaceConstraint prior c).1
  | setActive (id : ConstraintId) (active : Bool) : Step tree (tree.setActive id active).1
  | updateConstraint (id : ConstraintId) (constant : Binary64) (active : Bool)
      (priority : Binary32) : Step tree (tree.updateConstraint id constant active priority)
  | captureSnapshot (idx : NodeIndex) : Step tree (tree.captureSnapshot idx)
  | pushSnapshot (idx : NodeIndex) (id : ConstraintId) : Step tree (tree.pushSnapshot idx id)

/-- A tree made from the initial one by operations in any order. -/
def Reached (tree : Tree) : Prop := Relation.ReflTransGen Step initial tree

/-- The first tree has no constraints to keep. -/
theorem coherent_initial : initial.Coherent where
  nonempty := Nat.zero_lt_one
  root := rfl
  parent idx hidx hne := absurd (Nat.lt_one_iff.1 hidx) hne
  anchored id c hc := by cases hc
  listed id n := by
    have hempty : initial.installed n = [] := by
      cases n <;> rfl
    rw [hempty]
    constructor
    · intro hmem
      cases hmem
    · rintro ⟨c, hc, -⟩
      cases hc
  nodup n := by
    have hempty : initial.installed n = [] := by
      cases n <;> rfl
    rw [hempty]
    exact List.nodup_nil
  owned id c hc := by cases hc
  home id c n hc := by cases hc

/-- **Every operation keeps the invariant.** -/
theorem Step.coherent (s : Step tree other) (h : tree.Coherent) : other.Coherent := by
  cases s with
  | insertChild _ hp hbare => exact h.insertChild hp hbare
  | restyle hn hkeep => exact h.restyle hn hkeep
  | addConstraint hc => exact h.addConstraint hc
  | replaceConstraint prior hc => exact h.replaceConstraint prior hc
  | setActive id active => exact h.switch id active
  | updateConstraint id constant active priority =>
    exact h.updateConstraint id constant active priority
  | captureSnapshot idx => exact h.captureSnapshot idx
  | pushSnapshot idx id => exact h.pushSnapshot idx id

/-- So it holds of every tree made by them. -/
theorem Reached.coherent (h : tree.Reached) : tree.Coherent := by
  induction h with
  | refl => exact coherent_initial
  | tail _ s ih => exact s.coherent ih

/-! ## Installation -/

/-- **Where a constraint belongs**: the nearest common ancestor of the nodes
it relates, or the one node it is about. -/
def Belongs (tree : Tree) (c : Constraint) (n : NodeIndex) : Prop :=
  match c.second with
  | some second => tree.NearestCommon c.first.node second.node n
  | none => n = c.first.node

/-- **The records of what is in force agree.** -/
structure Installation (tree : Tree) : Prop where
  /-- A constraint is on a node's list if and only if it is on and the node
  owns it. -/
  listed : ∀ id n, id ∈ tree.installed n ↔
    ∃ c, tree.constraint? id = some c ∧ c.active = true ∧ c.owner = some n
  /-- No list has a constraint twice. -/
  nodup : ∀ n, (tree.installed n).Nodup
  /-- What is on a list is in the arena. -/
  stored : ∀ id n, id ∈ tree.installed n → id < tree.constraints.size
  /-- A constraint is on if and only if it has an owner. -/
  owned : ∀ id c, tree.constraint? id = some c → (c.active = true ↔ c.owner.isSome = true)
  /-- The owner of a constraint that is on is where it belongs now. -/
  belongs : ∀ id c n, tree.constraint? id = some c → c.active = true → c.owner = some n →
    tree.Belongs c n

/-- The owner the tree computes is where the constraint belongs. -/
theorem Rooted.belongs_of_ownerFor? (h : tree.Rooted)
    (ho : tree.ownerFor? c.first c.second = some n) : tree.Belongs c n := by
  unfold Belongs
  cases hs : c.second with
  | some second =>
    rw [hs] at ho
    exact h.nearestCommon ho
  | none =>
    rw [hs] at ho
    obtain ⟨-, -, heq⟩ := Option.map_eq_some_iff.1 ho
    exact heq.symm

/-- **The installation invariant.** Whatever is done to a tree, its active
flags, owners and installed lists agree, and every constraint in force is
installed on the nearest common ancestor of its nodes in the tree as it now
is. -/
theorem installation_of_reached (h : tree.Reached) : tree.Installation where
  listed := h.coherent.listed
  nodup := h.coherent.nodup
  stored id n hmem := by
    obtain ⟨c, hc, -, -⟩ := (h.coherent.listed id n).1 hmem
    exact lt_of_constraint? hc
  owned id c hc := by rw [h.coherent.owned id c hc]
  belongs id c n hc _ hn :=
    h.coherent.toRooted.belongs_of_ownerFor? (h.coherent.home id c n hc hn)

/-- Two siblings, the second placed below the first. -/
def siblings : Tree :=
  ((initial.insertChild root { id := "a", kind := .view } none).insertChild root
    { id := "b", kind := .view } none).addConstraint
      { first := ⟨2, .top⟩, second := some ⟨1, .bottom⟩, active := true }

/-- The constraint between two siblings is recorded with their parent and
then replaced: the replacement is installed beside it, alone. -/
theorem installation_of_siblings :
    let replaced := ((siblings.captureSnapshot root).replaceConstraint 0
      { first := ⟨2, .top⟩, second := some ⟨0, .top⟩, active := true }).1
    replaced.Reached ∧ replaced.installed root = [1] ∧ replaced.Installation := by
  intro replaced
  have hsiblings : siblings.Reached := by
    have hfirst : Step initial (initial.insertChild root { id := "a", kind := .view } none) :=
      .insertChild none Nat.zero_lt_one rfl
    refine .tail (.tail (.tail .refl hfirst) (.insertChild none ?_ rfl))
      (.addConstraint ⟨by decide, ?_⟩)
    · decide
    · rintro s ⟨⟩
      decide
  have hreached : replaced.Reached := by
    refine .tail (.tail hsiblings (.captureSnapshot root)) (.replaceConstraint 0 ⟨?_, ?_⟩)
    · decide +kernel
    · rintro s ⟨⟩
      decide +kernel
  exact ⟨hreached, by decide +kernel, installation_of_reached hreached⟩

end Tree

end LiveLayout
