import LiveLayout.Proofs.Addressing
import LiveLayout.Proofs.Baselines
import LiveLayout.Proofs.BareInserts
import LiveLayout.Proofs.DeferredImages
/-!
# The footprint of an entry

An entry reaches out of the node it is about on purpose: it edits installed
lists of ancestors, takes over places of the arena, and updates constraints
between children of the node. `Confined` bounds how far that goes. What
carries the bound is that a constraint an entry can get at either starts at
the node or is addressed by its list, so that it relates the node and its
children (`Domestic`), and is installed next to the node for it
(`Rooted.ancestor_of_ownerFor?`, `Rooted.near_of_ownerFor?`). Every edit is
confined, and so is an entry (`entry_touches_only_its_node`).
-/

namespace LiveLayout

namespace Node

/-- **A node but for its installed list.** -/
def unlisted (node : Node) : Node := { node with installed := [] }

theorem besideList_unlisted : BesideList unlisted := fun _ _ => rfl

end Node

namespace Tree

variable {tree other edited last : Tree} {registry : Registry} {idx parent n m owner : NodeIndex}
variable {id : ConstraintId} {c k : Constraint} {node : Node} {position : Option Nat}
variable {near : NodeIndex → Prop} {active : Bool}

/-! ## Parents and children -/

/-- **Children know their parents.** -/
def Filed (tree : Tree) : Prop := ∀ n m, m ∈ tree.children n → tree.parent? m = some n

theorem filed_initial : initial.Filed := by
  intro n m hm
  have hnone : initial.children n = [] := by cases n <;> rfl
  rw [hnone] at hm
  cases hm

theorem Edits.children_eq (e : Edits registry idx tree edited) (n : NodeIndex) :
    edited.children n = tree.children n := by
  induction e with
  | refl => rfl
  | tail _ e ih => exact (e.children_eq n).trans ih

theorem Filed.edits (h : tree.Filed) (e : Edits registry idx tree edited) : edited.Filed := by
  intro n m hm
  rw [e.sameShape.parent]
  exact h n m (e.children_eq n ▸ hm)

/-- A new node is a child of its parent alone. -/
theorem Filed.insertChild (h : tree.Filed) (hp : parent < tree.size) (hnode : node.children = []) :
    (tree.insertChild parent node position).Filed := by
  have hold : ∀ n m, m ∈ tree.children n →
      (tree.insertChild parent node position).parent? m = some n := by
    intro n m hm
    have hparent := h n m hm
    rw [parent?_insertChild, if_neg (Nat.ne_of_lt (lt_size_of_parent? hparent))]
    exact hparent
  intro n m hm
  rw [children_insertChild hp hnode] at hm
  split at hm
  · rename_i heq
    subst heq
    rcases List.eq_or_mem_of_mem_insertIdx hm with rfl | hm
    · rw [parent?_insertChild, if_pos rfl]
    · exact hold n m hm
  · exact hold n m hm

theorem Filed.captureSnapshot (h : tree.Filed) : (tree.captureSnapshot idx).Filed := by
  intro n m hm
  rw [(reads_captureSnapshot beside_children).children_eq] at hm
  rw [sameShape_captureSnapshot.parent]
  exact h n m hm

/-! ## Next to a node -/

/-- **Next to a node**: the node itself, its ancestors and its children. -/
def Near (tree : Tree) (idx n : NodeIndex) : Prop :=
  tree.Ancestor n idx ∨ n ∈ tree.children idx

/-- What starts at a node is installed on an ancestor of it. -/
theorem Rooted.ancestor_of_ownerFor? (h : tree.Rooted) (hfirst : c.first.node = idx)
    (ho : tree.ownerFor? c.first c.second = some n) : tree.Ancestor n idx := by
  have hbelongs := h.belongs_of_ownerFor? ho
  subst hfirst
  unfold Belongs at hbelongs
  split at hbelongs
  · exact hbelongs.left
  · subst hbelongs
    exact .self

/-- **What relates a node and its children is installed next to it**: an
ancestor of a child is the child or an ancestor of the node. -/
theorem Rooted.near_of_ownerFor? (h : tree.Rooted) (hfiled : tree.Filed)
    (hlocal : tree.LocalTo idx c) (ho : tree.ownerFor? c.first c.second = some n) :
    tree.Near idx n := by
  have habove := h.ancestor_of_ownerFor? rfl ho
  rcases hlocal.first with hself | hchild
  · exact .inl (hself ▸ habove)
  · have hparent := hfiled idx _ hchild
    generalize c.first.node = child at habove hchild hparent
    cases habove with
    | self => exact .inr hchild
    | up hp habove =>
      cases hp.symm.trans hparent
      exact .inl habove

/-- The owner of a constraint is where it is installed. -/
theorem Coherent.ownerFor?_of_mem (h : tree.Coherent) (hid : id ∈ tree.installed n)
    (hc : tree.constraint? id = some c) : tree.ownerFor? c.first c.second = some n := by
  obtain ⟨k, hk, -, howner⟩ := (h.listed id n).1 hid
  cases hk.symm.trans hc
  exact h.home id c n hc howner

/-! ## What an edit leaves alone -/

/-- **An edit of a node that touches nothing else.** Other nodes are the same
but for their installed lists, and these are the same except next to the
node; a constraint that neither starts at the node nor is on its list is the
same; and what comes onto the list is new. -/
structure Confined (near : NodeIndex → Prop) (idx : NodeIndex) (tree edited : Tree) : Prop where
  nodes : ∀ n, n ≠ idx →
    (edited.node? n).map Node.unlisted = (tree.node? n).map Node.unlisted
  installed : ∀ n, ¬near n → edited.installed n = tree.installed n
  constraint? : ∀ id c, tree.constraint? id = some c → c.first.node ≠ idx →
    id ∉ tree.snapshot idx → edited.constraint? id = some c
  addresses : ∀ id, id < tree.constraints.size → id ∈ edited.snapshot idx → id ∈ tree.snapshot idx

namespace Confined

theorem refl (tree : Tree) : Confined near idx tree tree where
  nodes _ _ := rfl
  installed _ _ := rfl
  constraint? _ _ hc _ _ := hc
  addresses _ _ hid := hid

theorem trans (h : Confined near idx tree other) (h' : Confined near idx other last)
    (hsize : tree.constraints.size ≤ other.constraints.size) : Confined near idx tree last where
  nodes n hn := (h'.nodes n hn).trans (h.nodes n hn)
  installed n hn := (h'.installed n hn).trans (h.installed n hn)
  constraint? id c hc hfirst hid := by
    have hother : id ∉ other.snapshot idx := fun hmem =>
      hid (h.addresses id (lt_of_constraint? hc) hmem)
    exact h'.constraint? id c (h.constraint? id c hc hfirst hid) hfirst hother
  addresses id hlt hid := h.addresses id hlt (h'.addresses id (Nat.lt_of_lt_of_le hlt hsize) hid)

theorem mono {near' : NodeIndex → Prop} (h : Confined near idx tree other)
    (hnear : ∀ n, near n → near' n) : Confined near' idx tree other :=
  { h with installed := fun n hn => h.installed n fun hin => hn (hnear n hin) }

end Confined

/-- The arena does not shrink. -/
theorem Edit.le_size_constraints (e : Edit registry idx tree edited) :
    tree.constraints.size ≤ edited.constraints.size := by
  cases e with
  | style => exact Nat.le_refl _
  | express => exact le_size_constraints_constrain
  | update => exact Nat.le_of_eq size_constraints_updateConstraint.symm
  | append =>
    show tree.constraints.size ≤ (tree.addConstraint _).constraints.size
    rw [size_constraints_addConstraint]
    exact Nat.le_succ _

/-! ## Edits, one by one -/

/-- Another look is the node's own. -/
theorem confined_restyle {changed : Node} (hn : tree.node? idx = some node)
    (hkeep : changed.SamePlace node) :
    Confined near idx tree (tree.modifyNode idx fun _ => changed) where
  nodes n hne := by rw [node?_restyle hn, if_neg hne.symm]
  installed _ _ := installed_restyle hn hkeep
  constraint? _ _ hc _ _ := hc
  addresses _ _ hid := snapshot_restyle hn hkeep ▸ hid

/-- **An expression takes over what starts at its node**, and both that and
its own constraint are installed on ancestors of it. -/
theorem Coherent.confined_constrain (h : tree.Coherent) (modify : Bool) (hc : tree.Anchored c)
    (hon : c.active = true) (hfirst : c.first.node = idx) :
    Confined (tree.Near idx) idx tree (tree.constrain modify c) where
  nodes n hne := by
    obtain ⟨owner, ho, -⟩ := h.exists_ownerFor? hc
    have hother : c.first.node ≠ n := fun heq => hne (heq.symm.trans hfirst)
    rw [h.node?_constrain hon ho, Option.map_map]
    cases tree.node? n with
    | none => rfl
    | some node =>
      simp only [Option.map_some, Function.comp_apply, Node.unlisted, Node.without, if_neg hother]
  installed n hfar := by
    obtain ⟨owner, ho, hlt⟩ := h.exists_ownerFor? hc
    have howner : n ≠ owner := by
      rintro rfl
      exact hfar (.inl (h.toRooted.ancestor_of_ownerFor? hfirst ho))
    rw [h.installed_constrain hon ho hlt, if_neg howner, List.append_nil]
    refine List.filter_eq_self.2 fun j hj => bne_iff_ne.2 fun hprior => hfar ?_
    -- what it replaces starts at the node, too
    obtain ⟨k, hk, -, hsame⟩ := mem_activeOn.1 (h.mem_activeOn_of_prior? hprior.symm)
    exact .inl (h.toRooted.ancestor_of_ownerFor? (hsame ▸ hfirst) (h.ownerFor?_of_mem hj hk))
  constraint? j k hk hne _ := by
    obtain ⟨owner, ho, -⟩ := h.exists_ownerFor? hc
    refine (h.constraint?_constrain_of_ne hon ho fun heq => hne ?_).2 hk
    rw [heq]
    exact hfirst
  addresses _ _ hid := snapshot_constrain ▸ hid

/-- **An update reaches what is on the node's list**, which is installed next
to the node. -/
theorem Coherent.confined_updateConstraint (h : tree.Coherent) (hfiled : tree.Filed)
    (hid : id ∈ tree.snapshot idx) (hc : tree.constraint? id = some c)
    (hlocal : tree.LocalTo idx c) (constant : Binary64) (active : Bool) (priority : Binary32) :
    Confined (tree.Near idx) idx tree (tree.updateConstraint id constant active priority) where
  nodes n _ := reads_updateConstraint Node.besideList_unlisted n
  installed n hfar := by
    let amended := tree.modifyConstraint id fun c => { c with constant, priority }
    have hamended : amended.constraint? id = some { c with constant, priority } := by
      show (tree.modifyConstraint id _).constraint? id = _
      rw [constraint?_modifyConstraint, if_pos rfl, hc]
      rfl
    have hsame : tree.SameShape amended := sameShape_modifyConstraint
    have hcases := amended.switch_cases id active
    show (amended.switch id active).installed n = tree.installed n
    generalize amended.switch id active = switched at hcases ⊢
    cases hcases with
    | kept => rfl
    | @on k owner _ hk _ ho =>
      cases hk.symm.trans hamended
      rw [hsame.ownerFor?_eq] at ho
      have hnear := h.toRooted.near_of_ownerFor? hfiled hlocal ho
      obtain ⟨_, ho', hlt⟩ := h.exists_ownerFor? (h.anchored id c hc)
      cases ho.symm.trans ho'
      have hne : owner ≠ n := by
        rintro rfl
        exact hfar hnear
      rw [installed_install (hsame.size.symm ▸ hlt), if_neg hne]
      rfl
    | @off k _ hk _ =>
      cases hk.symm.trans hamended
      have hne : c.owner ≠ some n := fun howner =>
        hfar (h.toRooted.near_of_ownerFor? hfiled hlocal (h.home id c n hc howner))
      rw [installed_uninstall, if_neg hne]
      rfl
  constraint? j k hk _ hoff := by
    have hne : id ≠ j := by
      rintro rfl
      exact hoff hid
    rw [(h.constraint?_updateConstraint hc constant active priority).2 j hne]
    exact hk
  addresses _ _ hid := snapshot_updateConstraint ▸ hid

/-- **A description that is appended** is installed next to the node, if at
all, and is new. -/
theorem Coherent.confined_append (h : tree.Coherent) (hfiled : tree.Filed) (hc : tree.Anchored c)
    (hlocal : tree.LocalTo idx c) :
    Confined (tree.Near idx) idx tree
      ((tree.addConstraint c).pushSnapshot idx tree.nextConstraint) where
  nodes n hne := by
    rw [Tree.pushSnapshot, node?_modifyNode, if_neg hne.symm]
    exact reads_addConstraint Node.besideList_unlisted n
  installed n hfar := by
    rw [installed_pushSnapshot]
    cases hon : c.active with
    | true =>
      obtain ⟨owner, ho, hlt⟩ := h.exists_ownerFor? hc
      have hne : owner ≠ n := by
        rintro rfl
        exact hfar (h.toRooted.near_of_ownerFor? hfiled hlocal ho)
      rw [installed_addConstraint hon ho hlt, if_neg hne]
    | false =>
      rw [addConstraint_eq, hon]
      rfl
  constraint? j k hk _ _ := by
    show (tree.addConstraint c).constraint? j = some k
    rw [constraint?_addConstraint_of_lt (lt_of_constraint? hk)]
    exact hk
  addresses j hlt hid := by
    rcases mem_snapshot_pushSnapshot hid with hold | ⟨-, rfl⟩
    · exact snapshot_addConstraint ▸ hold
    · exact absurd hlt (Nat.lt_irrefl _)

/-! ## Runs of edits -/

/-- **What the bound rests on**: the arena is coherent, lists address the
arena and are local to their nodes, and children know their parents. -/
structure Orderly (tree : Tree) : Prop where
  coherent : tree.Coherent
  recorded : tree.Recorded
  domestic : tree.Domestic
  filed : tree.Filed

theorem Orderly.edits (h : tree.Orderly) (hidx : idx < tree.size)
    (e : Edits registry idx tree edited) : edited.Orderly := by
  refine ⟨e.coherent h.coherent hidx, e.recorded h.recorded, ?_, h.filed.edits e⟩
  induction e with
  | refl => exact h.domestic
  | tail before e ih => exact e.domestic ih (Edits.recorded before h.recorded)

/-- **Every edit is confined** to its node. -/
theorem Orderly.confined (h : tree.Orderly) (hidx : idx < tree.size)
    (e : Edit registry idx tree edited) : Confined (tree.Near idx) idx tree edited := by
  cases e with
  | style hn hkeep => exact confined_restyle hn hkeep
  | express modify hok =>
    have hanchored := anchored_of_constraintFor h.coherent.toRooted hidx hok
    obtain ⟨expression, own, second, -, -, -, rfl⟩ := constraintFor_ok hok
    exact h.coherent.confined_constrain modify hanchored rfl rfl
  | update haddressed =>
    obtain ⟨place, -, hget⟩ := Option.bind_eq_some_iff.1 haddressed
    have hid := List.mem_of_getElem? hget
    obtain ⟨c, hc⟩ := constraint?_of_lt (h.recorded _ _ hid)
    exact h.coherent.confined_updateConstraint h.filed hid hc (h.domestic _ _ c hid hc) _ _ _
  | append _ hlive =>
    have hanchored := anchored_of_toLive? hlive
    have hlocal := localTo_of_toLive? hlive
    exact h.coherent.confined_append h.filed ⟨hanchored.first, hanchored.second⟩
      ⟨hlocal.first, hlocal.second, hlocal.aligned⟩

/-- **And so is a run of them**: it moves no node, so what is next to the
node stays so. -/
theorem Orderly.confined_edits (h : tree.Orderly) (hidx : idx < tree.size)
    (e : Edits registry idx tree edited) :
    Confined (tree.Near idx) idx tree edited ∧
      tree.constraints.size ≤ edited.constraints.size := by
  induction e with
  | refl => exact ⟨.refl tree, Nat.le_refl _⟩
  | @tail between edited before e ih =>
    have hbefore : Edits registry idx tree between := before
    have hsize := hbefore.sameShape.size
    have hstep := (h.edits hidx hbefore).confined (hsize ▸ hidx) e
    have hback : ∀ n, between.Near idx n → tree.Near idx n := by
      intro n hn
      refine hn.imp (fun ha => ?_) fun hm => hbefore.children_eq idx ▸ hm
      have hrooted := (h.edits hidx hbefore).coherent.toRooted
      rw [← h.coherent.toRooted.mem_ancestors, ← hbefore.sameShape.ancestors_eq]
      exact hrooted.mem_ancestors.2 ha
    exact ⟨ih.1.trans (hstep.mono hback) ih.2, Nat.le_trans ih.2 e.le_size_constraints⟩

end Tree

namespace Engine

variable {engine : Engine} {idx parent n : NodeIndex}

/-- **A modify is confined to its node**, and of that it keeps the identifier,
the kind and the place in the tree. -/
theorem footprint_modify (horderly : engine.tree.Orderly) (hidx : idx < engine.tree.size)
    (view : ViewChange) :
    Tree.Confined (engine.tree.Near idx) idx engine.tree (engine.modify idx view).1.tree ∧
      ∃ node changed, engine.tree.node? idx = some node ∧
        (engine.modify idx view).1.tree.node? idx = some changed ∧ changed.id = node.id ∧
        changed.kind.type = node.kind.type ∧ changed.parent = node.parent ∧
        changed.children = node.children := by
  have hedits := (edited_modify engine idx view).tree
  have htype := typeAt?_modify engine idx view idx
  refine ⟨(horderly.confined_edits hidx hedits).1, ?_⟩
  generalize (engine.modify idx view).1.tree = after at hedits htype ⊢
  have hshape := hedits.sameShape
  obtain ⟨node, hnode⟩ := Tree.node?_of_lt hidx
  obtain ⟨changed, hchanged⟩ := Tree.node?_of_lt (hshape.size.symm ▸ hidx : idx < after.size)
  have hid := hshape.id idx
  have hparent := hshape.parent idx
  have hchildren := hedits.children_eq idx
  unfold Tree.parent? at hparent
  unfold Tree.children at hchildren
  unfold Tree.typeAt? at htype
  rw [hnode, hchanged] at hid hparent hchildren htype
  exact ⟨node, changed, hnode, hchanged, Option.some.inj hid, Option.some.inj htype, hparent,
    hchildren⟩

/-- A tree with one more node is as orderly. -/
theorem Sound.orderly_planted (h : engine.Sound) (horderly : engine.tree.Orderly)
    (hparent : parent < engine.tree.size) (id : Identifier) (type : NodeType)
    (view : ViewChange) : (engine.planted id parent type view).tree.Orderly := by
  have hplanted := h.planted hparent id type view
  exact ⟨hplanted.coherent, hplanted.recorded, horderly.domestic.insertChild rfl,
    horderly.filed.insertChild hparent rfl⟩

/-- **What is next to the new node** is its parent and the ancestors of
that. -/
theorem Sound.ancestor_of_near_planted (h : engine.Sound) (hparent : parent < engine.tree.size)
    {id : Identifier} {type : NodeType} {view : ViewChange} (hn : n < engine.tree.size)
    (hnear : (engine.planted id parent type view).tree.Near engine.tree.nextIndex n) :
    engine.tree.Ancestor n parent := by
  rcases hnear with habove | hbelow
  · have hrooted := (h.planted hparent id type view).coherent.toRooted
    have hgrows : engine.tree.Grows (engine.planted id parent type view).tree :=
      Tree.grows_insertChild
    have hup : (engine.planted id parent type view).tree.parent? engine.tree.nextIndex =
        some parent := (Tree.parent?_insertChild _).trans (if_pos rfl)
    cases habove with
    | self => exact absurd hn (Nat.lt_irrefl _)
    | up hp habove =>
      cases hp.symm.trans hup
      rw [← hrooted.mem_ancestors, hgrows.ancestors_eq h.coherent.toRooted hparent] at habove
      exact h.coherent.toRooted.mem_ancestors.1 habove
  · rw [children_planted hparent] at hbelow
    cases hbelow

/-- **An insert** adds its node to the children of the parent. Besides it
reaches the installed lists of the parent and its ancestors, and no
constraint there was. -/
theorem Sound.footprint_insert (h : engine.Sound) (horderly : engine.tree.Orderly)
    (hparent : parent < engine.tree.size) (id : Identifier) (type : NodeType)
    (view : ViewChange) :
    (∀ n, n < engine.tree.size →
        ((engine.insert id parent type view).1.tree.node? n).map Node.unlisted =
          (engine.tree.node? n).map fun node =>
            (if n = parent then
              Tree.adopt engine.tree.nextIndex (view.index.map UInt64.toNat) node
            else node).unlisted) ∧
      (∀ j c, engine.tree.constraint? j = some c →
        (engine.insert id parent type view).1.tree.constraint? j = some c) ∧
      ∀ n, n < engine.tree.size → ¬engine.tree.Ancestor n parent →
        (engine.insert id parent type view).1.tree.installed n = engine.tree.installed n := by
  have hplanted := h.planted hparent id type view
  have hidx := engine.nextIndex_lt_planted id parent type view
  have hconfined := ((h.orderly_planted horderly hparent id type view).confined_edits
    hidx (edited_filled engine id parent type view).tree).1
  have hnew : ∀ n, n < engine.tree.size → engine.tree.nextIndex ≠ n := fun n hn =>
    (Nat.ne_of_lt hn).symm
  rw [insert_eq]
  refine ⟨fun n hn => ?_, fun j c hc => ?_, fun n hn hfar => ?_⟩
  · have hcaptured : ((engine.filled id parent type view).tree.captureSnapshot
        engine.tree.nextIndex).node? n = (engine.filled id parent type view).tree.node? n := by
      unfold Tree.captureSnapshot
      rw [Tree.node?_modifyNode, if_neg (hnew n hn)]
    have hgrown : (engine.planted id parent type view).tree.node? n =
        if n = parent then
          (engine.tree.node? n).map
            (Tree.adopt engine.tree.nextIndex (view.index.map UInt64.toNat))
        else engine.tree.node? n :=
      (Tree.node?_insertChild hparent _ _ n).trans (if_neg (hnew n hn).symm)
    show (((engine.filled id parent type view).tree.captureSnapshot
      engine.tree.nextIndex).node? n).map Node.unlisted = _
    rw [hcaptured, hconfined.nodes n (hnew n hn).symm, hgrown]
    split
    · rw [Option.map_map]
      rfl
    · rfl
  · have hold : c.first.node ≠ engine.tree.nextIndex :=
      Nat.ne_of_lt (h.coherent.anchored j c hc).first
    have hnone := (engine.lists_planted id parent type view).2
    refine hconfined.constraint? j c hc hold fun hmem => ?_
    rw [hnone] at hmem
    cases hmem
  · have hkept : (engine.filled id parent type view).tree.installed n =
        (engine.planted id parent type view).tree.installed n :=
      hconfined.installed n fun hnear => hfar (h.ancestor_of_near_planted hparent hn hnear)
    exact Tree.installed_captureSnapshot.trans (hkept.trans (Tree.installed_insertChild rfl))

end Engine

namespace Session

variable {session : Session}

/-- **Children know their parents** in every session reached. -/
theorem filed_apply (hsound : session.engine.Sound) (h : session.engine.tree.Filed)
    (entry : Json) : (session.apply entry).1.engine.tree.Filed := by
  have hcases := session.apply_cases entry
  generalize (session.apply entry).1.engine = engine at hcases ⊢
  cases hcases with
  | refused => exact h
  | @inserted id parent type view hr =>
    have hparent := hsound.within _ _ (resolve_insert hr).1
    have hplanted : (session.engine.planted id parent type view).tree.Filed :=
      h.insertChild hparent rfl
    rw [Engine.insert_eq]
    exact (hplanted.edits (Engine.edited_filled session.engine id parent type view).tree)
      |>.captureSnapshot
  | modified => exact h.edits (Engine.edited_modify ..).tree

theorem Reached.orderly (h : session.Reached) : session.engine.tree.Orderly := by
  refine ⟨h.sound.coherent, h.sound.recorded, h.describable.domestic, ?_⟩
  induction h with
  | initial config images known => exact Tree.filed_initial
  | @tweak session changes hreached ih =>
    have hrun := tweak_rel
      (fun s s' => s.engine.Sound → s.engine.tree.Filed →
        s'.engine.Sound ∧ s'.engine.tree.Filed)
      (fun _ hs h => ⟨hs, h⟩) (fun hab hbc hs h => hbc (hab hs h).1 (hab hs h).2)
      (fun _ entry hs h => ⟨sound_apply hs entry, filed_apply hs h entry⟩) session changes
    exact (hrun hreached.sound ih).2

/-- **An entry touches only what it names.** In a session that was reached, a
refused entry changes nothing of the tree. A modify leaves every other node
as it is but for its installed list, and of its own node the identifier, the
kind and the place; it leaves every constraint alone that does not start at
the node and is not on its list; and installed lists change only next to the
node: on itself, its ancestors and its children. An insert leaves every node
there was as it is but for its installed list and one more child of the
parent; it leaves every constraint alone, and installed lists change only on
the parent and its ancestors. -/
theorem entry_touches_only_its_node (h : session.Reached) (entry : Json) :
    let tree := session.engine.tree
    let after := (session.tweak [entry]).1.engine.tree
    (∀ d, session.resolve entry = .error d → after = tree) ∧
      (∀ idx view, session.resolve entry = .ok (.modify idx view) →
        (∀ n, n ≠ idx → (after.node? n).map Node.unlisted = (tree.node? n).map Node.unlisted) ∧
          (∃ node changed, tree.node? idx = some node ∧ after.node? idx = some changed ∧
            changed.id = node.id ∧ changed.kind.type = node.kind.type ∧
            changed.parent = node.parent ∧ changed.children = node.children) ∧
          (∀ j c, tree.constraint? j = some c → c.first.node ≠ idx → j ∉ tree.snapshot idx →
            after.constraint? j = some c) ∧
          ∀ n, ¬tree.Near idx n → after.installed n = tree.installed n) ∧
      ∀ id parent type view, session.resolve entry = .ok (.insert id parent type view) →
        (∀ n, n < tree.size →
          (after.node? n).map Node.unlisted = (tree.node? n).map fun node =>
            (if n = parent then Tree.adopt tree.nextIndex (view.index.map UInt64.toNat) node
            else node).unlisted) ∧
          (∀ j c, tree.constraint? j = some c → after.constraint? j = some c) ∧
          ∀ n, n < tree.size → ¬tree.Ancestor n parent →
            after.installed n = tree.installed n := by
  intro tree after
  refine ⟨fun d hr => ?_, fun idx view hr => ?_, fun id parent type view hr => ?_⟩
  · obtain ⟨_, hrefused⟩ := apply_of_refused (refused_iff.2 ⟨d, hr⟩)
    show (session.apply entry).1.engine.tree = tree
    rw [hrefused]
  · obtain ⟨⟨name, -, hname⟩, -⟩ := resolve_modify hr
    have hafter : after = (session.engine.modify idx view).1.tree := by
      show (session.tweak [entry]).1.engine.tree = _
      rw [tweak_of_resolve hr]
      rfl
    obtain ⟨hconfined, hself⟩ :=
      Engine.footprint_modify h.orderly (h.sound.within name idx hname) view
    rw [hafter]
    exact ⟨hconfined.nodes, hself, hconfined.constraint?, hconfined.installed⟩
  · have hafter : after = (session.engine.insert id parent type view).1.tree := by
      show (session.tweak [entry]).1.engine.tree = _
      rw [tweak_of_resolve hr]
      rfl
    rw [hafter]
    exact h.sound.footprint_insert h.orderly (h.sound.within _ _ (resolve_insert hr).1) id type
      view

/-- An entry that inserts a shelf of a fixed width. -/
def shelfInserted : Json :=
  .object [("operation", .string "insert"),
    ("view", .object [("constraints", .object [("width", .string "10")]),
      ("id", .string "shelf"), ("superview", .string "root"), ("type", .string "View")])]

/-- An entry that aligns a card's icon with the card, and fades the card. -/
def cardArranged : Json :=
  .object [("operation", .string "modify"),
    ("view", .object [("constraints", .array [.object
        [("first", .object [("attribute", .string "top"), ("item", .string "icon")]),
          ("second", .object [("attribute", .string "top"), ("item", .string "card")])]]),
      ("id", .string "card"),
      ("properties", .object [("isHidden", .bool true)])])]

/-- A card with an icon, and a shelf beside them. -/
def gallery : Session :=
  ((initial .standard .none).tweak
    [viewInserted "card" "root", viewInserted "icon" "card", shelfInserted]).1

/-- The card takes the constraint that aligns its icon. The icon is as it
was, and so is the shelf, with the constraint of its width. -/
theorem entry_touches_only_its_card :
    let after := (gallery.tweak [cardArranged]).1.engine.tree
    after.installed 1 = [1] ∧
      (after.node? 2).map Node.unlisted = (gallery.engine.tree.node? 2).map Node.unlisted ∧
      (∃ c, gallery.engine.tree.constraint? 0 = some c ∧ after.constraint? 0 = some c) ∧
      after.installed 3 = gallery.engine.tree.installed 3 := by
  intro after
  have hreached : gallery.Reached := .tweak _ (.initial _ _ _)
  obtain ⟨view, hchange, hid⟩ : ∃ view, Change.ofJson? cardArranged = some ⟨"modify", view⟩ ∧
      view.id = some "card" := ⟨_, rfl, rfl⟩
  have hcard : gallery.engine.registry.lookup? "card" = some 1 := by decide +kernel
  obtain ⟨hnodes, -, hconstraints, hlists⟩ := (entry_touches_only_its_node hreached
    cardArranged).2.1 1 view (resolve_modify_of_lookup hid hcard hchange)
  obtain ⟨c, hc⟩ := Tree.constraint?_of_lt
    (by decide +kernel : 0 < gallery.engine.tree.constraints.size)
  have hshelf : (gallery.engine.tree.constraint? 0).map (·.first.node) = some 3 := by
    decide +kernel
  rw [hc] at hshelf
  have hthird : c.first.node = 3 := Option.some.inj hshelf
  have hfirst : c.first.node ≠ 1 := by
    rw [hthird]
    decide
  have hlisted : 0 ∉ gallery.engine.tree.snapshot 1 := by decide +kernel
  have hfar : ¬gallery.engine.tree.Near 1 3 := by
    have hchildren : 3 ∉ gallery.engine.tree.children 1 := by decide +kernel
    rintro (habove | hbelow)
    · have hle := habove.le hreached.sound.coherent.toRooted
      exact absurd hle (by decide)
    · exact hchildren hbelow
  exact ⟨by decide +kernel, hnodes 2 (by decide), ⟨c, hc, hconstraints 0 c hc hfirst hlisted⟩,
    hlists 3 hfar⟩

end Session

end LiveLayout
