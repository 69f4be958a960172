import LiveLayout.Proofs.StaleIndices
import Mathlib.Data.List.Dedup
/-!
# Nodes by their identifiers

The registry, the tree and the course of a session tell one story
(`Engine.Catalogued`): the nodes of the tree are those that were inserted, in
their order and after the root, and an identifier stands for the last of
them that was given it. So what is found under an identifier is a node of
the tree that has it (`lookup_of_inserts`), also where an identifier was
given twice, the root's included.
-/

namespace LiveLayout

/-- The node that was made last under an identifier. -/
def latest (made : List (Identifier × NodeIndex)) (id : Identifier) : Option NodeIndex :=
  made.reverse.lookup id

theorem latest_concat (made : List (Identifier × NodeIndex)) (name id : Identifier)
    (n : NodeIndex) :
    latest (made ++ [(name, n)]) id = if id = name then some n else latest made id := by
  unfold latest
  rw [List.reverse_append, List.reverse_singleton, List.singleton_append, List.lookup_cons]
  by_cases h : id = name
  · rw [if_pos h, beq_iff_eq.2 h]
  · rw [if_neg h, beq_eq_false_iff_ne.2 h]

/-- Something is found in a list exactly if the key is in it. -/
theorem isSome_lookup {entries : List (Identifier × NodeIndex)} {id : Identifier} :
    (entries.lookup id).isSome = true ↔ ∃ n, (id, n) ∈ entries := by
  rw [List.lookup_isSome_iff]
  constructor
  · rintro ⟨⟨name, n⟩, hmem, heq⟩
    obtain rfl : id = name := beq_iff_eq.1 heq
    exact ⟨n, hmem⟩
  · rintro ⟨n, hmem⟩
    exact ⟨(id, n), hmem, beq_self_eq_true id⟩

/-- One is found exactly if one was made. -/
theorem latest_isSome {made : List (Identifier × NodeIndex)} {id : Identifier} :
    (latest made id).isSome = true ↔ ∃ n, (id, n) ∈ made := by
  unfold latest
  rw [isSome_lookup]
  simp only [List.mem_reverse]

/-- What is found was made under the identifier. -/
theorem mem_of_latest {made : List (Identifier × NodeIndex)} {id : Identifier} {n : NodeIndex}
    (h : latest made id = some n) : (id, n) ∈ made := by
  obtain ⟨before, after, hsplit, -⟩ := List.lookup_eq_some_iff.1 h
  refine List.mem_reverse.1 ?_
  rw [hsplit]
  exact List.mem_append_right _ List.mem_cons_self

/-- With one made before all others, that is the latest where there is no
other. -/
theorem latest_cons (made : List (Identifier × NodeIndex)) (name id : Identifier)
    (n : NodeIndex) :
    latest ((name, n) :: made) id = (latest made id).or (if id = name then some n else none) := by
  unfold latest
  rw [List.reverse_cons, List.lookup_append, List.lookup_cons, List.lookup_nil]
  by_cases h : id = name
  · rw [if_pos h, beq_iff_eq.2 h]
  · rw [if_neg h, beq_eq_false_iff_ne.2 h]

namespace Engine

variable {engine edited : Engine} {idx parent : NodeIndex}
variable {made : List (Identifier × NodeIndex)}

/-- **The nodes made are the tree's, in order, and the registry has the last
of each identifier.** -/
structure Catalogued (engine : Engine) (made : List (Identifier × NodeIndex)) : Prop where
  lookup : ∀ id, engine.registry.lookup? id = latest made id
  size : engine.tree.size = made.length
  ids : ∀ n : NodeIndex, (engine.tree.node? n).map (·.id) = made[n]?.map (·.1)
  places : ∀ (k : Nat) (entry : Identifier × NodeIndex), made[k]? = some entry → entry.2 = k
  ascending : engine.registry.entries.Pairwise fun e e' => e.1 < e'.1

theorem catalogued_initial (config : EngineConfig) (images : ImageLoader) :
    (Engine.initial config images).Catalogued [(Identifier.root, Tree.root)] where
  lookup id := by
    unfold initial
    rw [Registry.lookup?_register]
    exact (latest_concat [] Identifier.root id Tree.root).symm
  size := rfl
  ids n := by cases n <;> rfl
  places k entry hk := by
    obtain ⟨hlt, heq⟩ := List.getElem?_eq_some_iff.1 hk
    obtain rfl : k = 0 := Nat.lt_one_iff.1 hlt
    subst heq
    rfl
  ascending := List.pairwise_singleton _ _

/-- **Edits make no node** and register none. -/
theorem Catalogued.of_edited (h : engine.Catalogued made) (e : Edited idx engine edited) :
    edited.Catalogued made where
  lookup id := e.registry ▸ h.lookup id
  size := e.tree.sameShape.size.trans h.size
  ids n := (e.tree.sameShape.id n).trans (h.ids n)
  places := h.places
  ascending := e.registry ▸ h.ascending

/-- **An insert makes the next one**, and registers it. -/
theorem Catalogued.insert (h : engine.Catalogued made) (id : Identifier) (parent : NodeIndex)
    (type : NodeType) (view : ViewChange) :
    (engine.insert id parent type view).1.Catalogued (made ++ [(id, engine.tree.nextIndex)]) := by
  have hregistry : (engine.insert id parent type view).1.registry =
      engine.registry.register id engine.tree.nextIndex := by
    rw [insert_eq, (edited_filled engine id parent type view).registry]
    rfl
  have hnext : engine.tree.nextIndex = made.length := h.size
  have hshape := engine.sameShape_insert id parent type view
  refine ⟨fun name => ?_, ?_, fun n => ?_, fun k entry hk => ?_, ?_⟩
  · rw [hregistry, Registry.lookup?_register, latest_concat, h.lookup]
  · rw [hshape.size, List.length_append]
    exact (Tree.size_insertChild ..).trans (congrArg (· + 1) h.size)
  · rw [hshape.id]
    refine (Tree.map_node?_insertChild (fun _ _ => rfl) (fun _ _ => rfl) ..).trans ?_
    rw [h.size]
    split
    · rename_i heq
      rw [heq, List.getElem?_concat_length]
      rfl
    · rename_i hne
      rw [h.ids]
      rcases Nat.lt_or_gt_of_ne hne with hlt | hgt
      · rw [List.getElem?_append_left hlt]
      · rw [List.getElem?_eq_none (Nat.le_of_lt hgt), List.getElem?_eq_none]
        rw [List.length_append]
        exact hgt
  · rcases Nat.lt_or_ge k made.length with hlt | hge
    · rw [List.getElem?_append_left hlt] at hk
      exact h.places k entry hk
    · -- there is only the new one there
      obtain ⟨hlt, heq⟩ := List.getElem?_eq_some_iff.1 hk
      rw [List.length_append, List.length_singleton] at hlt
      obtain rfl : k = made.length := Nat.le_antisymm (Nat.le_of_lt_succ hlt) hge
      rw [List.getElem_concat_length rfl] at heq
      subst heq
      exact h.size
  · rw [hregistry]
    exact Json.pairwise_insertMember h.ascending

/-- What an identifier stands for is a node that has it. -/
theorem Catalogued.exists_node (h : engine.Catalogued made) {id : Identifier} {n : NodeIndex}
    (hn : engine.registry.lookup? id = some n) :
    ∃ node, engine.tree.node? n = some node ∧ node.id = id := by
  rw [h.lookup] at hn
  obtain ⟨k, hk⟩ := List.getElem?_of_mem (mem_of_latest hn)
  have hplace : n = k := h.places k _ hk
  have hid := h.ids n
  rw [hplace, hk] at hid
  rw [hplace]
  obtain ⟨node, hnode, hid⟩ := Option.map_eq_some_iff.1 hid
  exact ⟨node, hnode, hid⟩

/-- **The registry has as many entries as identifiers were given.** -/
theorem Catalogued.size_registry (h : engine.Catalogued made) :
    engine.registry.size = (made.map (·.1)).dedup.length := by
  have hkeys : (engine.registry.entries.map (·.1)).Perm (made.map (·.1)).dedup := by
    refine (List.perm_ext_iff_of_nodup (Json.nodup_keys h.ascending) (List.nodup_dedup _)).2 ?_
    intro id
    have hentry : (engine.registry.lookup? id).isSome = true ↔
        ∃ n, (id, n) ∈ engine.registry.entries := isSome_lookup
    have hpairs : ∀ entries : List (Identifier × NodeIndex),
        id ∈ entries.map (·.1) ↔ ∃ n, (id, n) ∈ entries := by
      intro entries
      simp only [List.mem_map, Prod.exists, exists_and_right, exists_eq_right]
    rw [List.mem_dedup, hpairs, hpairs, ← hentry, h.lookup, latest_isSome]
  have hlength := hkeys.length_eq
  rw [List.length_map] at hlength
  exact hlength

end Engine

namespace Session

variable {session : Session} {made : List (Identifier × NodeIndex)}

/-! ## Insertions -/

/-- **The node an entry makes**, under its identifier: one if it is an insert
that is accepted. -/
def insertedBy (session : Session) (entry : Json) : List (Identifier × NodeIndex) :=
  match session.resolve entry with
  | .ok (.insert id _ _ _) => [(id, session.engine.tree.nextIndex)]
  | _ => []

/-- **Every entry goes on with the catalogue.** -/
theorem catalogued_apply (h : session.engine.Catalogued made) (entry : Json) :
    (session.apply entry).1.engine.Catalogued (made ++ session.insertedBy entry) := by
  have hcases := session.apply_cases entry
  unfold insertedBy
  generalize (session.apply entry).1.engine = after at hcases ⊢
  cases hcases with
  | refused hr =>
    simp only [hr, List.append_nil]
    exact h
  | modified hr =>
    simp only [hr, List.append_nil]
    exact h.of_edited (Engine.edited_modify ..)
  | inserted hr =>
    simp only [hr]
    exact h.insert _ _ _ _

/-- **The catalogue of a session reached**: the root, and all that was
inserted. -/
theorem Course.catalogued (h : session.Course insertedBy made) :
    session.engine.Catalogued ((Identifier.root, Tree.root) :: made) :=
  h.invariant (P := fun engine made => engine.Catalogued ((Identifier.root, Tree.root) :: made))
    Engine.catalogued_initial fun _ _ _ hmade entry => catalogued_apply hmade entry

/-- **The registry leads to the right nodes.** In a session that was reached
with some insertions on the way, a node is found under an identifier exactly
if that is the root's or was given to an inserted node. The one found is the
last that was given it, or the root, a node of the tree that has the
identifier. There are as many entries as such identifiers, and one node more
than insertions: each made the next one. No further changes lose an entry. -/
theorem lookup_of_inserts (h : session.Course insertedBy made) :
    (∀ id, (session.engine.lookup? id).isSome = true ↔
        id = Identifier.root ∨ ∃ n, (id, n) ∈ made) ∧
      (∀ id, session.engine.registry.lookup? id =
        (latest made id).or (if id = Identifier.root then some Tree.root else none)) ∧
      (∀ id n, session.engine.registry.lookup? id = some n →
        ∃ node, session.engine.tree.node? n = some node ∧ node.id = id) ∧
      session.engine.registry.size = (Identifier.root :: made.map (·.1)).dedup.length ∧
      session.engine.tree.size = made.length + 1 ∧
      (∀ (k : Nat) id n, made[k]? = some (id, n) →
        n = k + 1 ∧ (session.engine.tree.node? n).map (·.id) = some id) ∧
      ∀ changes id, session.engine.registry.contains id = true →
        (session.tweak changes).1.engine.registry.contains id = true := by
  have hall := h.catalogued
  refine ⟨fun id => ?_, fun id => ?_, fun id n => hall.exists_node, hall.size_registry,
    hall.size, fun k id n hk => ?_, fun changes id hid => ?_⟩
  · have hfound : (session.engine.lookup? id).isSome =
        (session.engine.registry.lookup? id).isSome := by
      unfold Engine.lookup?
      cases hn : session.engine.registry.lookup? id with
      | none => rfl
      | some n =>
        obtain ⟨node, hnode, -⟩ := hall.exists_node hn
        rw [Option.bind_some, hnode]
        rfl
    rw [hfound, hall.lookup, latest_isSome]
    constructor
    · rintro ⟨n, hmem⟩
      rcases List.mem_cons.1 hmem with heq | hmem
      · exact .inl (congrArg Prod.fst heq)
      · exact .inr ⟨n, hmem⟩
    · rintro (rfl | ⟨n, hmem⟩)
      · exact ⟨Tree.root, List.mem_cons_self⟩
      · exact ⟨n, List.mem_cons_of_mem _ hmem⟩
  · rw [hall.lookup, latest_cons]
  · have hplace : n = k + 1 := hall.places (k + 1) (id, n) hk
    refine ⟨hplace, ?_⟩
    rw [hall.ids, hplace, List.getElem?_cons_succ, hk]
    rfl
  · have hlater := (h.tweak changes).catalogued
    unfold Registry.contains at hid ⊢
    rw [hall.lookup, latest_isSome] at hid
    rw [hlater.lookup, latest_isSome]
    obtain ⟨n, hmem⟩ := hid
    exact ⟨n, List.mem_append_left (session.account insertedBy changes) hmem⟩

/-- Two boxes of one identifier, a view that takes the root's, and a box that
is refused for want of its parent. -/
def namesakes : List Json :=
  [viewInserted "box" "root", viewInserted "box" "root", viewInserted "root" "box",
    viewInserted "crate" "shelf"]

/-- The second box is found and the view that took the root's identifier, but
no crate. Two identifiers were given to four nodes. -/
theorem lookup_of_inserts_of_namesakes :
    let session := ((initial .standard .none).tweak namesakes).1
    session.Course insertedBy [("box", 1), ("box", 2), ("root", 3)] ∧
      session.engine.registry.lookup? "box" = some 2 ∧
      session.engine.registry.lookup? "root" = some 3 ∧
      session.engine.lookup? "crate" = none ∧
      session.engine.registry.size = 2 ∧ session.engine.tree.size = 4 := by
  intro session
  have hmade : (initial .standard .none).account insertedBy namesakes =
      [("box", 1), ("box", 2), ("root", 3)] := by decide +kernel
  have hinserted : session.Course insertedBy
      ([] ++ (initial .standard .none).account insertedBy namesakes) :=
    .tweak namesakes (.initial _ _ _)
  rw [List.nil_append, hmade] at hinserted
  obtain ⟨hfound, hlatest, -, hentries, hsize, -, -⟩ := lookup_of_inserts hinserted
  refine ⟨hinserted, hlatest "box", hlatest "root", ?_, hentries, hsize⟩
  refine Option.not_isSome_iff_eq_none.1 fun hcrate => ?_
  rcases (hfound "crate").1 hcrate with hroot | ⟨n, hmem⟩
  · exact absurd hroot (by decide)
  · simp at hmem

end Session

end LiveLayout
