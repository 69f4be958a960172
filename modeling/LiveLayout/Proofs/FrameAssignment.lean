import LiveLayout.Proofs.Reporting
import Mathlib.Data.List.Perm.Basic
/-!
# Frames assigned at once

The frame object of a modify is put member by member into a copy of the
node's frame, while references read the tree that the copy is not yet in. So
it comes to one assignment (`Frame.assign`): every field gets the value that
its member comes to in the frames before the entry, or keeps its own
(`Tree.collect_applyField_eq_assign`), the node's references to itself
included. Neither the order of the members nor what else the entry holds has
a part in it (`frame_assigned_at_once`).
-/

namespace LiveLayout

/-! ## Assignments -/

namespace Frame

variable {frame other : Frame} {name : String}

/-- **An assignment to fields**: all at once, and the others as they were. -/
def assign (frame : Frame) (value? : String → Option Binary64) : Frame where
  x := (value? "x").getD frame.x
  y := (value? "y").getD frame.y
  width := (value? "width").getD frame.width
  height := (value? "height").getD frame.height

/-- A frame is known by its fields. -/
theorem ext_get? (h : ∀ name, frame.get? name = other.get? name) : frame = other := by
  obtain ⟨x, y, width, height⟩ := frame
  obtain ⟨x', y', width', height'⟩ := other
  obtain rfl : x = x' := Option.some.inj (h "x")
  obtain rfl : y = y' := Option.some.inj (h "y")
  obtain rfl : width = width' := Option.some.inj (h "width")
  obtain rfl : height = height' := Option.some.inj (h "height")
  rfl

theorem get?_assign (frame : Frame) (value? : String → Option Binary64) (name : String) :
    (frame.assign value?).get? name =
      (frame.get? name).map fun held => (value? name).getD held := by
  by_cases hname : name ∈ ["x", "y", "width", "height"]
  · simp only [List.mem_cons, List.not_mem_nil, or_false] at hname
    rcases hname with rfl | rfl | rfl | rfl <;> rfl
  · have hnone (frame : Frame) : frame.get? name = none :=
      Option.not_isSome_iff_eq_none.1 (mt (frame.isSome_get? name).1 hname)
    rw [hnone, hnone]
    rfl

@[simp] theorem assign_none (frame : Frame) : frame.assign (fun _ => none) = frame := rfl

/-- **One assignment after another** is one: the later one has precedence. -/
theorem assign_assign (frame : Frame) (value? later? : String → Option Binary64) :
    (frame.assign value?).assign later? =
      frame.assign fun name => (later? name).or (value? name) := by
  simp only [assign, Option.getD_or]

end Frame

namespace Tree

variable {tree other : Tree} {registry : Registry} {idx : NodeIndex} {id : Identifier}
variable {resolve : Reference → Option NodeIndex} {name : String} {value : Json} {x : Binary64}
variable {frame : Frame} {field : String × Json} {fields : List (String × Json)} {node : Node}

/-- **What a member of a frame object comes to** in a tree, for the field it
is named after: a number as it is, or a text that is a number; for a reference,
the field that it names, by default the same one, of the node it leads to, and
the offset on top. -/
inductive Comes (tree : Tree) (resolve : Reference → Option NodeIndex) (name : String) :
    Json → Binary64 → Prop
  | number (n : Json.Number) : Comes tree resolve name (.number n) n.toDouble
  | literal {text : String} {x : Binary64} : Expression.parse text = .ok (.literal x) →
      Comes tree resolve name (.string text) x
  | reference {text target : String} {other : Option String} {offset base : Binary64}
      {n : NodeIndex} {node : Node} :
      Expression.parse text = .ok (.relative target other offset) →
      resolve (.ofTarget target) = some n → tree.node? n = some node →
      node.frame.get? (other.getD name) = some base →
      Comes tree resolve name (.string text) (base.add offset)

/-- **The value of a member** is what it comes to. -/
theorem fieldValue_eq_ok_iff : tree.fieldValue registry idx (name, value) = .ok x ↔
    tree.Comes (registry.resolve? tree idx) name value x := by
  constructor
  · intro h
    unfold fieldValue at h
    cases value with
    | number n =>
      cases h
      exact .number n
    | string text =>
      simp only [frameValue] at h
      split at h
      · cases h
      · rename_i hparse
        cases h
        exact .literal hparse
      · rename_i hparse
        split at h
        · cases h
        · rename_i hresolve
          split at h
          · cases h
          · rename_i hbase
            cases h
            obtain ⟨node, hnode, hget⟩ := Option.bind_eq_some_iff.1 hbase
            exact .reference hparse hresolve hnode hget
    | _ => cases h
  · intro h
    unfold fieldValue
    cases h with
    | number n => rfl
    | literal hparse => simp only [frameValue, hparse]
    | reference hparse hresolve hnode hget =>
      simp only [frameValue, hparse, hresolve, hnode, Option.bind_some, hget]

/-- **A member is accepted** exactly if its key is a field and it comes to a
value. -/
theorem fieldRefusal?_eq_none_iff : tree.fieldRefusal? registry idx id field = none ↔
    field.1 ∈ ["x", "y", "width", "height"] ∧
      ∃ x, tree.Comes (registry.resolve? tree idx) field.1 field.2 x := by
  have hvalue : ∀ x, tree.Comes (registry.resolve? tree idx) field.1 field.2 x ↔
      tree.fieldValue registry idx field = .ok x := fun x => fieldValue_eq_ok_iff.symm
  simp only [hvalue, ← Frame.isSome_get? .zero]
  unfold fieldRefusal?
  cases Frame.zero.get? field.1 with
  | none => exact iff_of_false nofun fun h => Bool.false_ne_true h.1
  | some held =>
    cases tree.fieldValue registry idx field with
    | error cause => exact iff_of_false nofun nofun
    | ok x => exact iff_of_true rfl ⟨rfl, x, rfl⟩

theorem fieldValue?_eq_some_iff : tree.fieldValue? registry idx name value = some x ↔
    tree.Comes (registry.resolve? tree idx) name value x := by
  rw [← fieldValue_eq_ok_iff]
  unfold fieldValue?
  cases tree.fieldValue registry idx (name, value) with
  | error cause => exact iff_of_false nofun nofun
  | ok y => exact ⟨fun h => congrArg Except.ok (Option.some.inj h), fun h => by cases h; rfl⟩

/-- The value that a frame object gives a field, if it gives one. -/
def assigned? (tree : Tree) (registry : Registry) (idx : NodeIndex)
    (fields : List (String × Json)) (name : String) : Option Binary64 :=
  (fields.lookup name).bind (tree.fieldValue? registry idx name)

theorem assigned?_eq_some_iff (h : (fields.map (·.1)).Nodup) :
    tree.assigned? registry idx fields name = some x ↔
      ∃ value, (name, value) ∈ fields ∧
        tree.Comes (registry.resolve? tree idx) name value x := by
  unfold assigned?
  simp only [Option.bind_eq_some_iff, Json.lookup_eq_some_iff_mem h, fieldValue?_eq_some_iff]

/-- **A field is given** what its member comes to. -/
theorem get?_assign_of_comes (h : (fields.map (·.1)).Nodup) (frame : Frame)
    (hname : name ∈ ["x", "y", "width", "height"]) (hmem : (name, value) ∈ fields)
    (hcomes : tree.Comes (registry.resolve? tree idx) name value x) :
    (frame.assign (tree.assigned? registry idx fields)).get? name = some x := by
  have hassigned := (assigned?_eq_some_iff h).2 ⟨value, hmem, hcomes⟩
  obtain ⟨held, hheld⟩ := Option.isSome_iff_exists.1 ((frame.isSome_get? name).2 hname)
  rw [Frame.get?_assign, hassigned, hheld]
  rfl

/-- **A field is left** if no member of its name comes to a value. -/
theorem get?_assign_of_not_comes (h : (fields.map (·.1)).Nodup) (frame : Frame)
    (hnone : ∀ value x, (name, value) ∈ fields →
      ¬tree.Comes (registry.resolve? tree idx) name value x) :
    (frame.assign (tree.assigned? registry idx fields)).get? name = frame.get? name := by
  have hassigned : tree.assigned? registry idx fields name = none := by
    refine Option.eq_none_iff_forall_ne_some.2 fun x hx => ?_
    obtain ⟨value, hmem, hcomes⟩ := (assigned?_eq_some_iff h).1 hx
    exact hnone value x hmem hcomes
  rw [Frame.get?_assign, hassigned]
  exact Option.map_id'

/-- **One member is one assignment**, to nothing if it is not accepted. -/
theorem fst_applyField_eq_assign (frame : Frame) (field : String × Json) :
    (tree.applyField registry idx id frame field).1 = frame.assign fun name =>
      if name = field.1 then tree.fieldValue? registry idx name field.2 else none := by
  refine Frame.ext_get? fun name => ?_
  rw [Frame.get?_assign]
  by_cases hname : name = field.1
  · subst hname
    rw [if_pos rfl]
    unfold applyField fieldValue?
    cases hget : frame.get? field.1 with
    | none =>
      rw [Option.isNone_none, if_pos rfl]
      exact hget
    | some held =>
      rw [Option.isNone_some, if_neg Bool.false_ne_true]
      cases tree.fieldValue registry idx field with
      | error cause => exact hget
      | ok x => exact Frame.get?_getD_set?_self (hget ▸ rfl)
  · rw [if_neg hname, get?_applyField_of_ne frame field name hname]
    exact Option.map_id'.symm

/-- **A frame object is one assignment.** Its members are put one by one, and
none reads what another one put. -/
theorem collect_applyField_eq_assign (h : (fields.map (·.1)).Nodup) (frame : Frame) :
    (Diagnostic.collect (tree.applyField registry idx id) frame fields).1 =
      frame.assign (tree.assigned? registry idx fields) := by
  induction fields generalizing frame with
  | nil => rfl
  | cons field rest ih =>
    obtain ⟨hnotin, hrest⟩ := List.nodup_cons.1 h
    rw [Diagnostic.collect_cons, ih hrest, fst_applyField_eq_assign, Frame.assign_assign]
    refine congrArg frame.assign (funext fun name => ?_)
    unfold assigned?
    by_cases hname : name = field.1
    · -- the key is not there again
      have hnone : rest.lookup name = none := by
        refine Option.eq_none_iff_forall_ne_some.2 fun value hvalue => hnotin ?_
        have hmem := (Json.lookup_eq_some_iff_mem hrest).1 hvalue
        exact List.mem_map.2 ⟨_, hmem, hname⟩
      rw [if_pos hname, hnone, List.lookup_cons, beq_iff_eq.2 hname]
      rfl
    · rw [if_neg hname, List.lookup_cons, beq_eq_false_iff_ne.2 hname, Option.or_none]

/-- What fields are given depends on the frames and the shape of a tree. -/
theorem assigned?_congr (hshape : tree.SameShape other) (hframes : tree.Reads (·.frame) other) :
    other.assigned? registry idx fields = tree.assigned? registry idx fields := by
  funext name
  unfold assigned? fieldValue?
  rw [fieldValue_congr hshape hframes]

/-- **The frames after a frame object**: its node's is assigned, the others
are as they were. -/
theorem frame_applyFrame (hnode : tree.node? idx = some node) (h : (fields.map (·.1)).Nodup)
    (n : NodeIndex) :
    ((tree.applyFrame registry idx fields).1.node? n).map (·.frame) =
      if idx = n then some (node.frame.assign (tree.assigned? registry idx fields))
      else (tree.node? n).map (·.frame) := by
  rw [applyFrame_of_node? hnode, node?_modifyNode]
  split
  · rename_i heq
    subst heq
    rw [hnode, Option.map_some, Option.map_some, collect_applyField_eq_assign h]
  · rfl

end Tree

/-! ## Modifies -/

namespace Engine

variable {engine : Engine} {idx : NodeIndex} {view : ViewChange} {node : Node}

/-- **The frames after a modify.** The values are those of the tree before the
entry. -/
theorem frame_modify (hnode : engine.tree.node? idx = some node)
    (h : ((view.frame.getD []).map (·.1)).Nodup) (n : NodeIndex) :
    ((engine.modify idx view).1.tree.node? n).map (·.frame) =
      if idx = n then
        some (node.frame.assign
          (engine.tree.assigned? engine.registry idx (view.frame.getD [])))
      else (engine.tree.node? n).map (·.frame) := by
  have hedited := edited_applyContent engine idx true view
  -- properties, layer and constraints leave every frame as it was
  have hframes : engine.tree.Reads (·.frame) (engine.applyContent idx true view).1.tree :=
    engine.reads_applyContent Node.unadorned_frame Node.beside_frame idx true view
  have hfilled := hframes idx
  rw [hnode, Option.map_some] at hfilled
  obtain ⟨filled, hfilled, hframe⟩ := Option.map_eq_some_iff.1 hfilled
  rw [modify_eq]
  cases hfields : view.frame with
  | none =>
    have hnothing : engine.tree.assigned? engine.registry idx [] = fun _ => none := rfl
    simp only [Option.getD_none, hnothing, Frame.assign_none]
    rw [hframes n]
    split
    · rename_i heq
      rw [← heq, hnode]
      rfl
    · rfl
  | some fields =>
    rw [hfields, Option.getD_some] at h
    simp only [hedited.registry]
    rw [Tree.frame_applyFrame hfilled h n, hframe, hframes n,
      Tree.assigned?_congr hedited.tree.sameShape hframes, Option.getD_some]

/-- **Which frame a modify leads to** depends on the members of its frame
object, not on their order, nor on anything else it holds. -/
theorem frame_modify_perm {other : ViewChange} {fields others : List (String × Json)}
    (hnode : engine.tree.node? idx = some node) (h : (fields.map (·.1)).Nodup)
    (hfields : view.frame = some fields) (hothers : other.frame = some others)
    (hperm : others.Perm fields) (n : NodeIndex) :
    ((engine.modify idx other).1.tree.node? n).map (·.frame) =
      ((engine.modify idx view).1.tree.node? n).map (·.frame) := by
  have hkeys : (others.map (·.1)).Nodup := (hperm.map _).nodup_iff.2 h
  have hassigned : engine.tree.assigned? engine.registry idx others =
      engine.tree.assigned? engine.registry idx fields := by
    funext name
    unfold Tree.assigned?
    rw [Json.lookup_perm h hperm]
  rw [frame_modify hnode (by rwa [hothers]), frame_modify hnode (by rwa [hfields]), hothers,
    hfields, Option.getD_some, Option.getD_some, hassigned]

end Engine

namespace Session

variable {session : Session} {entry : Json} {idx : NodeIndex} {view : ViewChange}
variable {fields : List (String × Json)}

/-- **A frame object is one assignment.** In a session that was reached, take
a modify that is applied and has a frame object. Its node's frame has, for
every field, the value that the field's member comes to in the tree before the
entry, also where that is a field of the node itself which has a member of its
own, and the value that it had before if there is no such member or it comes
to none. Of its members, each that is no field or comes to no value is
reported once, after all that is said without them. The frame of every other
node is as it was. And any other modify of the node whose frame object has the
same members, in whatever order and with whatever else it brings, leads to the
same frames. -/
theorem frame_assigned_at_once (h : session.Reached) (hordered : entry.Ordered)
    (haction : session.resolve entry = .ok (.modify idx view))
    (hfields : view.frame = some fields) :
    let before := session.engine.tree
    let resolve := session.engine.registry.resolve? before idx
    let after := (session.apply entry).1.engine.tree
    ∃ node changed, before.node? idx = some node ∧ after.node? idx = some changed ∧
      (∀ name ∈ ["x", "y", "width", "height"],
        (∀ value x, (name, value) ∈ fields → before.Comes resolve name value x →
          changed.frame.get? name = some x) ∧
        ((∀ value x, (name, value) ∈ fields → ¬before.Comes resolve name value x) →
          changed.frame.get? name = node.frame.get? name)) ∧
      (∃ refusal? : String × Json → Option Diagnostic,
        (session.apply entry).2.diagnostics =
          (session.engine.modify idx { view with frame := none }).2 ++
            fields.filterMap refusal? ∧
        ∀ field, refusal? field = none ↔ field.1 ∈ ["x", "y", "width", "height"] ∧
          ∃ x, before.Comes resolve field.1 field.2 x) ∧
      (∀ n, n ≠ idx → (after.node? n).map (·.frame) = (before.node? n).map (·.frame)) ∧
      ∀ (other : ViewChange) (others : List (String × Json)), other.frame = some others →
        others.Perm fields → ∀ n,
          ((session.engine.modify idx other).1.tree.node? n).map (·.frame) =
            (after.node? n).map (·.frame) := by
  intro before resolve after
  obtain ⟨⟨id, -, hid⟩, change, hchange, rfl⟩ := resolve_modify haction
  obtain ⟨node, hnode⟩ := Tree.node?_of_lt (h.sound.within _ _ hid)
  have hkeys : (fields.map (·.1)).Nodup := by
    have hnodup := Engine.nodup_frame (Change.ordered_of_ofJson? hordered hchange)
    rwa [hfields] at hnodup
  have hafter : after = (session.engine.modify idx change.view).1.tree := by
    show (session.apply entry).1.engine.tree = _
    unfold apply
    rw [haction]
    rfl
  have hframes : ∀ n, (after.node? n).map (·.frame) =
      if idx = n then
        some (node.frame.assign (before.assigned? session.engine.registry idx fields))
      else (before.node? n).map (·.frame) := by
    intro n
    rw [hafter, Engine.frame_modify hnode (by rwa [hfields]), hfields, Option.getD_some]
  obtain ⟨changed, hchanged, hframe⟩ := Option.map_eq_some_iff.1 ((hframes idx).trans (if_pos rfl))
  refine ⟨node, changed, hnode, hchanged, fun name hname => ⟨?_, ?_⟩,
    ⟨before.fieldRefusal? session.engine.registry idx node.id, ?_,
      fun field => Tree.fieldRefusal?_eq_none_iff⟩, fun n hn => ?_,
    fun other others hothers hperm n => ?_⟩
  · intro value x hmem hcomes
    rw [hframe]
    exact Tree.get?_assign_of_comes hkeys node.frame hname hmem hcomes
  · intro hnone
    rw [hframe]
    exact Tree.get?_assign_of_not_comes hkeys node.frame hnone
  · unfold apply
    rw [haction]
    show (session.engine.modify idx change.view).2 = _
    rw [Engine.snd_modify hnode, hfields]
    rfl
  · rw [hframes, if_neg (Ne.symm hn)]
  · rw [hafter]
    exact Engine.frame_modify_perm hnode hkeys hfields hothers hperm n

/-- Entries that insert a card of 200 by 100 at (10, 20), and a badge of 24 by
30 on it. -/
def badgeInserted : List Json :=
  [.object [("operation", .string "insert"),
      ("view", .object
        [("frame", .object [("height", .number (.natural 100)), ("width", .number (.natural 200)),
            ("x", .number (.natural 10)), ("y", .number (.natural 20))]),
          ("id", .string "card"), ("superview", .string "root"), ("type", .string "View")])],
    .object [("operation", .string "insert"),
      ("view", .object
        [("frame", .object [("height", .number (.natural 30)), ("width", .number (.natural 24))]),
          ("id", .string "badge"), ("superview", .string "card"), ("type", .string "View")])]]

/-- The members of a frame object for the badge: no field, a node that is not
there, its own width, a field of its parent, and a number. -/
def badgeFields : List (String × Json) :=
  [("depth", .number (.natural 1)), ("height", .string "$(ghost)"),
    ("width", .string "$(self).height - 6"), ("x", .string "$(self).width + 4"),
    ("y", .string "$(superview) + 5")]

/-- An entry that gives the badge this frame. -/
def badgeFramed : Json :=
  .object [("operation", .string "modify"),
    ("view", .object [("frame", .object badgeFields), ("id", .string "badge")])]

/-- The badge is put at 28, by its width before the entry, while its width
becomes 24 by its height. Its height stays, and two members are reported. -/
theorem frame_assigned_at_once_of_badge :
    let session := ((initial .standard .none).tweak badgeInserted).1
    let view : ViewChange := { id := "badge", frame := some badgeFields }
    session.Reached ∧ badgeFramed.Ordered ∧
      session.resolve badgeFramed = .ok (.modify 2 view) ∧
      (∃ changed, (session.apply badgeFramed).1.engine.tree.node? 2 = some changed ∧
        changed.frame.get? "x" = some (.ofNat 28) ∧
        changed.frame.get? "height" = some (.ofNat 30)) ∧
      (session.apply badgeFramed).2.diagnostics.length = 2 := by
  intro session view
  have hreached : session.Reached := .tweak _ (.initial _ _ _)
  have hordered : badgeFramed.Ordered := by decide +kernel
  have haction : session.resolve badgeFramed = .ok (.modify 2 view) := rfl
  obtain ⟨node, changed, hnode, hchanged, hassigned, -⟩ :=
    frame_assigned_at_once hreached hordered haction rfl
  have hx : changed.frame.get? "x" = some (.ofNat 28) :=
    (hassigned "x" (by decide)).1 (.string "$(self).width + 4") _
      (.tail _ (.tail _ (.tail _ (.head _))))
      (Tree.fieldValue?_eq_some_iff.1 (by decide +kernel))
  have hheight : changed.frame.get? "height" = node.frame.get? "height" := by
    refine (hassigned "height" (by decide)).2 fun value x hmem hcomes => ?_
    have hvalue := (Json.lookup_eq_some_iff_mem (by decide)).2 hmem
    cases hvalue
    have hnone : session.engine.tree.fieldValue? session.engine.registry 2 "height"
        (.string "$(ghost)") = none := by
      decide +kernel
    cases hnone.symm.trans (Tree.fieldValue?_eq_some_iff.2 hcomes)
  have hbefore : (session.engine.tree.node? 2).bind (fun node => node.frame.get? "height") =
      some (.ofNat 30) := by
    decide +kernel
  rw [hnode] at hbefore
  exact ⟨hreached, hordered, haction, ⟨changed, hchanged, hx, hheight.trans hbefore⟩,
    by decide +kernel⟩

end Session

end LiveLayout
