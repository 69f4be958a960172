import LiveLayout.Proofs.Acceptance
/-!
# What a report says, and what it does not

Everything that is skipped of an entry should be in its report. What is not
accepted of its properties, of its layer and of the frame of a node that was
there is said, each part by itself (`report_of_entry`). But the fields of a
title and the frame of a new node are passed over in silence: a report can be
clean although they were skipped (`skipped_in_silence`).

The parts of an entry are tested against the engine as its node is in the
tree and has none of its content yet (`Meeting`).
-/

namespace LiveLayout

/-! ## Entries -/

/-- **A part of an entry** that can be skipped on its own. -/
inductive Part where
  | property (member : String × Json)
  | title (field : String × Json)
  | layer (member : String × Json)
  | frame (field : String × Json)

/-- **An entry as it meets the engine**: its view, for a node that is in the
tree and does not have its content yet. -/
structure Meeting where
  engine : Engine
  idx : NodeIndex
  view : ViewChange
  inserting : Bool

namespace Meeting

/-- The fields of the title object, where the node is a button. -/
def titleFields (m : Meeting) : List (String × Json) :=
  if m.engine.tree.typeAt? m.idx = some .button then
    (((m.view.properties.getD []).lookup "title").bind Json.object?).getD []
  else []

/-- **The parts of an entry.** -/
def parts (m : Meeting) : List Part :=
  (m.view.properties.getD []).map .property ++ m.titleFields.map .title ++
    (m.view.layer.getD []).map .layer ++ (m.view.frame.getD []).map .frame

/-- **What there is to say of a part that is not accepted**, and so not
stored. -/
def refusal? (m : Meeting) : Part → Option Diagnostic
  | .property member => m.engine.propertyRefusal? m.idx member
  | .title field =>
    (m.engine.tree.node? m.idx).bind fun node =>
      TextContent.titleRefusal? m.engine.level node.id field
  | .layer member => m.engine.layerRefusal? m.idx member
  | .frame field =>
    (m.engine.tree.node? m.idx).bind fun node =>
      if m.inserting then Frame.literalRefusal? node.id field
      else m.engine.tree.fieldRefusal? m.engine.registry m.idx node.id field

/-- The engine once the node has its look, as the constraints of the entry
meet it. -/
def styled (m : Meeting) : Engine := m.engine.styled m.idx m.view

/-- **Parts that are reported** if they are not accepted: not the fields of a
title, and not the frame of a new node. -/
def reports (m : Meeting) : Part → Bool
  | .property _ => true
  | .title _ => false
  | .layer _ => true
  | .frame _ => !m.inserting

/-- **What is accepted of an entry.** -/
def accepted (m : Meeting) : ViewChange :=
  { m.engine.acceptedLook m.idx m.view with
    frame := m.view.frame.map (·.filter fun field => (m.refusal? (.frame field)).isNone) }

variable {m : Meeting} {part : String × Json → Part}

theorem refusals_of_reported (h : ∀ member, m.reports (part member) = true)
    (members : List (String × Json)) :
    ((members.map part).filter m.reports).filterMap m.refusal? =
      members.filterMap (m.refusal? ∘ part) := by
  rw [List.filter_eq_self.2 fun p hp => ?_, List.filterMap_map]
  obtain ⟨member, -, rfl⟩ := List.mem_map.1 hp
  exact h member

theorem refusals_of_unreported (h : ∀ member, m.reports (part member) = false)
    (members : List (String × Json)) :
    ((members.map part).filter m.reports).filterMap m.refusal? = [] := by
  rw [List.filter_eq_nil_iff.2 fun p hp => ?_, List.filterMap_nil]
  obtain ⟨member, -, rfl⟩ := List.mem_map.1 hp
  exact Bool.eq_false_iff.1 (h member)

/-- **The refusals that are reported**: of properties and layer, and of the
frame of a node that was there. -/
theorem reported_eq {node : Node} (hnode : m.engine.tree.node? m.idx = some node) :
    (m.parts.filter m.reports).filterMap m.refusal? =
      (m.view.properties.getD []).filterMap (m.engine.propertyRefusal? m.idx) ++
        (m.view.layer.getD []).filterMap (m.engine.layerRefusal? m.idx) ++
        if m.inserting then []
        else (m.view.frame.getD []).filterMap
          (m.engine.tree.fieldRefusal? m.engine.registry m.idx node.id) := by
  have hframe : (((m.view.frame.getD []).map Part.frame).filter m.reports).filterMap m.refusal? =
      if m.inserting then []
      else (m.view.frame.getD []).filterMap
        (m.engine.tree.fieldRefusal? m.engine.registry m.idx node.id) := by
    cases hinserting : m.inserting with
    | true =>
      refine refusals_of_unreported (fun field => ?_) _
      simp only [reports, hinserting, Bool.not_true]
    | false =>
      rw [refusals_of_reported fun field => by simp only [reports, hinserting, Bool.not_false]]
      refine List.filterMap_congr fun field _ => ?_
      simp only [Function.comp, refusal?, hnode, hinserting, Option.bind_some,
        Bool.false_eq_true, if_false]
  unfold parts
  simp only [List.filter_append, List.filterMap_append, hframe]
  rw [refusals_of_reported (fun _ => rfl), refusals_of_unreported (fun _ => rfl),
    refusals_of_reported (fun _ => rfl), List.append_nil]
  rfl

/-- What is accepted of a frame are fields of frames. -/
theorem name_of_accepted {field : String × Json} {node : Node}
    (hnode : m.engine.tree.node? m.idx = some node)
    (haccepted : m.refusal? (.frame field) = none) : field.1 ∈ ["x", "y", "width", "height"] := by
  rw [← Frame.isSome_get? .zero, Option.isSome_iff_ne_none, ne_eq, ← Option.isNone_iff_eq_none]
  intro hunknown
  unfold refusal? Frame.literalRefusal? Tree.fieldRefusal? at haccepted
  simp only [hnode, Option.bind_some, hunknown, true_or, if_true, ite_self, reduceCtorEq]
    at haccepted

/-- **What becomes of the parts of an entry**: those that are not accepted
are reported, if they are of the kinds that are, with what there is to say of
the constraints before the frame; and what is accepted of the frame is in the
node's frame. -/
structure Told (m : Meeting) (after : Engine) (diagnostics : List Diagnostic) : Prop where
  refusals : ∃ content said frame, diagnostics = content ++ said ++ frame ∧
    (m.parts.filter m.reports).filterMap m.refusal? = content ++ frame ∧
    (m.view.constraints = none → said = [])
  accepted : ∀ field ∈ m.view.frame.getD [], m.refusal? (.frame field) = none →
    ∃ x, m.engine.tree.fieldValue m.engine.registry m.idx field = .ok x ∧
      (after.tree.node? m.idx).bind (fun node => node.frame.get? field.1) = some x

/-- Where nothing is said, nothing that is reported was refused. -/
theorem Told.accepted_of_reports {after : Engine} {diagnostics : List Diagnostic}
    (h : m.Told after diagnostics) (hempty : diagnostics = []) :
    ∀ part ∈ m.parts, m.reports part = true → m.refusal? part = none := by
  obtain ⟨content, said, frame, hspoken, hrefusals, -⟩ := h.refusals
  rw [hempty, eq_comm, List.append_eq_nil_iff, List.append_eq_nil_iff] at hspoken
  rw [hspoken.1.1, hspoken.2, List.append_nil, List.filterMap_eq_nil_iff] at hrefusals
  intro part hpart hreports
  exact hrefusals part (List.mem_filter.2 ⟨hpart, hreports⟩)

end Meeting

namespace Engine

variable {engine : Engine} {idx : NodeIndex} {view : ViewChange} {field : String × Json}

/-- **The frame of a new node** is the one it was made with. -/
theorem frame_insert (engine : Engine) (id : Identifier) (parent : NodeIndex) (type : NodeType)
    (view : ViewChange) :
    ((engine.insert id parent type view).1.tree.node? engine.tree.nextIndex).map (·.frame) =
      some (newNode id type view).frame := by
  have hplanted : ((engine.planted id parent type view).tree.node? engine.tree.nextIndex).map
      (·.frame) = some (newNode id type view).frame := by
    show ((engine.tree.insertChild parent _ _).node? engine.tree.nextIndex).map _ = _
    rw [Tree.insertChild_eq, Tree.map_node?_modifyNode (Tree.adopt _ _) fun _ => rfl,
      Tree.node?_extend]
    exact congrArg (Option.map _) (if_pos rfl)
  have hcontent := (engine.planted id parent type view).reads_applyContent Node.unadorned_frame
    Node.beside_frame engine.tree.nextIndex false view
  have hcaptured : (engine.filled id parent type view).tree.Reads (·.frame)
      (engine.insert id parent type view).1.tree := Tree.reads_captureSnapshot Node.beside_frame
  rw [hcaptured, ← hplanted]
  exact hcontent engine.tree.nextIndex

/-- **What is accepted of a new node's frame is in it**, once the node has its
content. -/
theorem get?_insert {id reported : Identifier} {parent : NodeIndex} {type : NodeType}
    (hkeys : ((view.frame.getD []).map (·.1)).Nodup) (hfield : field ∈ view.frame.getD [])
    (haccepted : Frame.literalRefusal? reported field = none) (tree : Tree)
    (registry : Registry) :
    ∃ x, tree.fieldValue registry idx field = .ok x ∧
      ((engine.insert id parent type view).1.tree.node? engine.tree.nextIndex).bind
        (fun node => node.frame.get? field.1) = some x := by
  obtain ⟨x, hx, hget⟩ := Frame.get?_ofNumbers hkeys hfield haccepted
  have hvalue : tree.fieldValue registry idx field = .ok x := by
    obtain ⟨name, value⟩ := field
    cases value with
    | number n => exact congrArg Except.ok (Option.some.inj hx)
    | _ => cases hx
  have hmade : (newNode id type view).frame = Frame.ofNumbers (view.frame.getD []) := by
    unfold newNode
    cases view.frame <;> rfl
  obtain ⟨node, hnode, hframe⟩ := Option.map_eq_some_iff.1 (engine.frame_insert id parent type view)
  refine ⟨x, hvalue, ?_⟩
  rw [hnode, Option.bind_some, hframe, hmade]
  exact hget

/-- Once an entry's content is applied, its frame is accepted as it was
before. -/
theorem fieldRefusal?_applyContent {node : Node} (hnode : engine.tree.node? idx = some node)
    (modify : Bool) (view : ViewChange) :
    ∃ filled, (engine.applyContent idx modify view).1.tree.node? idx = some filled ∧
      (engine.applyContent idx modify view).1.tree.fieldRefusal? engine.registry idx filled.id =
        engine.tree.fieldRefusal? engine.registry idx node.id := by
  have hedited := edited_applyContent engine idx modify view
  have hid := hedited.tree.sameShape.id idx
  rw [hnode] at hid
  obtain ⟨filled, hfilled, hid⟩ := Option.map_eq_some_iff.1 hid
  refine ⟨filled, hfilled, ?_⟩
  rw [hid]
  exact Tree.fieldRefusal?_congr hedited.tree.sameShape
    (engine.reads_applyContent Node.unadorned_frame Node.beside_frame idx modify view)

/-- **What is said of the constraints of an entry** comes last of its
content, and the rest is said as it would be without them. -/
theorem snd_applyContent_of_constraints {field : ConstraintsField}
    (hfield : view.constraints = some field) (idx : NodeIndex) (modify : Bool) :
    (engine.applyContent idx modify view).2 =
      (engine.applyContent idx modify { view with constraints := none }).2 ++
        ((engine.styled idx view).tree.applyConstraints (engine.styled idx view).registry idx
          modify field).2 := by
  unfold applyContent styled
  simp only [hfield]

/-- **What a modify says**: what there is to say of its content, and then of
the members of its frame as the tree was before the entry. -/
theorem snd_modify {node : Node} (hnode : engine.tree.node? idx = some node) (view : ViewChange) :
    (engine.modify idx view).2 = (engine.applyContent idx true view).2 ++
      (view.frame.getD []).filterMap (engine.tree.fieldRefusal? engine.registry idx node.id) := by
  have hedited := edited_applyContent engine idx true view
  unfold modify
  cases view.frame with
  | none => exact (List.append_nil _).symm
  | some fields =>
    obtain ⟨filled, hfilled, hrefusal⟩ := fieldRefusal?_applyContent hnode true view
    simp only [hedited.registry, Tree.snd_applyFrame hfilled, hrefusal, Option.getD_some]

/-- **The frame of a modify**: what is accepted of it by the tree before the
entry is in the node's frame afterwards. -/
theorem modify_of_fields {node : Node} (hnode : engine.tree.node? idx = some node)
    (hkeys : ((view.frame.getD []).map (·.1)).Nodup) (hfield : field ∈ view.frame.getD [])
    (haccepted : engine.tree.fieldRefusal? engine.registry idx node.id field = none) :
    ∃ x, engine.tree.fieldValue engine.registry idx field = .ok x ∧
      ((engine.modify idx view).1.tree.node? idx).bind
        (fun node => node.frame.get? field.1) = some x := by
  have hedited := edited_applyContent engine idx true view
  have hframes := engine.reads_applyContent Node.unadorned_frame Node.beside_frame idx true view
  unfold modify
  cases hframe : view.frame with
  | none =>
    rw [hframe] at hfield
    cases hfield
  | some fields =>
    rw [hframe, Option.getD_some] at hkeys hfield
    obtain ⟨filled, hfilled, hrefusal⟩ := fieldRefusal?_applyContent hnode true view
    obtain ⟨frame, hget, hholds⟩ :=
      @Tree.applyFrame_of_fields _ engine.registry _ _ _ hfilled hkeys
    rw [hrefusal, Tree.fieldValue_congr hedited.tree.sameShape hframes] at hholds
    simp only [hedited.registry]
    obtain ⟨x, hvalue, hx⟩ := hholds field hfield haccepted
    obtain ⟨final, hfinal, rfl⟩ := Option.map_eq_some_iff.1 hget
    refine ⟨x, hvalue, ?_⟩
    show ((Tree.applyFrame _ _ idx fields).1.node? idx).bind _ = _
    rw [hfinal]
    exact hx

/-- The keys of a frame are different. -/
theorem nodup_frame (hview : view.Ordered) : ((view.frame.getD []).map (·.1)).Nodup := by
  cases hframe : view.frame with
  | none => exact List.nodup_nil
  | some fields =>
    cases hview.frame fields hframe with
    | object hsorted _ => exact Json.nodup_keys hsorted

/-! ### Inserts -/

/-- An insert, as the content of the new node meets the engine. -/
def insertion (engine : Engine) (id : Identifier) (parent : NodeIndex) (type : NodeType)
    (view : ViewChange) : Meeting :=
  ⟨engine.planted id parent type view, engine.tree.nextIndex, view, true⟩

theorem told_insertion (engine : Engine) (id : Identifier) (parent : NodeIndex) (type : NodeType)
    (hview : view.Ordered) :
    (engine.insertion id parent type view).Told (engine.insert id parent type view).1
      (engine.insert id parent type view).2 := by
  obtain ⟨node, hnode⟩ := Tree.node?_of_lt (engine.nextIndex_lt_planted id parent type view)
  constructor
  · obtain ⟨said, hcontent, hsaid⟩ := (engine.planted id parent type view).snd_applyContent
      engine.tree.nextIndex false view
    refine ⟨_, said, [], ?_, Meeting.reported_eq hnode, hsaid⟩
    rw [List.append_nil]
    exact hcontent
  · intro field hfield haccepted
    unfold Meeting.refusal? insertion at haccepted
    simp only [hnode, Option.bind_some, if_true] at haccepted
    exact get?_insert (nodup_frame hview) hfield haccepted _ _

/-- **What is not accepted of an insert can be left out.** -/
theorem insert_accepted (engine : Engine) (id : Identifier) (parent : NodeIndex) (type : NodeType)
    (view : ViewChange) :
    (engine.insert id parent type (engine.insertion id parent type view).accepted).1 =
      (engine.insert id parent type view).1 := by
  obtain ⟨node, hnode⟩ := Tree.node?_of_lt (engine.nextIndex_lt_planted id parent type view)
  have hframe : (engine.insertion id parent type view).accepted.frame.map Frame.ofNumbers =
      view.frame.map Frame.ofNumbers := by
    unfold Meeting.accepted Meeting.refusal? insertion
    simp only [hnode, Option.bind_some, if_true, Option.map_map]
    cases view.frame with
    | none => rfl
    | some fields => exact congrArg some (Frame.ofNumbers_filter node.id fields)
  have hplanted : engine.planted id parent type (engine.insertion id parent type view).accepted =
      engine.planted id parent type view := by
    unfold planted newNode
    rw [hframe]
    rfl
  have hfilled : engine.filled id parent type (engine.insertion id parent type view).accepted =
      engine.filled id parent type view := by
    unfold filled
    rw [hplanted]
    exact fst_applyContent_accepted _ _ false view
  rw [insert_eq, insert_eq, hfilled]

/-! ### Modifies -/

/-- A modify, as it meets the engine. -/
def modification (engine : Engine) (idx : NodeIndex) (view : ViewChange) : Meeting :=
  ⟨engine, idx, view, false⟩

theorem told_modification (hidx : idx < engine.tree.size) (hview : view.Ordered) :
    (engine.modification idx view).Told (engine.modify idx view).1 (engine.modify idx view).2 := by
  obtain ⟨node, hnode⟩ := Tree.node?_of_lt hidx
  constructor
  · obtain ⟨said, hcontent, hsaid⟩ := engine.snd_applyContent idx true view
    refine ⟨_, said, _, ?_, Meeting.reported_eq hnode, hsaid⟩
    rw [snd_modify hnode, hcontent]
    rfl
  · intro field hfield haccepted
    unfold Meeting.refusal? modification at haccepted
    simp only [hnode, Option.bind_some, Bool.false_eq_true, if_false] at haccepted
    exact modify_of_fields hnode (nodup_frame hview) hfield haccepted

/-- **What is not accepted of a modify can be left out.** -/
theorem modify_accepted (hidx : idx < engine.tree.size) (view : ViewChange) :
    (engine.modify idx (engine.modification idx view).accepted).1 =
      (engine.modify idx view).1 := by
  obtain ⟨node, hnode⟩ := Tree.node?_of_lt hidx
  have hcontent : (engine.applyContent idx true (engine.modification idx view).accepted).1 =
      (engine.applyContent idx true view).1 := engine.fst_applyContent_accepted idx true view
  rw [modify_eq, modify_eq, hcontent]
  cases hframe : view.frame with
  | none =>
    have haccepted : (engine.modification idx view).accepted.frame = none :=
      congrArg (Option.map _) hframe
    rw [haccepted]
  | some fields =>
    have haccepted : (engine.modification idx view).accepted.frame = some (fields.filter
        fun field => (engine.tree.fieldRefusal? engine.registry idx node.id field).isNone) := by
      unfold Meeting.accepted Meeting.refusal? modification
      simp only [hframe, hnode, Option.map_some, Option.bind_some, Bool.false_eq_true, if_false]
    have hregistry := (edited_applyContent engine idx true view).registry
    obtain ⟨filled, hfilled, hrefusal⟩ := fieldRefusal?_applyContent hnode true view
    have hfilter := @Tree.applyFrame_filter _ engine.registry _ _ hfilled fields
    rw [hrefusal] at hfilter
    rw [haccepted]
    simp only [hregistry, hfilter]

end Engine

/-- An action with another view. -/
def Action.withView : Action → ViewChange → Action
  | .insert id parent type _, view => .insert id parent type view
  | .modify idx _, view => .modify idx view

/-- **An action on nodes that are there.** -/
def Action.Fits (tree : Tree) : Action → Prop
  | .insert _ parent _ _ => parent < tree.size
  | .modify idx _ => idx < tree.size

namespace Session

variable {session : Session} {entry : Json} {action : Action}

/-- What an entry that is applied does fits. -/
theorem fits_of_resolve (h : session.engine.Sound) (haction : session.resolve entry = .ok action) :
    action.Fits session.engine.tree := by
  cases action with
  | insert id parent type view => exact h.within _ _ (resolve_insert haction).1
  | modify idx view =>
    obtain ⟨⟨id, -, hid⟩, -⟩ := resolve_modify haction
    exact h.within _ _ hid

/-- An entry that is applied, as it meets the engine. -/
def meeting (session : Session) : Action → Meeting
  | .insert id parent type view => session.engine.insertion id parent type view
  | .modify idx view => session.engine.modification idx view

/-- **The node of an action is in the tree**, which is as sound with it. -/
theorem sound_meeting (h : session.engine.Sound) (hfits : action.Fits session.engine.tree) :
    (session.meeting action).engine.Sound ∧
      (session.meeting action).idx < (session.meeting action).engine.tree.size := by
  cases action with
  | insert id parent type view =>
    exact ⟨h.planted hfits id type view, session.engine.nextIndex_lt_planted id parent type view⟩
  | modify idx view => exact ⟨h, hfits⟩

/-- So it is once the node has its look. -/
theorem sound_styled (h : session.engine.Sound) (hfits : action.Fits session.engine.tree) :
    (session.meeting action).styled.Sound ∧
      (session.meeting action).idx < (session.meeting action).styled.tree.size := by
  obtain ⟨hsound, hidx⟩ := sound_meeting h hfits
  have hedited := Engine.edited_styled (session.meeting action).engine
    (session.meeting action).idx (session.meeting action).view
  exact ⟨hsound.of_edited hidx hedited, hedited.tree.sameShape.size.symm ▸ hidx⟩

theorem node?_meeting (h : session.engine.Sound) (haction : session.resolve entry = .ok action) :
    ∃ node, (session.meeting action).engine.tree.node? (session.meeting action).idx =
      some node :=
  Tree.node?_of_lt (sound_meeting h (fits_of_resolve h haction)).2

/-- **What an action says of its constraints** stands together, and the rest
is what it says without them. -/
theorem snd_perform (hfits : action.Fits session.engine.tree) {field : ConstraintsField}
    (hfield : (session.meeting action).view.constraints = some field) :
    let m := session.meeting action
    ∃ look frame,
      (session.perform action).2 = look ++
        (m.styled.tree.applyConstraints m.styled.registry m.idx (!m.inserting) field).2 ++
          frame ∧
      (session.perform (action.withView { m.view with constraints := none })).2 =
        look ++ frame := by
  intro m
  cases action with
  | insert id parent type view =>
    refine ⟨_, [], ?_, (List.append_nil _).symm⟩
    rw [List.append_nil]
    exact Engine.snd_applyContent_of_constraints hfield _ false
  | modify idx view =>
    obtain ⟨node, hnode⟩ := Tree.node?_of_lt hfits
    refine ⟨_, _, ?_, Engine.snd_modify hnode _⟩
    have hview : view.constraints = some field := hfield
    show (session.engine.modify idx view).2 = _
    rw [Engine.snd_modify hnode, Engine.snd_applyContent_of_constraints hview]
    rfl

/-- **The arena after an action** is the one its constraints leave. -/
theorem constraints_perform {field : ConstraintsField}
    (hfield : (session.meeting action).view.constraints = some field) :
    let m := session.meeting action
    ∀ id, (session.perform action).1.engine.tree.constraint? id =
      (m.styled.tree.applyConstraints m.styled.registry m.idx (!m.inserting)
        field).1.constraint? id := by
  intro m id
  have hcontent : (m.engine.applyContent m.idx (!m.inserting) m.view).1.tree =
      (m.styled.tree.applyConstraints m.styled.registry m.idx (!m.inserting) field).1 := by
    rw [Engine.applyContent_eq, hfield]
    rfl
  rw [← hcontent]
  cases action with
  | insert name parent type view => rfl
  | modify idx view =>
    show (session.engine.modify idx view).1.tree.constraint? id =
      (session.engine.applyContent idx true view).1.tree.constraint? id
    rw [Engine.modify_eq]
    cases view.frame with
    | none => rfl
    | some fields => exact Tree.constraint?_applyFrame fields id

theorem told_apply (h : session.engine.Sound) (hordered : entry.Ordered)
    (haction : session.resolve entry = .ok action) :
    (session.meeting action).Told (session.apply entry).1.engine
      (session.apply entry).2.diagnostics := by
  unfold apply
  rw [haction]
  cases action with
  | insert id parent type view =>
    obtain ⟨-, change, hchange, rfl⟩ := resolve_insert haction
    exact Engine.told_insertion _ _ _ _ (Change.ordered_of_ofJson? hordered hchange)
  | modify idx view =>
    obtain ⟨⟨id, -, hid⟩, change, hchange, rfl⟩ := resolve_modify haction
    exact Engine.told_modification (h.within _ _ hid) (Change.ordered_of_ofJson? hordered hchange)

/-- **What is not accepted has no effect**: the entry without it leads to the
same session. -/
theorem perform_accepted (h : session.engine.Sound)
    (haction : session.resolve entry = .ok action) :
    (session.perform (action.withView (session.meeting action).accepted)).1 =
      (session.apply entry).1 := by
  unfold apply
  rw [haction]
  cases action with
  | insert id parent type view =>
    have hinsert := session.engine.insert_accepted id parent type view
    show Session.mk (session.engine.insert id parent type _).1 _ = _
    rw [show (session.meeting (.insert id parent type view)).accepted =
      (session.engine.insertion id parent type view).accepted from rfl, hinsert]
    rfl
  | modify idx view =>
    obtain ⟨⟨id, -, hid⟩, -⟩ := resolve_modify haction
    have hmodify := Engine.modify_accepted (h.within _ _ hid) view
    show Session.mk (session.engine.modify idx _).1 _ = _
    rw [show (session.meeting (.modify idx view)).accepted =
      (session.engine.modification idx view).accepted from rfl, hmodify]
    rfl

/-- **What a report says of an entry, and what a clean one means.** In a
session that was reached, take an entry that is applied. Its parts that are
not accepted could as well be left out. They are reported one by one, in
order, with what there is to say of its constraints before the frame; only
the fields of a title and the frame of a new node are not. So if the report is
clean, all other parts were accepted, and every member of the entry's frame is
a field of frames and has the value it was given by the entry, unless it was
passed over in a new node. -/
theorem report_of_entry (h : session.Reached) (hordered : entry.Ordered)
    (haction : session.resolve entry = .ok action) :
    let m := session.meeting action
    let report := (session.apply entry).2
    (session.perform (action.withView m.accepted)).1 = (session.apply entry).1 ∧
    (∃ content said frame, report.diagnostics = content ++ said ++ frame ∧
      (m.parts.filter m.reports).filterMap m.refusal? = content ++ frame ∧
      (m.view.constraints = none → said = [])) ∧
    (report.isClean = true →
      (∀ part ∈ m.parts, m.reports part = true → m.refusal? part = none) ∧
      ∀ field ∈ m.view.frame.getD [],
        (m.inserting = true ∧ m.refusal? (.frame field) ≠ none) ∨
          (field.1 ∈ ["x", "y", "width", "height"] ∧
            ∃ x, m.engine.tree.fieldValue m.engine.registry m.idx field = .ok x ∧
              ((session.apply entry).1.engine.tree.node? m.idx).bind
                (fun node => node.frame.get? field.1) = some x)) := by
  intro m report
  have htold : m.Told (session.apply entry).1.engine report.diagnostics :=
    told_apply h.sound hordered haction
  obtain ⟨node, hnode⟩ := node?_meeting h.sound haction
  refine ⟨perform_accepted h.sound haction, htold.refusals, fun hclean => ?_⟩
  have hempty : report.diagnostics = [] := List.isEmpty_iff.1 hclean
  have haccepted := htold.accepted_of_reports hempty
  refine ⟨haccepted, fun field hfield => ?_⟩
  by_cases hrefused : m.refusal? (.frame field) = none
  · have hvalue := htold.accepted field hfield hrefused
    exact .inr ⟨Meeting.name_of_accepted hnode hrefused, hvalue⟩
  · refine .inl ⟨?_, hrefused⟩
    -- a member that is passed over is one that is not reported
    have hpart : Part.frame field ∈ m.parts :=
      List.mem_append_right _ (List.mem_map.2 ⟨field, hfield, rfl⟩)
    cases hinserting : m.inserting with
    | true => rfl
    | false =>
      have hreports : m.reports (.frame field) = true := by
        simp only [Meeting.reports, hinserting, Bool.not_false]
      exact absurd (haccepted _ hpart hreports) hrefused

/-- That nothing is skipped of a kind of parts where the report is clean. -/
def CleanAccepts (part : String × Json → Part) : Prop :=
  ∀ (session : Session) (entry : Json) (action : Action), session.Reached → entry.Ordered →
    session.resolve entry = .ok action → (session.apply entry).2.isClean = true →
    ∀ member, part member ∈ (session.meeting action).parts →
      (session.meeting action).refusal? (part member) = none

/-- An entry that inserts a button with a frame and a title. -/
def buttonInserted (frame title : List (String × Json)) : Json :=
  .object [("operation", .string "insert"),
    ("view", .object [("frame", .object frame), ("id", .string "save"),
      ("properties", .object [("title", .object title)]), ("superview", .string "root"),
      ("type", .string "Button")])]

/-- **A frame and a title are skipped in silence.** A new button is given a
frame with a depth, or a title that glows. There is no such field, and the
report is clean. -/
theorem skipped_in_silence : ¬CleanAccepts .frame ∧ ¬CleanAccepts .title := by
  have hreached : (initial .standard .none).Reached := .initial _ _ _
  constructor
  · intro hclaim
    have haccepted := hclaim _ (buttonInserted [("depth", .number (.natural 3))] []) _ hreached
      (by decide +kernel) rfl (by decide +kernel) ("depth", .number (.natural 3))
    exact absurd (haccepted (.tail _ (.head _))) (by decide +kernel)
  · intro hclaim
    have haccepted := hclaim _ (buttonInserted [] [("glow", .bool true)]) _ hreached
      (by decide +kernel) rfl (by decide +kernel) ("glow", .bool true)
    exact absurd (haccepted (.tail _ (.head _))) (by decide +kernel)

/-- An entry that gives the button another frame. -/
def buttonFramed : Json :=
  .object [("operation", .string "modify"),
    ("view", .object [("frame", .object [("height", .string "$(self).width + 4")]),
      ("id", .string "save")])]

/-- A button that is ten wide is made four higher than that. The report is
clean, so this is its height. -/
theorem report_of_button :
    let session := ((initial .standard .none).tweak
      [buttonInserted [("width", .number (.natural 10))] []]).1
    (session.apply buttonFramed).2.isClean = true ∧
      ((session.apply buttonFramed).1.engine.tree.node? 1).bind
        (fun node => node.frame.get? "height") = some (.ofNat 14) := by
  intro session
  have hreached : session.Reached := .tweak _ (.initial _ _ _)
  have hclean : (session.apply buttonFramed).2.isClean = true := by decide +kernel
  have hordered : buttonFramed.Ordered := by decide +kernel
  have hfourteen : (session.engine.tree.fieldValue session.engine.registry 1
      ("height", .string "$(self).width + 4")).toOption = some (.ofNat 14) := by
    decide +kernel
  obtain ⟨-, -, hframe⟩ := report_of_entry hreached hordered rfl
  refine ⟨hclean, ?_⟩
  have hheight := (hframe hclean).2 ("height", .string "$(self).width + 4") (.head _)
  rcases hheight with ⟨hinserting, -⟩ | ⟨-, x, hvalue, hget⟩
  · cases hinserting
  · have hx : some x = some (.ofNat 14) := (congrArg Except.toOption hvalue).symm.trans hfourteen
    exact hget.trans hx

end Session

end LiveLayout
