import LiveLayout.Proofs.Edits
import LiveLayout.Proofs.Settings
/-!
# The look of a node

What the properties, the layer and the frame of an entry do to a node, as
bags of settings put into its records. In development, where images are
loaded at once, a bag of properties only looks at the node's kind and its
view attributes, a layer bag at its layer, a frame at its frame, so each of
them can be applied again wherever that record is as it left it
(`applyProperties_again`, `applyLayer_again`, `applyFrame_again`).
-/

namespace LiveLayout

/-! ## The records of a node -/

namespace Node

/-- What properties look at: the kind and the attributes of any node. -/
def look (node : Node) : NodeKind × ViewAttributes := (node.kind, node.view)

/-- The node with another look. -/
def wear (node : Node) (look : NodeKind × ViewAttributes) : Node :=
  { node with kind := look.1, view := look.2 }

/-- An image is part of the look of its node. -/
theorem setImage_eq_wear (node : Node) (slot : ImageSlot) (content : ImageContent) :
    node.setImage slot content = node.wear (node.kind.withImage slot content, node.view) := by
  obtain ⟨_, kind, _⟩ := node
  cases kind <;> cases slot <;> rfl

end Node

/-- What decides whether a property fits: the kind of node. -/
def lookView (look : NodeKind × ViewAttributes) : NodeType × Unit := (look.1.type, ())

/-- A property put into a look, the kind's own properties first. -/
def putProperty? (level : Nat) (images : ImageLoader) :
    NodeKind × ViewAttributes → String → Json → Option (NodeKind × ViewAttributes) :=
  orElse? (NodeKind.settle? level images) ViewAttributes.set?

/-- What is said of a property that is not put: an image view's image could
not be loaded, or nothing takes the key. -/
def propertyRefusal (images : ImageLoader) (id : Identifier) (view : NodeType × Unit)
    (property : String × Json) : List Diagnostic :=
  match view.1, ImageSlot.ofKey? property.1, imageSource? property.2 with
  | .imageView, some _, some src =>
    match images.load src with
    | .ok _ => []
    | .error reason => [⟨some id, .imageUnavailable src reason⟩]
  | _, _, _ => [⟨some id, .propertyUnclaimed property.1⟩]

/-- One property of a bag. -/
def takeProperty (level : Nat) (images : ImageLoader) (id : Identifier) :
    NodeKind × ViewAttributes → String × Json → (NodeKind × ViewAttributes) × List Diagnostic :=
  takeMember lookView (putProperty? level images) (propertyRefusal images id)

section TakeProperty

variable {level : Nat} {images : ImageLoader} {id : Identifier} {kind : NodeKind}
variable {view : ViewAttributes} {property : String × Json} {slot : ImageSlot} {src : String}

/-- Only image views ask for images, under the keys of their slots. -/
theorem imageRequest?_eq_some (h : kind.imageRequest? property.1 property.2 = some (slot, src)) :
    kind.type = .imageView ∧ ImageSlot.ofKey? property.1 = some slot ∧
      imageSource? property.2 = some src := by
  unfold NodeKind.imageRequest? at h
  split at h
  · rename_i hslot hsrc
    cases h
    exact ⟨rfl, hslot, hsrc⟩
  · cases h

/-- The keys of images are no attributes of other nodes. -/
theorem set?_imageKey (h : ImageSlot.ofKey? property.1 = some slot) :
    view.set? property.1 property.2 = none := by
  rw [← NodeKind.key_of_ofKey? h]
  cases slot <;> rfl

/-- A property that asks for an image puts it, or says why it cannot. -/
theorem takeProperty_of_request
    (h : kind.imageRequest? property.1 property.2 = some (slot, src)) :
    takeProperty level images id (kind, view) property =
      match images.load src with
      | .ok content => ((kind.withImage slot content, view), [])
      | .error reason => ((kind, view), [⟨some id, .imageUnavailable src reason⟩]) := by
  obtain ⟨htype, hslot, hsrc⟩ := imageRequest?_eq_some h
  unfold takeProperty takeMember putProperty? orElse? NodeKind.settle? propertyRefusal lookView
  simp only [h, htype, hslot, hsrc, set?_imageKey hslot, Option.map_none]
  cases images.load src <;> rfl

/-- Any other property is set where it fits, or nothing takes it. -/
theorem takeProperty_of_no_request (h : kind.imageRequest? property.1 property.2 = none) :
    takeProperty level images id (kind, view) property =
      match kind.set? level property.1 property.2 with
      | some changed => ((changed, view), [])
      | none =>
        match view.set? property.1 property.2 with
        | some changed => ((kind, changed), [])
        | none => ((kind, view), [⟨some id, .propertyUnclaimed property.1⟩]) := by
  have hrefusal : propertyRefusal images id (kind.type, ()) property =
      [⟨some id, .propertyUnclaimed property.1⟩] := by
    unfold propertyRefusal
    split
    · rename_i htype hslot hsrc
      cases kind with
      | imageView image highlighted =>
        unfold NodeKind.imageRequest? at h
        rw [hslot, hsrc] at h
        cases h
      | _ => cases htype
    · rfl
  unfold takeProperty takeMember putProperty? orElse? NodeKind.settle? lookView
  simp only [h, hrefusal]
  cases kind.set? level property.1 property.2 with
  | some changed => rfl
  | none => cases view.set? property.1 property.2 <;> rfl

end TakeProperty

theorem keywise_putProperty? (level : Nat) (images : ImageLoader) :
    Keywise lookView (putProperty? level images) := by
  have hview : Keywise (fun _ => ()) ViewAttributes.set? := by
    rw [ViewAttributes.set?_eq]
    exact ViewAttributes.independent_table.keywise
  exact (NodeKind.keywise level images).orElse hview

/-- Properties put again into the look they made change nothing. -/
theorem takeProperty_again {level : Nat} {images : ImageLoader} {id : Identifier}
    {look : NodeKind × ViewAttributes} {bag : List (String × Json)}
    (hbag : (Json.object bag).Ordered) :
    Diagnostic.collect (takeProperty level images id)
        (Diagnostic.collect (takeProperty level images id) look bag).1 bag =
      Diagnostic.collect (takeProperty level images id) look bag :=
  (keywise_putProperty? level images).collect_collect hbag look

/-- One key of a layer bag. -/
def takeLayerKey (id : Identifier) :
    LayerAttributes → String × Json → LayerAttributes × List Diagnostic :=
  takeMember (fun _ => ()) LayerAttributes.set?
    fun _ property => [⟨some id, .propertyUnclaimed ("layer." ++ property.1)⟩]

theorem keywise_setLayer : Keywise (fun _ => ()) LayerAttributes.set? := by
  rw [LayerAttributes.set?_eq]
  exact LayerAttributes.independent_table.keywise

theorem takeLayerKey_again {id : Identifier} {layer : LayerAttributes}
    {bag : List (String × Json)} (hbag : (Json.object bag).Ordered) :
    Diagnostic.collect (takeLayerKey id) (Diagnostic.collect (takeLayerKey id) layer bag).1 bag =
      Diagnostic.collect (takeLayerKey id) layer bag :=
  keywise_setLayer.collect_collect hbag layer

/-! ## One node of an engine -/

namespace Engine

variable {engine : Engine} {idx : NodeIndex} {node changed : Node}
variable {bag : List (String × Json)}

/-- The engine with a node in place of another. -/
def put (engine : Engine) (idx : NodeIndex) (node : Node) : Engine :=
  { engine with tree := engine.tree.modifyNode idx fun _ => node }

theorem put_self (hn : engine.tree.node? idx = some node) : engine.put idx node = engine := by
  have hsame : engine.tree.modifyNode idx (fun _ => node) = engine.tree := by
    refine Tree.modifyNode_eq_self _ fun node' hnode' => ?_
    rw [hn] at hnode'
    exact Option.some.inj hnode'
  unfold put
  rw [hsame]

theorem node?_put (hn : engine.tree.node? idx = some node) (changed : Node) :
    (engine.put idx changed).tree.node? idx = some changed := by
  show (engine.tree.modifyNode idx fun _ => changed).node? idx = _
  rw [Tree.node?_restyle hn, if_pos rfl]

theorem put_put (engine : Engine) (idx : NodeIndex) (node changed : Node) :
    (engine.put idx node).put idx changed = engine.put idx changed := by
  have htwice : (engine.tree.modifyNode idx fun _ => node).modifyNode idx (fun _ => changed) =
      engine.tree.modifyNode idx fun _ => changed := by
    refine Tree.ext_get (fun n => ?_) fun _ => rfl
    rw [Tree.node?_modifyNode, Tree.node?_modifyNode, Tree.node?_modifyNode]
    split
    · rw [Option.map_map]
      rfl
    · rfl
  exact congrArg (fun tree => ({ engine with tree } : Engine)) htwice

/-- An image stored is put on its node. -/
theorem storeImage_eq (hn : engine.tree.node? idx = some node) (slot : ImageSlot)
    (content : ImageContent) :
    engine.storeImage idx slot content = engine.put idx (node.setImage slot content) := by
  unfold storeImage put
  rw [Tree.modifyNode_eq_const _ hn]

/-- An image that is loaded at once is loaded by the loader alone. -/
theorem requestImage_eq (hmode : engine.config.mode = .development)
    (hn : engine.tree.node? idx = some node) (slot : ImageSlot) (src : String) :
    engine.requestImage idx node.id slot src =
      match engine.images.load src with
      | .ok content => (engine.put idx (node.setImage slot content), [])
      | .error reason => (engine, [⟨some node.id, .imageUnavailable src reason⟩]) := by
  unfold requestImage ImageLoader.load
  split
  · simp only [hmode]
    cases engine.images.fetch src with
    | error reason => rfl
    | ok content => simp only [storeImage_eq hn, Except.map]
  · cases engine.images.named? src with
    | none => rfl
    | some content => simp only [storeImage_eq hn]

/-- **A property of an entry** is put into the look of the node. -/
theorem applyProperty_eq (hmode : engine.config.mode = .development)
    (hn : engine.tree.node? idx = some node) (property : String × Json) :
    applyProperty idx engine property =
      (engine.put idx
          (node.wear (takeProperty engine.level engine.images node.id node.look property).1),
        (takeProperty engine.level engine.images node.id node.look property).2) := by
  have hself : engine.put idx (node.wear node.look) = engine := put_self hn
  have hlook : node.look = (node.kind, node.view) := rfl
  unfold applyProperty
  rw [hn]
  simp only
  cases hreq : node.kind.imageRequest? property.1 property.2 with
  | some request =>
    obtain ⟨slot, src⟩ := request
    simp only
    rw [requestImage_eq hmode hn, hlook, takeProperty_of_request hreq]
    cases engine.images.load src with
    | error reason => exact congrArg (·, _) hself.symm
    | ok content => simp only [Node.setImage_eq_wear]
  | none =>
    simp only
    rw [hlook, takeProperty_of_no_request hreq]
    unfold Node.setProperty?
    cases node.kind.set? engine.level property.1 property.2 with
    | some changed => rfl
    | none =>
      cases node.view.set? property.1 property.2 with
      | some changed => rfl
      | none => exact congrArg (·, _) hself.symm

/-- **The properties of an entry** come to a bag put into the look of the
node. -/
theorem applyProperties_eq (hmode : engine.config.mode = .development)
    (hn : engine.tree.node? idx = some node) (bag : List (String × Json)) :
    engine.applyProperties idx bag =
      (engine.put idx (node.wear (Diagnostic.collect
          (takeProperty engine.level engine.images node.id) node.look bag).1),
        (Diagnostic.collect (takeProperty engine.level engine.images node.id) node.look
          bag).2) := by
  have hself : engine.put idx (node.wear node.look) = engine := put_self hn
  have hstep : ∀ look property, applyProperty idx (engine.put idx (node.wear look)) property =
      (engine.put idx
          (node.wear (takeProperty engine.level engine.images node.id look property).1),
        (takeProperty engine.level engine.images node.id look property).2) := by
    intro look property
    have hmode' : (engine.put idx (node.wear look)).config.mode = .development := hmode
    rw [applyProperty_eq hmode' (node?_put hn (node.wear look)), put_put]
    rfl
  have hembed := Diagnostic.collect_embed (fun look => engine.put idx (node.wear look)) hstep
    node.look bag
  rw [← hembed, hself]
  rfl

/-- **A layer bag** is put into the layer of the node. -/
theorem applyLayer_eq (hn : engine.tree.node? idx = some node) (bag : List (String × Json)) :
    engine.applyLayer idx bag =
      (engine.put idx
          { node with layer := (Diagnostic.collect (takeLayerKey node.id) node.layer bag).1 },
        (Diagnostic.collect (takeLayerKey node.id) node.layer bag).2) := by
  have hself : engine.put idx { node with layer := node.layer } = engine := put_self hn
  have hstep : ∀ layer property,
      applyLayerKey idx (engine.put idx { node with layer }) property =
        (engine.put idx { node with layer := (takeLayerKey node.id layer property).1 },
          (takeLayerKey node.id layer property).2) := by
    intro layer property
    unfold applyLayerKey takeLayerKey takeMember Node.setLayer?
    rw [node?_put hn]
    simp only
    cases layer.set? property.1 property.2 with
    | none => rfl
    | some changed =>
      exact congrArg (·, []) (put_put engine idx { node with layer } { node with layer := changed })
  have hembed := Diagnostic.collect_embed (fun layer => engine.put idx { node with layer }) hstep
    node.layer bag
  rw [← hembed, hself]
  rfl

/-- **Properties applied again** change nothing and report the same, on any
engine whose node looks as they left it. -/
theorem applyProperties_again {later : Engine} {node' : Node}
    (hmode : engine.config.mode = .development) (hn : engine.tree.node? idx = some node)
    (hbag : (Json.object bag).Ordered) (hconfig : later.config = engine.config)
    (himages : later.images = engine.images) (hn' : later.tree.node? idx = some node')
    (hid : node'.id = node.id)
    (hlook : ∀ changed, (engine.applyProperties idx bag).1.tree.node? idx = some changed →
      node'.look = changed.look) :
    later.applyProperties idx bag = (later, (engine.applyProperties idx bag).2) := by
  have hmode' : later.config.mode = .development := hconfig ▸ hmode
  have hlevel : later.level = engine.level := congrArg (·.platformLevel.toNat) hconfig
  rw [applyProperties_eq hmode hn] at hlook ⊢
  have hworn : node'.look = (Diagnostic.collect
      (takeProperty engine.level engine.images node.id) node.look bag).1 :=
    hlook _ (node?_put hn _)
  rw [applyProperties_eq hmode' hn', hworn, hid, hlevel, himages, takeProperty_again hbag, ← hworn]
  exact congrArg (·, _) (put_self hn')

/-- **A layer bag applied again** changes nothing and reports the same, on
any engine whose node has the layer it made. -/
theorem applyLayer_again {later : Engine} {node' : Node}
    (hn : engine.tree.node? idx = some node) (hbag : (Json.object bag).Ordered)
    (hn' : later.tree.node? idx = some node') (hid : node'.id = node.id)
    (hlayer : ∀ changed, (engine.applyLayer idx bag).1.tree.node? idx = some changed →
      node'.layer = changed.layer) :
    later.applyLayer idx bag = (later, (engine.applyLayer idx bag).2) := by
  rw [applyLayer_eq hn] at hlayer ⊢
  have hmade : node'.layer =
      (Diagnostic.collect (takeLayerKey node.id) node.layer bag).1 := hlayer _ (node?_put hn _)
  have hagain : Diagnostic.collect (takeLayerKey node'.id) node'.layer bag =
      (node'.layer, (Diagnostic.collect (takeLayerKey node.id) node.layer bag).2) := by
    rw [hid, hmade]
    exact takeLayerKey_again hbag
  rw [applyLayer_eq hn', hagain]
  exact congrArg (·, _) (put_self hn')

end Engine

/-! ## Frames -/

/-- The fields of a frame, each with the value it is given. -/
def Frame.table (value? : String → Json → Option Binary64) : List (Setting Frame) :=
  [⟨"x", Binary64, value? "x", fun frame x => { frame with x }⟩,
    ⟨"y", Binary64, value? "y", fun frame y => { frame with y }⟩,
    ⟨"width", Binary64, value? "width", fun frame width => { frame with width }⟩,
    ⟨"height", Binary64, value? "height", fun frame height => { frame with height }⟩]

theorem Frame.independent_table (value? : String → Json → Option Binary64) :
    Setting.Independent (table value?) where
  put_put := by
    unfold table
    simp
  put_comm := by
    unfold table
    simp

/-- A field that is no field of one frame is none of any. -/
theorem Frame.isNone_get?_eq (frame other : Frame) (name : String) :
    (frame.get? name).isNone = (other.get? name).isNone := by
  unfold get?
  by_cases hx : name = "x"
  · simp only [if_pos hx, Option.isNone_some]
  by_cases hy : name = "y"
  · simp only [if_neg hx, if_pos hy, Option.isNone_some]
  by_cases hwidth : name = "width"
  · simp only [if_neg hx, if_neg hy, if_pos hwidth, Option.isNone_some]
  by_cases hheight : name = "height"
  · simp only [if_neg hx, if_neg hy, if_neg hwidth, if_pos hheight, Option.isNone_some]
  · simp only [if_neg hx, if_neg hy, if_neg hwidth, if_neg hheight]

/-- The table sets what `Frame.set?` sets. -/
theorem Frame.put?_table (value? : String → Json → Option Binary64) (frame : Frame)
    (name : String) (value : Json) :
    Setting.put? (table value?) frame name value =
      (value? name value).bind fun x => frame.set? name x := by
  unfold table
  simp only [Setting.put?, set?]
  by_cases hx : name = "x"
  · subst hx
    cases value? "x" value <;> rfl
  by_cases hy : name = "y"
  · subst hy
    cases value? "y" value <;> rfl
  by_cases hwidth : name = "width"
  · subst hwidth
    cases value? "width" value <;> rfl
  by_cases hheight : name = "height"
  · subst hheight
    cases value? "height" value <;> rfl
  · simp only [if_neg hx, if_neg hy, if_neg hwidth, if_neg hheight]
    cases value? name value <;> rfl

namespace Tree

variable {tree other : Tree} {registry : Registry} {idx spared : NodeIndex} {id : Identifier}
variable {frame : Frame} {field : String × Json} {fields : List (String × Json)}

/-- The value a member gives its field, if it gives one. -/
def fieldValue? (tree : Tree) (registry : Registry) (idx : NodeIndex) (name : String)
    (value : Json) : Option Binary64 :=
  (tree.fieldValue registry idx (name, value)).toOption

/-- What is said of a member of a frame object. -/
def fieldRefusal (tree : Tree) (registry : Registry) (idx : NodeIndex) (id : Identifier)
    (_ : Unit) (field : String × Json) : List Diagnostic :=
  (tree.applyField registry idx id .zero field).2

/-- A member of a frame object is put into the frame; what is said of one
that is not put does not depend on the frame. -/
theorem applyField_eq (tree : Tree) (registry : Registry) (idx : NodeIndex) (id : Identifier) :
    tree.applyField registry idx id =
      takeMember (fun _ => ()) (Setting.put? (Frame.table (tree.fieldValue? registry idx)))
        (tree.fieldRefusal registry idx id) := by
  funext frame field
  have hset := frame.isSome_set? field.1
  unfold takeMember fieldRefusal applyField
  simp only [Frame.put?_table, fieldValue?, Frame.isNone_get?_eq .zero frame field.1]
  cases hget : frame.get? field.1 with
  | none =>
    rw [hget] at hset
    have hnone : ∀ x, frame.set? field.1 x = none := fun x =>
      Option.not_isSome_iff_eq_none.1 (Bool.eq_false_iff.1 (hset x))
    cases tree.fieldValue registry idx (field.1, field.2) with
    | error cause => rfl
    | ok x =>
      simp only [Except.toOption, Option.bind_some, hnone]
      rfl
  | some held =>
    rw [hget] at hset
    cases tree.fieldValue registry idx (field.1, field.2) with
    | error cause => rfl
    | ok x =>
      obtain ⟨changed, hchanged⟩ := Option.isSome_iff_exists.1 (hset x)
      simp only [Except.toOption, Option.bind_some, hchanged]
      rfl

/-- **A frame object put again** into the frame it made changes nothing. -/
theorem collect_applyField_again (hfields : (Json.object fields).Ordered) (frame : Frame) :
    Diagnostic.collect (tree.applyField registry idx id)
        (Diagnostic.collect (tree.applyField registry idx id) frame fields).1 fields =
      Diagnostic.collect (tree.applyField registry idx id) frame fields := by
  rw [applyField_eq]
  exact (Frame.independent_table _).keywise.collect_collect hfields frame

/-- What the expressions of a frame object refer to is not the node
itself. -/
def RefersElsewhere (tree : Tree) (registry : Registry) (idx : NodeIndex)
    (fields : List (String × Json)) : Prop :=
  ∀ field ∈ fields, ∀ text target name offset, field.2 = .string text →
    Expression.parse text = .ok (.relative target name offset) →
    registry.resolve? tree idx (Reference.ofTarget target) ≠ some idx

/-- Nor, seen from the node, is it some other one. -/
def Spares (tree : Tree) (registry : Registry) (idx spared : NodeIndex)
    (fields : List (String × Json)) : Prop :=
  ∀ field ∈ fields, ∀ text target name offset, field.2 = .string text →
    Expression.parse text = .ok (.relative target name offset) →
    registry.resolve? tree idx (Reference.ofTarget target) ≠ some spared

/-- What a reference is to is up to the shape of the tree. -/
theorem Spares.of_sameShape (h : tree.Spares registry idx spared fields)
    (hshape : tree.SameShape other) : other.Spares registry idx spared fields := by
  intro field hfield text target name offset htext hparse
  rw [hshape.resolve?_eq]
  exact h field hfield text target name offset htext hparse

/-- The frame of a node that is spared does not matter to what the fields
come to. -/
theorem fieldValue_eq (hshape : tree.SameShape other)
    (hframe : ∀ n, n ≠ spared → (other.node? n).map (·.frame) = (tree.node? n).map (·.frame))
    (hfields : tree.Spares registry idx spared fields) (hfield : field ∈ fields) :
    other.fieldValue registry idx field = tree.fieldValue registry idx field := by
  unfold fieldValue
  split
  · rfl
  · rename_i text htext
    unfold frameValue
    split
    · rfl
    · rfl
    · rename_i target name offset hparse
      have helsewhere := hfields field hfield text target name offset htext hparse
      rw [hshape.resolve?_eq]
      split
      · rfl
      · rename_i n hn
        have hne : n ≠ spared := by
          rintro rfl
          exact helsewhere hn
        have hget : ∀ t : Tree, ((t.node? n).bind fun node => node.frame.get? (name.getD field.1)) =
            ((t.node? n).map (·.frame)).bind fun frame => frame.get? (name.getD field.1) := by
          intro t
          cases t.node? n <;> rfl
        simp only [hget, hframe n hne]
  · rfl

/-- **A frame applied again**, referring to other nodes only, changes
nothing and reports the same. -/
theorem applyFrame_again {node : Node} (hn : tree.node? idx = some node)
    (hordered : (Json.object fields).Ordered)
    (hfields : tree.RefersElsewhere registry idx fields) :
    (tree.applyFrame registry idx fields).1.applyFrame registry idx fields =
      tree.applyFrame registry idx fields := by
  have hagain : Diagnostic.collect (tree.applyField registry idx node.id)
      (Diagnostic.collect (tree.applyField registry idx node.id) node.frame fields).1 fields =
        Diagnostic.collect (tree.applyField registry idx node.id) node.frame fields :=
    collect_applyField_again hordered node.frame
  rw [applyFrame_of_node? hn]
  generalize Diagnostic.collect (tree.applyField registry idx node.id) node.frame fields = made
    at hagain ⊢
  -- the tree differs in this frame alone, which no field refers to
  have hshape : tree.SameShape (tree.modifyNode idx fun n => { n with frame := made.1 }) :=
    sameShape_modifyNode _ (fun _ => rfl) fun _ => rfl
  have hframe : ∀ n, n ≠ idx →
      ((tree.modifyNode idx fun n => { n with frame := made.1 }).node? n).map (·.frame) =
        (tree.node? n).map (·.frame) := by
    intro n hne
    rw [node?_modifyNode, if_neg hne.symm]
  have hn' : (tree.modifyNode idx fun n => { n with frame := made.1 }).node? idx =
      some { node with frame := made.1 } := by
    rw [node?_modifyNode, if_pos rfl, hn]
    rfl
  have hcollect : Diagnostic.collect
      ((tree.modifyNode idx fun n => { n with frame := made.1 }).applyField registry idx node.id)
      made.1 fields = made := by
    refine Eq.trans (Diagnostic.collect_congr (fun field hfield frame => ?_) made.1) hagain
    unfold applyField
    rw [fieldValue_eq hshape hframe hfields hfield]
  rw [applyFrame_of_node? hn']
  simp only [hcollect]
  refine congrArg (·, _) (modifyNode_eq_self _ fun node' hnode' => ?_)
  rw [hn'] at hnode'
  cases hnode'
  rfl

end Tree

end LiveLayout
