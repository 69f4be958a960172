import LiveLayout.Proofs.Appearance
import LiveLayout.Proofs.DeferredImages
/-!
# What is accepted of an entry

An entry that is applied is taken part by part. Whether a part is accepted
does not depend on the parts before it: a property goes by the type of the
node and by the images that can be loaded, a layer attribute and a field of a
title by its key and value, and a member of a frame by the frames as they
were before the entry. So each of the operations on parts has a test that can
be made beforehand (`Engine.propertyRefusal?`, `Engine.layerRefusal?`,
`TextContent.titleRefusal?`, `Frame.literalRefusal?`, `Tree.fieldRefusal?`).
What fails its test can be left out of the entry with no effect on the engine
(`Engine.fst_applyContent_accepted`), and what there is to say of it is what
the operation says, where it says anything at all.
-/

namespace LiveLayout

namespace Diagnostic

variable {σ α : Type} {step : σ → α → σ × List Diagnostic}

theorem collect_cons (s : σ) (a : α) (l : List α) :
    collect step s (a :: l) =
      ((collect step (step s a).1 l).1, (step s a).2 ++ (collect step (step s a).1 l).2) := rfl

/-- The state that steps one after another lead to. -/
theorem collect_fst (s : σ) (l : List α) :
    (collect step s l).1 = l.foldl (fun s a => (step s a).1) s := by
  induction l generalizing s with
  | nil => rfl
  | cons a rest ih => exact ih (step s a).1

/-- **What steps one after another say**, where no step changes what is said
of another one. -/
theorem collect_snd {refusal? : σ → α → Option Diagnostic}
    (hspoken : ∀ s a, (step s a).2 = (refusal? s a).toList)
    (hkept : ∀ s a b, refusal? (step s a).1 b = refusal? s b) (s : σ) (l : List α) :
    (collect step s l).2 = l.filterMap (refusal? s) := by
  induction l generalizing s with
  | nil => rfl
  | cons a rest ih =>
    have hrest : rest.filterMap (refusal? (step s a).1) = rest.filterMap (refusal? s) :=
      List.filterMap_congr fun b _ => hkept s a b
    rw [collect_cons, ih, hrest, hspoken, List.filterMap_cons]
    cases refusal? s a <;> rfl

/-- **Steps that do nothing can be left out.** -/
theorem collect_filter {refusal? : σ → α → Option Diagnostic}
    (hskips : ∀ s a d, refusal? s a = some d → (step s a).1 = s)
    (hkept : ∀ s a b, refusal? (step s a).1 b = refusal? s b) (s : σ) (l : List α) :
    (collect step s (l.filter fun a => (refusal? s a).isNone)).1 = (collect step s l).1 := by
  induction l generalizing s with
  | nil => rfl
  | cons a rest ih =>
    have hrest := ih (step s a).1
    simp only [hkept] at hrest
    rw [collect_cons]
    cases ha : refusal? s a with
    | none =>
      rw [List.filter_cons_of_pos (by rw [ha]; rfl)]
      exact hrest
    | some d =>
      rw [List.filter_cons_of_neg (by rw [ha]; exact Bool.false_ne_true)]
      rw [hskips s a d ha] at hrest ⊢
      exact hrest

/-- **Each item of a list with the state it meets**, the one the steps before
it left. -/
def met (step : σ → α → σ × List Diagnostic) : σ → List α → List (σ × α)
  | _, [] => []
  | s, a :: rest => (s, a) :: met step (step s a).1 rest

/-- Every item is met, in order. -/
theorem map_snd_met (s : σ) (l : List α) : (met step s l).map (·.2) = l := by
  induction l generalizing s with
  | nil => rfl
  | cons a rest ih => rw [met, List.map_cons, ih]

theorem met_take (s : σ) (l : List α) (i : Nat) :
    met step s (l.take i) = (met step s l).take i := by
  induction l generalizing s i with
  | nil => rw [List.take_nil, met, List.take_nil]
  | cons a rest ih =>
    cases i with
    | zero => rfl
    | succ i => rw [List.take_succ_cons, met, met, List.take_succ_cons, ih]

/-- An item meets what the steps before it lead to. -/
theorem fst_of_getElem?_met {s : σ} {l : List α} {i : Nat} {m : σ × α}
    (hm : (met step s l)[i]? = some m) : m.1 = (collect step s (l.take i)).1 := by
  induction l generalizing s i with
  | nil => cases hm
  | cons a rest ih =>
    cases i with
    | zero =>
      cases hm
      rfl
    | succ i => exact ih hm

/-- **What every step keeps**, each item meets. -/
theorem of_mem_met {P : σ → Prop} {s : σ} {l : List α} {m : σ × α} (hs : P s)
    (hstep : ∀ s a, P s → P (step s a).1) (hm : m ∈ met step s l) : P m.1 := by
  induction l generalizing s with
  | nil => cases hm
  | cons a rest ih =>
    cases hm with
    | head => exact hs
    | tail _ hm => exact ih (hstep s a hs) hm

end Diagnostic

/-- Where every step is a run of edits, each item meets an edited tree. -/
theorem Tree.edits_of_mem_met {α : Type} {step : Tree → α → Tree × List Diagnostic}
    {registry : Registry} {idx : NodeIndex} {tree : Tree} {l : List α} {m : Tree × α}
    (hstep : ∀ tree a, Edits registry idx tree (step tree a).1)
    (hm : m ∈ Diagnostic.met step tree l) : Edits registry idx tree m.1 :=
  Diagnostic.of_mem_met Relation.ReflTransGen.refl
    (fun met a hmet => hmet.trans (hstep met a)) hm

/-! ## Looks -/

/-- Whether a value fits a property of a kind of node depends on the type
alone. -/
theorem NodeKind.isSome_set?_eq {level : Nat} {kind other : NodeKind}
    (htype : other.type = kind.type) (key : String) (value : Json) :
    (other.set? level key value).isSome = (kind.set? level key value).isSome := by
  have hlabel : ∀ text, ((label text).set? level key value).isSome =
      (TextContent.setProperty? level {} key value).isSome := by
    intro text
    show ((text.setProperty? level key value).map label).isSome = _
    rw [Option.isSome_map]
    exact (TextContent.keywise_setProperty? level).fits text {} key value rfl
  have hbutton : ∀ titleId title, ((button titleId title).set? level key value).isSome =
      (decide (key = "title") && value.object?.isSome) := by
    intro titleId title
    unfold NodeKind.set?
    by_cases hkey : key = "title"
    · simp only [hkey, if_true, Option.isSome_map, decide_true, Bool.true_and]
    · simp only [hkey, if_false, Option.isSome_none, decide_false, Bool.false_and]
  cases kind with
  | view => cases other <;> first | rfl | cases htype
  | imageView => cases other <;> first | rfl | cases htype
  | label text =>
    cases other with
    | label text' => rw [hlabel, hlabel]
    | _ => cases htype
  | button titleId title =>
    cases other with
    | button titleId' title' => rw [hbutton, hbutton]
    | _ => cases htype

/-- A property fits a node if it fits its kind or its view. -/
theorem Node.isSome_setProperty? (level : Nat) (node : Node) (key : String) (value : Json) :
    (node.setProperty? level key value).isSome =
      ((node.kind.set? level key value).isSome || (node.view.set? key value).isSome) := by
  unfold Node.setProperty?
  cases node.kind.set? level key value with
  | some kind => rfl
  | none => exact Option.isSome_map

/-- So whether it fits goes by the type as well. -/
theorem Node.isSome_setProperty?_eq {level : Nat} {node other : Node}
    (htype : other.kind.type = node.kind.type) (key : String) (value : Json) :
    (other.setProperty? level key value).isSome = (node.setProperty? level key value).isSome := by
  have hview : (other.view.set? key value).isSome = (node.view.set? key value).isSome := by
    rw [ViewAttributes.set?_eq]
    exact ViewAttributes.independent_table.keywise.fits other.view node.view key value rfl
  rw [Node.isSome_setProperty?, Node.isSome_setProperty?, NodeKind.isSome_set?_eq htype, hview]

/-! ## Titles -/

namespace TextContent

variable {level : Nat}

/-- What there would be to say of a field of a title object. -/
def titleRefusal? (level : Nat) (id : Identifier) (field : String × Json) : Option Diagnostic :=
  if (setTitleField? level {} field.1 field.2).isSome then none
  else some ⟨some id, .propertyUnclaimed ("title." ++ field.1)⟩

/-- The fields of a title object that are accepted. -/
def acceptedFields (level : Nat) (fields : List (String × Json)) : List (String × Json) :=
  fields.filter fun field => (setTitleField? level {} field.1 field.2).isSome

/-- **A title is made of the fields that are accepted**: the others make no
difference to it. -/
theorem setTitle_acceptedFields (content : TextContent) (fields : List (String × Json)) :
    content.setTitle level (acceptedFields level fields) = content.setTitle level fields := by
  unfold setTitle acceptedFields
  rw [List.foldl_filter]
  refine List.foldl_ext _ _ _ fun content field _ => ?_
  have hfits := (keywise_setTitleField? level).fits content {} field.1 field.2 rfl
  cases hset : content.setTitleField? level field.1 field.2 with
  | some changed =>
    rw [hset, Option.isSome_some] at hfits
    rw [if_pos hfits.symm]
  | none =>
    rw [hset, Option.isSome_none] at hfits
    rw [← hfits, if_neg Bool.false_ne_true, Option.getD_none]

/-- A property, and if it is a title what is accepted of it. -/
def acceptedTitle (level : Nat) (property : String × Json) : String × Json :=
  match property.2 with
  | .object fields =>
    if property.1 = "title" then (property.1, .object (acceptedFields level fields)) else property
  | _ => property

end TextContent

/-! ## Properties and layers -/

namespace Engine

variable {engine other : Engine} {idx : NodeIndex} {property : String × Json}

/-- What is said of an image that is asked for: nothing if it is left to the
host or is loaded. -/
def imageRefusal? (engine : Engine) (id : Identifier) (src : String) : Option Diagnostic :=
  if engine.config.mode = .production ∧ isRemote src = true then none
  else
    match engine.images.load src with
    | .ok _ => none
    | .error reason => some ⟨some id, .imageUnavailable src reason⟩

/-- **What there is to say of a property**, if the node does not accept it. -/
def propertyRefusal? (engine : Engine) (idx : NodeIndex) (property : String × Json) :
    Option Diagnostic :=
  (engine.tree.node? idx).bind fun node =>
    match node.kind.imageRequest? property.1 property.2 with
    | some (_, src) => engine.imageRefusal? node.id src
    | none =>
      if (node.setProperty? engine.level property.1 property.2).isSome then none
      else some ⟨some node.id, .propertyUnclaimed property.1⟩

/-- What there is to say of a key of a layer bag. -/
def layerRefusal? (engine : Engine) (idx : NodeIndex) (property : String × Json) :
    Option Diagnostic :=
  (engine.tree.node? idx).bind fun node =>
    if (node.setLayer? property.1 property.2).isSome then none
    else some ⟨some node.id, .propertyUnclaimed ("layer." ++ property.1)⟩

theorem snd_requestImage (engine : Engine) (idx : NodeIndex) (id : Identifier) (slot : ImageSlot)
    (src : String) :
    (engine.requestImage idx id slot src).2 = (engine.imageRefusal? id src).toList := by
  unfold requestImage imageRefusal? ImageLoader.load
  cases hremote : isRemote src with
  | false =>
    simp only [Bool.false_eq_true, if_false, and_false]
    cases engine.images.named? src <;> rfl
  | true =>
    cases hmode : engine.config.mode with
    | production => simp only [if_true, and_self, Option.toList_none]
    | development =>
      simp only [if_true, and_true, reduceCtorEq, if_false]
      cases engine.images.fetch src <;> rfl

/-- **A property is accepted, or one thing is said of it.** -/
theorem snd_applyProperty (engine : Engine) (property : String × Json) :
    (applyProperty idx engine property).2 = (engine.propertyRefusal? idx property).toList := by
  unfold applyProperty propertyRefusal?
  cases engine.tree.node? idx with
  | none => rfl
  | some node =>
    cases hrequest : node.kind.imageRequest? property.1 property.2 with
    | some request =>
      simp only [Option.bind_some, hrequest]
      exact snd_requestImage engine idx node.id request.1 request.2
    | none =>
      simp only [Option.bind_some, hrequest]
      cases node.setProperty? engine.level property.1 property.2 <;> rfl

theorem snd_applyLayerKey (engine : Engine) (property : String × Json) :
    (applyLayerKey idx engine property).2 = (engine.layerRefusal? idx property).toList := by
  unfold applyLayerKey layerRefusal?
  cases engine.tree.node? idx with
  | none => rfl
  | some node =>
    simp only [Option.bind_some]
    cases node.setLayer? property.1 property.2 <;> rfl

/-- An image that is wanted at once and cannot be loaded is not stored. -/
theorem fst_requestImage_of_refused {id : Identifier} {slot : ImageSlot} {src : String}
    {d : Diagnostic} (h : engine.imageRefusal? id src = some d) :
    (engine.requestImage idx id slot src).1 = engine := by
  unfold imageRefusal? at h
  split at h
  · cases h
  · rename_i hwanted
    unfold requestImage
    unfold ImageLoader.load at h
    cases hremote : isRemote src with
    | false =>
      simp only [hremote, Bool.false_eq_true, if_false] at h ⊢
      cases hnamed : engine.images.named? src with
      | none => rfl
      | some content =>
        rw [hnamed] at h
        cases h
    | true =>
      simp only [hremote, if_true] at h ⊢
      cases hmode : engine.config.mode with
      | production => exact absurd ⟨hmode, hremote⟩ hwanted
      | development =>
        cases hfetch : engine.images.fetch src with
        | error reason => rfl
        | ok content =>
          rw [hfetch] at h
          cases h

/-- **What is not accepted is not stored.** -/
theorem fst_applyProperty_of_refused {d : Diagnostic}
    (h : engine.propertyRefusal? idx property = some d) :
    (applyProperty idx engine property).1 = engine := by
  unfold propertyRefusal? at h
  unfold applyProperty
  cases hnode : engine.tree.node? idx with
  | none => rfl
  | some node =>
    rw [hnode, Option.bind_some] at h
    cases hrequest : node.kind.imageRequest? property.1 property.2 with
    | some request =>
      simp only [hrequest] at h ⊢
      exact fst_requestImage_of_refused h
    | none =>
      simp only [hrequest] at h ⊢
      cases hset : node.setProperty? engine.level property.1 property.2 with
      | none => rfl
      | some changed =>
        rw [hset] at h
        cases h

theorem fst_applyLayerKey_of_refused {d : Diagnostic}
    (h : engine.layerRefusal? idx property = some d) :
    (applyLayerKey idx engine property).1 = engine := by
  unfold layerRefusal? at h
  unfold applyLayerKey
  cases hnode : engine.tree.node? idx with
  | none => rfl
  | some node =>
    rw [hnode, Option.bind_some] at h
    cases hset : node.setLayer? property.1 property.2 with
    | none => simp only [hset]
    | some changed =>
      rw [hset] at h
      cases h

/-- What is accepted depends on the type of the node and on the loader. -/
theorem propertyRefusal?_congr (hconfig : other.config = engine.config)
    (himages : other.images = engine.images)
    (hid : (other.tree.node? idx).map (·.id) = (engine.tree.node? idx).map (·.id))
    (htype : other.tree.typeAt? idx = engine.tree.typeAt? idx) :
    other.propertyRefusal? idx = engine.propertyRefusal? idx := by
  funext property
  unfold Tree.typeAt? at htype
  unfold propertyRefusal? imageRefusal? level
  rw [hconfig, himages]
  cases hnode : engine.tree.node? idx with
  | none =>
    rw [hnode, Option.map_none, Option.map_eq_none_iff] at hid
    rw [hid]
  | some node =>
    rw [hnode] at hid htype
    obtain ⟨node', hnode', hid'⟩ := Option.map_eq_some_iff.1 hid
    rw [hnode'] at htype ⊢
    have htype' : node'.kind.type = node.kind.type := Option.some.inj htype
    simp only [Option.bind_some, NodeKind.imageRequest?_congr htype',
      Node.isSome_setProperty?_eq htype', hid']

theorem layerRefusal?_congr
    (hid : (other.tree.node? idx).map (·.id) = (engine.tree.node? idx).map (·.id)) :
    other.layerRefusal? idx = engine.layerRefusal? idx := by
  have heq : ∀ (engine : Engine) property, engine.layerRefusal? idx property =
      ((engine.tree.node? idx).map (·.id)).bind fun id =>
        if ((LayerAttributes.set? {} property.1 property.2)).isSome then none
        else some ⟨some id, .propertyUnclaimed ("layer." ++ property.1)⟩ := by
    intro engine property
    unfold layerRefusal?
    cases engine.tree.node? idx with
    | none => rfl
    | some node =>
      have hfits := keywise_setLayer.fits node.layer {} property.1 property.2 rfl
      simp only [Option.bind_some, Option.map_some, Node.setLayer?, Option.isSome_map, hfits]
  funext property
  rw [heq, heq, hid]

/-- So no property changes what is accepted, and no key of a layer. -/
theorem propertyRefusal?_applyProperty (engine : Engine) (property : String × Json) :
    (applyProperty idx engine property).1.propertyRefusal? idx = engine.propertyRefusal? idx := by
  have hedited : Edited idx engine (applyProperty idx engine property).1 :=
    edited_applyProperty engine property
  exact propertyRefusal?_congr hedited.config hedited.images (hedited.tree.sameShape.id idx)
    (typeAt?_applyProperty engine property idx)

theorem layerRefusal?_applyLayerKey (engine : Engine) (property : String × Json) :
    (applyLayerKey idx engine property).1.layerRefusal? idx = engine.layerRefusal? idx :=
  layerRefusal?_congr ((edited_applyLayerKey engine property).tree.sameShape.id idx)

/-- **Of a bag of properties each one that is not accepted is reported.** -/
theorem snd_applyProperties (engine : Engine) (idx : NodeIndex) (bag : List (String × Json)) :
    (engine.applyProperties idx bag).2 = bag.filterMap (engine.propertyRefusal? idx) := by
  refine Diagnostic.collect_snd snd_applyProperty (fun engine property other => ?_) engine bag
  exact congrFun (propertyRefusal?_applyProperty engine property) other

/-- And so is each key of a layer bag. -/
theorem snd_applyLayer (engine : Engine) (idx : NodeIndex) (bag : List (String × Json)) :
    (engine.applyLayer idx bag).2 = bag.filterMap (engine.layerRefusal? idx) := by
  refine Diagnostic.collect_snd snd_applyLayerKey (fun engine property other => ?_) engine bag
  exact congrFun (layerRefusal?_applyLayerKey engine property) other

/-- A title does not need the fields that are not accepted, and no other
property has fields of its own. -/
theorem applyProperty_acceptedTitle (engine : Engine) (property : String × Json) :
    applyProperty idx engine (TextContent.acceptedTitle engine.level property) =
      applyProperty idx engine property := by
  obtain ⟨key, value⟩ := property
  unfold TextContent.acceptedTitle
  cases value with
  | object fields =>
    by_cases hkey : key = "title"
    · subst hkey
      have hrequest : ∀ (node : Node) value, node.kind.imageRequest? "title" value = none := by
        intro node value
        have hslot : ImageSlot.ofKey? "title" = none := by simp only [ImageSlot.ofKey?]; decide
        unfold NodeKind.imageRequest?
        rw [hslot]
        cases node.kind <;> rfl
      have hset : ∀ node : Node, node.setProperty? engine.level "title"
          (.object (TextContent.acceptedFields engine.level fields)) =
            node.setProperty? engine.level "title" (.object fields) := by
        intro node
        unfold Node.setProperty?
        cases node.kind with
        | button titleId title =>
          simp only [NodeKind.set?, if_true, Json.object?, Option.map_some,
            TextContent.setTitle_acceptedFields]
        | _ => simp [NodeKind.set?, TextContent.setProperty?, ViewAttributes.set?]
      unfold applyProperty
      cases engine.tree.node? idx with
      | none => rfl
      | some node => simp only [if_true, hrequest, hset]
    · simp only [if_neg hkey]
  | _ => rfl

theorem applyProperties_acceptedTitle (engine : Engine) (bag : List (String × Json)) :
    engine.applyProperties idx (bag.map (TextContent.acceptedTitle engine.level)) =
      engine.applyProperties idx bag := by
  unfold applyProperties
  induction bag generalizing engine with
  | nil => rfl
  | cons property rest ih =>
    -- a property leaves the level alone, so the rest is cut down the same way
    have hlevel : (applyProperty idx engine property).1.level = engine.level :=
      congrArg (fun config => config.platformLevel.toNat)
        (edited_applyProperty engine property).config
    have hrest := ih (applyProperty idx engine property).1
    rw [hlevel] at hrest
    rw [List.map_cons, Diagnostic.collect_cons, Diagnostic.collect_cons,
      applyProperty_acceptedTitle, hrest]

/-- **What is accepted of a bag of properties.** -/
def acceptedProperties (engine : Engine) (idx : NodeIndex) (bag : List (String × Json)) :
    List (String × Json) :=
  (bag.filter fun property => (engine.propertyRefusal? idx property).isNone).map
    (TextContent.acceptedTitle engine.level)

/-- What is accepted of a layer bag. -/
def acceptedLayer (engine : Engine) (idx : NodeIndex) (bag : List (String × Json)) :
    List (String × Json) :=
  bag.filter fun property => (engine.layerRefusal? idx property).isNone

theorem fst_applyProperties_accepted (engine : Engine) (idx : NodeIndex)
    (bag : List (String × Json)) :
    (engine.applyProperties idx (engine.acceptedProperties idx bag)).1 =
      (engine.applyProperties idx bag).1 := by
  unfold acceptedProperties
  rw [applyProperties_acceptedTitle]
  refine Diagnostic.collect_filter (fun _ _ _ => fst_applyProperty_of_refused)
    (fun engine property other => ?_) engine bag
  exact congrFun (propertyRefusal?_applyProperty engine property) other

theorem fst_applyLayer_accepted (engine : Engine) (idx : NodeIndex)
    (bag : List (String × Json)) :
    (engine.applyLayer idx (engine.acceptedLayer idx bag)).1 = (engine.applyLayer idx bag).1 := by
  refine Diagnostic.collect_filter (fun _ _ _ => fst_applyLayerKey_of_refused)
    (fun engine property other => ?_) engine bag
  exact congrFun (layerRefusal?_applyLayerKey engine property) other

/-- An entry with what is accepted of the look it gives its node. -/
def acceptedLook (engine : Engine) (idx : NodeIndex) (view : ViewChange) : ViewChange :=
  { view with
    properties := view.properties.map (engine.acceptedProperties idx)
    layer := view.layer.map (engine.acceptedLayer idx) }

/-- **What is not accepted of a look can be left out.** -/
theorem fst_applyContent_accepted (engine : Engine) (idx : NodeIndex) (modify : Bool)
    (view : ViewChange) :
    (engine.applyContent idx modify (engine.acceptedLook idx view)).1 =
      (engine.applyContent idx modify view).1 := by
  have hedited : Edited idx engine (engine.applyProperties idx (view.properties.getD [])).1 :=
    edited_applyProperties engine _
  have hproperties : (engine.applyProperties idx
      ((view.properties.map (engine.acceptedProperties idx)).getD [])).1 =
        (engine.applyProperties idx (view.properties.getD [])).1 := by
    cases view.properties with
    | none => rfl
    | some bag => exact engine.fst_applyProperties_accepted idx bag
  -- the properties have no part in what is accepted of the layer
  have hlayer : ((engine.applyProperties idx (view.properties.getD [])).1.applyLayer idx
      ((view.layer.map (engine.acceptedLayer idx)).getD [])).1 =
        ((engine.applyProperties idx (view.properties.getD [])).1.applyLayer idx
          (view.layer.getD [])).1 := by
    have haccepted : engine.acceptedLayer idx =
        (engine.applyProperties idx (view.properties.getD [])).1.acceptedLayer idx := by
      unfold acceptedLayer
      rw [layerRefusal?_congr (hedited.tree.sameShape.id idx)]
    rw [haccepted]
    cases view.layer with
    | none => rfl
    | some bag => exact fst_applyLayer_accepted _ idx bag
  have hstyled : engine.styled idx (engine.acceptedLook idx view) = engine.styled idx view := by
    unfold styled acceptedLook
    rw [hproperties, hlayer]
  rw [applyContent_eq, applyContent_eq, hstyled]
  rfl

/-- **What the content of an entry says**: of its properties and its layer
what is not accepted, and then what there is to say of its constraints. -/
theorem snd_applyContent (engine : Engine) (idx : NodeIndex) (modify : Bool) (view : ViewChange) :
    ∃ said, (engine.applyContent idx modify view).2 =
        (view.properties.getD []).filterMap (engine.propertyRefusal? idx) ++
          (view.layer.getD []).filterMap (engine.layerRefusal? idx) ++ said ∧
      (view.constraints = none → said = []) := by
  have hedited : Edited idx engine (engine.applyProperties idx (view.properties.getD [])).1 :=
    edited_applyProperties engine _
  have hlayer : ((engine.applyProperties idx (view.properties.getD [])).1.applyLayer idx
      (view.layer.getD [])).2 = (view.layer.getD []).filterMap (engine.layerRefusal? idx) := by
    rw [snd_applyLayer, layerRefusal?_congr (hedited.tree.sameShape.id idx)]
  unfold applyContent
  cases view.constraints with
  | none =>
    refine ⟨[], ?_, fun _ => rfl⟩
    simp only [snd_applyProperties, hlayer, List.append_nil]
  | some field =>
    refine ⟨((engine.styled idx view).tree.applyConstraints (engine.styled idx view).registry idx
      modify field).2, ?_, nofun⟩
    unfold styled
    simp only [snd_applyProperties, hlayer]

end Engine

/-! ## Frames -/

namespace Frame

variable {frame : Frame} {name other : String} {x : Binary64} {field : String × Json}
variable {fields : List (String × Json)}

/-- What there would be to say of a member of a new node's frame object: it
is no field, or its value is no number. -/
def literalRefusal? (id : Identifier) (field : String × Json) : Option Diagnostic :=
  if (zero.get? field.1).isNone ∨ field.2.double?.isNone then
    some ⟨some id, .propertyUnclaimed ("frame." ++ field.1)⟩
  else none

/-- The fields of a frame. -/
theorem isSome_get? (frame : Frame) (name : String) :
    (frame.get? name).isSome = true ↔ name ∈ ["x", "y", "width", "height"] := by
  unfold get?
  simp only [List.mem_cons, List.not_mem_nil, or_false]
  split
  · simp only [Option.isSome_some, true_or, *]
  · split
    · simp only [Option.isSome_some, true_or, or_true, *]
    · split
      · simp only [Option.isSome_some, true_or, or_true, *]
      · split
        · simp only [Option.isSome_some, or_true, *]
        · simp only [Option.isSome_none, Bool.false_eq_true, or_self, *]

theorem get?_getD_set?_of_ne (hne : other ≠ name) :
    ((frame.set? name x).getD frame).get? other = frame.get? other := by
  cases hset : frame.set? name x with
  | none => rfl
  | some changed => rw [Option.getD_some, get?_set? hset, if_neg hne]

theorem get?_getD_set?_self (hknown : (frame.get? name).isSome = true) :
    ((frame.set? name x).getD frame).get? name = some x := by
  rw [← isSome_set? frame name x] at hknown
  obtain ⟨changed, hset⟩ := Option.isSome_iff_exists.1 hknown
  rw [hset, Option.getD_some, get?_set? hset, if_pos rfl]

/-- **Fields put one after another** each keep their value, as long as no
field is put twice and each step leaves the other fields alone. -/
theorem get?_foldl {put : Frame → String × Json → Frame}
    (hother : ∀ frame field other, other ≠ field.1 →
      (put frame field).get? other = frame.get? other)
    (hkeys : (fields.map (·.1)).Nodup) (hfield : field ∈ fields)
    (hput : ∀ frame, (put frame field).get? field.1 = some x) :
    (fields.foldl put frame).get? field.1 = some x := by
  -- once the field is put, the rest of the list leaves it alone
  have hrest : ∀ (rest : List (String × Json)) (frame : Frame), field.1 ∉ rest.map (·.1) →
      (rest.foldl put frame).get? field.1 = frame.get? field.1 := by
    intro rest
    induction rest with
    | nil => exact fun _ _ => rfl
    | cons g rest ih =>
      intro frame hnotin
      rw [List.map_cons, List.mem_cons, not_or] at hnotin
      rw [List.foldl_cons, ih _ hnotin.2, hother _ _ _ hnotin.1]
  induction fields generalizing frame with
  | nil => cases hfield
  | cons g rest ih =>
    obtain ⟨hnotin, hnodup⟩ := List.nodup_cons.1 hkeys
    rcases List.mem_cons.1 hfield with rfl | hfield
    · rw [List.foldl_cons, hrest rest _ hnotin]
      exact hput frame
    · exact ih hnodup hfield

/-- A new node's frame holds every field that is accepted. -/
theorem get?_ofNumbers {id : Identifier} (hkeys : (fields.map (·.1)).Nodup)
    (hfield : field ∈ fields) (haccepted : literalRefusal? id field = none) :
    ∃ x, field.2.double? = some x ∧ (ofNumbers fields).get? field.1 = some x := by
  unfold literalRefusal? at haccepted
  split at haccepted
  · cases haccepted
  · rename_i hnot
    rw [not_or, Option.isNone_iff_eq_none, Option.isNone_iff_eq_none] at hnot
    obtain ⟨x, hx⟩ := Option.ne_none_iff_exists'.1 hnot.2
    refine ⟨x, hx, get?_foldl (fun frame g other hne => ?_) hkeys hfield fun frame => ?_⟩
    · cases hg : g.2.double? with
      | none => rfl
      | some y => exact get?_getD_set?_of_ne hne
    · rw [hx]
      refine get?_getD_set?_self ?_
      rw [isSome_get?, ← isSome_get? zero]
      exact Option.isSome_iff_ne_none.2 hnot.1

/-- And is made of these fields. -/
theorem ofNumbers_filter (id : Identifier) (fields : List (String × Json)) :
    ofNumbers (fields.filter fun field => (literalRefusal? id field).isNone) =
      ofNumbers fields := by
  unfold ofNumbers
  rw [List.foldl_filter]
  refine List.foldl_ext _ _ _ fun frame field _ => ?_
  unfold literalRefusal?
  split
  · rename_i hrefused
    rw [Option.isNone_some, if_neg Bool.false_ne_true]
    -- nothing is put: there is no such field, or no number for it
    rcases hrefused with hunknown | hnumber
    · have hset : ∀ x, frame.set? field.1 x = none := by
        intro x
        rw [← isNone_get?_eq frame, Option.isNone_iff_eq_none] at hunknown
        rw [← Option.not_isSome_iff_eq_none, isSome_set?, hunknown]
        exact Bool.false_ne_true
      cases field.2.double? with
      | none => rfl
      | some x => rw [Option.bind_some, hset, Option.getD_none]
    · rw [Option.isNone_iff_eq_none.1 hnumber]
      rfl
  · rfl

end Frame

namespace Tree

variable {tree other : Tree} {registry : Registry} {idx : NodeIndex} {id : Identifier}
variable {field : String × Json} {fields : List (String × Json)}

/-- **What there is to say of a member of a frame object**, if it is not
accepted: it is no field, or its value comes to no number. -/
def fieldRefusal? (tree : Tree) (registry : Registry) (idx : NodeIndex) (id : Identifier)
    (field : String × Json) : Option Diagnostic :=
  if (Frame.zero.get? field.1).isNone then
    some ⟨some id, .propertyUnclaimed ("frame." ++ field.1)⟩
  else
    match tree.fieldValue registry idx field with
    | .ok _ => none
    | .error cause => some ⟨some id, cause⟩

theorem snd_applyField (frame : Frame) (field : String × Json) :
    (tree.applyField registry idx id frame field).2 =
      (tree.fieldRefusal? registry idx id field).toList := by
  unfold applyField fieldRefusal?
  rw [Frame.isNone_get?_eq frame .zero]
  split
  · rfl
  · cases tree.fieldValue registry idx field <;> rfl

theorem get?_applyField_of_ne (frame : Frame) (field : String × Json) (name : String)
    (hne : name ≠ field.1) :
    (tree.applyField registry idx id frame field).1.get? name = frame.get? name := by
  unfold applyField
  split
  · rfl
  · cases tree.fieldValue registry idx field with
    | error cause => rfl
    | ok x => exact Frame.get?_getD_set?_of_ne hne

/-- A member that is accepted is put. -/
theorem get?_applyField (haccepted : tree.fieldRefusal? registry idx id field = none) :
    ∃ x, tree.fieldValue registry idx field = .ok x ∧
      ∀ frame, (tree.applyField registry idx id frame field).1.get? field.1 = some x := by
  unfold fieldRefusal? at haccepted
  split at haccepted
  · cases haccepted
  · rename_i hknown
    cases hvalue : tree.fieldValue registry idx field with
    | error cause =>
      rw [hvalue] at haccepted
      cases haccepted
    | ok x =>
      refine ⟨x, rfl, fun frame => ?_⟩
      have hknown' : ¬(frame.get? field.1).isNone = true := by
        rw [Frame.isNone_get?_eq frame .zero]
        exact hknown
      unfold applyField
      rw [if_neg hknown', hvalue]
      exact Frame.get?_getD_set?_self
        (Option.isSome_iff_ne_none.2 fun hnone => hknown' (Option.isNone_iff_eq_none.2 hnone))

/-- A member that is not accepted is passed over. -/
theorem fst_applyField_of_refused {d : Diagnostic} (frame : Frame)
    (h : tree.fieldRefusal? registry idx id field = some d) :
    (tree.applyField registry idx id frame field).1 = frame := by
  unfold fieldRefusal? at h
  unfold applyField
  rw [Frame.isNone_get?_eq frame .zero]
  split
  · rfl
  · rename_i hknown
    rw [if_neg hknown] at h
    cases hvalue : tree.fieldValue registry idx field with
    | error cause => rfl
    | ok x =>
      rw [hvalue] at h
      cases h

/-- **Values of fields do not depend on looks or constraints**, but on the
frames of the tree and its shape. -/
theorem fieldValue_congr (hshape : tree.SameShape other) (hframes : tree.Reads (·.frame) other) :
    other.fieldValue registry idx = tree.fieldValue registry idx := by
  have hget : ∀ (t : Tree) n name, ((t.node? n).bind fun node => node.frame.get? name) =
      ((t.node? n).map (·.frame)).bind fun frame => frame.get? name := by
    intro t n name
    rw [Option.bind_map]
    rfl
  funext field
  unfold fieldValue frameValue
  simp only [hshape.resolve?_eq, hget, hframes _]

theorem fieldRefusal?_congr (hshape : tree.SameShape other)
    (hframes : tree.Reads (·.frame) other) :
    other.fieldRefusal? registry idx id = tree.fieldRefusal? registry idx id := by
  funext field
  unfold fieldRefusal?
  rw [fieldValue_congr hshape hframes]

/-- Each member of a frame object that is not accepted is reported. -/
theorem snd_applyFrame {node : Node} (hnode : tree.node? idx = some node)
    (fields : List (String × Json)) :
    (tree.applyFrame registry idx fields).2 =
      fields.filterMap (tree.fieldRefusal? registry idx node.id) := by
  rw [applyFrame_of_node? hnode]
  exact Diagnostic.collect_snd snd_applyField (fun _ _ _ => rfl) node.frame fields

/-- **A frame object is put member by member**: each one that is accepted is
in the node's frame afterwards. -/
theorem applyFrame_of_fields {node : Node} (hnode : tree.node? idx = some node)
    (hkeys : (fields.map (·.1)).Nodup) :
    ∃ frame, ((tree.applyFrame registry idx fields).1.node? idx).map (·.frame) = some frame ∧
      ∀ field ∈ fields, tree.fieldRefusal? registry idx node.id field = none →
        ∃ x, tree.fieldValue registry idx field = .ok x ∧ frame.get? field.1 = some x := by
  rw [applyFrame_of_node? hnode]
  refine ⟨(Diagnostic.collect (tree.applyField registry idx node.id) node.frame fields).1, ?_,
    fun field hfield haccepted => ?_⟩
  · rw [node?_modifyNode, if_pos rfl, hnode]
    rfl
  · obtain ⟨x, hvalue, hput⟩ := get?_applyField haccepted
    refine ⟨x, hvalue, ?_⟩
    show (Diagnostic.collect _ node.frame fields).1.get? field.1 = some x
    rw [Diagnostic.collect_fst]
    exact Frame.get?_foldl get?_applyField_of_ne hkeys hfield hput

/-- What is not accepted of it can be left out. -/
theorem applyFrame_filter {node : Node} (hnode : tree.node? idx = some node)
    (fields : List (String × Json)) :
    (tree.applyFrame registry idx
        (fields.filter fun field => (tree.fieldRefusal? registry idx node.id field).isNone)).1 =
      (tree.applyFrame registry idx fields).1 := by
  have hframe : (Diagnostic.collect (tree.applyField registry idx node.id) node.frame
      (fields.filter fun field => (tree.fieldRefusal? registry idx node.id field).isNone)).1 =
        (Diagnostic.collect (tree.applyField registry idx node.id) node.frame fields).1 :=
    @Diagnostic.collect_filter _ _ (tree.applyField registry idx node.id)
      (fun _ => tree.fieldRefusal? registry idx node.id)
      (fun frame _ _ => fst_applyField_of_refused frame) (fun _ _ _ => rfl) node.frame fields
  rw [applyFrame_of_node? hnode, applyFrame_of_node? hnode]
  simp only [hframe]

end Tree

end LiveLayout
