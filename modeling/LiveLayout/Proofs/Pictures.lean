import LiveLayout.Proofs.Appearance
import LiveLayout.Proofs.Upkeep
import Mathlib.Data.List.Basic
/-!
# Pictures

The images that image views show. A request names a node, one of its slots
and a source; dealing with it (`Engine.settle`) loads the image and puts it
into the slot, so that a slot shows the last image loaded for it
(`Engine.image?_foldl_settle`). An engine deals with a request at once or
leaves it to the host (`Engine.fst_requestImage`), and a delivery deals with
what was left, in order (`Engine.deliver_eq`).
-/

namespace LiveLayout

/-! ## What nodes show -/

/-- The image in a slot, if the node is an image view and has one. -/
def NodeKind.image? : NodeKind → ImageSlot → Option ImageContent
  | imageView image _, .image => image
  | imageView _ highlighted, .highlightedImage => highlighted
  | _, _ => none

/-- **What decides and shows the images of a node**: its kind of node and
what is in its slots. -/
def Node.pictures (node : Node) : NodeType × (ImageSlot → Option ImageContent) :=
  (node.kind.type, node.kind.image?)

namespace NodeKind

variable {kind changed : NodeKind} {level : Nat} {key : String} {value : Json}

@[simp] theorem type_ofType (type : NodeType) (id : Identifier) : (ofType type id).type = type := by
  cases type <;> rfl

@[simp] theorem image?_ofType (type : NodeType) (id : Identifier) (slot : ImageSlot) :
    (ofType type id).image? slot = none := by
  cases type <;> cases slot <;> rfl

/-- Whether an image is requested depends on the kind of node alone. -/
theorem imageRequest?_congr (h : changed.type = kind.type) :
    changed.imageRequest? key value = kind.imageRequest? key value := by
  have heq : ∀ kind : NodeKind, kind.imageRequest? key value =
      if kind.type = .imageView then
        (ImageSlot.ofKey? key).bind fun slot => (imageSource? value).map (slot, ·)
      else none := by
    intro kind
    unfold imageRequest?
    cases kind <;> cases ImageSlot.ofKey? key <;> cases imageSource? value <;> rfl
  rw [heq, heq, h]

/-- Properties other than images leave the images alone. -/
theorem pictures_of_set? (h : kind.set? level key value = some changed) :
    changed.type = kind.type ∧ changed.image? = kind.image? := by
  cases kind with
  | view => cases h
  | label text =>
    obtain ⟨text, -, rfl⟩ := Option.map_eq_some_iff.1 h
    exact ⟨rfl, rfl⟩
  | button titleId title =>
    simp only [set?] at h
    split at h
    · obtain ⟨fields, -, rfl⟩ := Option.map_eq_some_iff.1 h
      exact ⟨rfl, rfl⟩
    · cases h
  | imageView image highlighted => cases h

end NodeKind

namespace Node

variable {node changed : Node} {level : Nat} {key : String} {value : Json} {slot s : ImageSlot}
variable {content : ImageContent}

theorem pictures_of_setProperty? (h : node.setProperty? level key value = some changed) :
    changed.pictures = node.pictures := by
  unfold setProperty? at h
  split at h
  · rename_i kind hkind
    cases h
    obtain ⟨htype, himage⟩ := NodeKind.pictures_of_set? hkind
    exact Prod.ext htype himage
  · obtain ⟨view, -, rfl⟩ := Option.map_eq_some_iff.1 h
    rfl

theorem pictures_of_setLayer? (h : node.setLayer? key value = some changed) :
    changed.pictures = node.pictures := by
  obtain ⟨layer, -, rfl⟩ := Option.map_eq_some_iff.1 h
  rfl

theorem beside_pictures : Beside pictures := ⟨fun _ _ => rfl, fun _ _ => rfl, fun _ _ => rfl⟩

theorem type_setImage : (node.setImage slot content).kind.type = node.kind.type := by
  obtain ⟨_, kind, _⟩ := node
  cases kind <;> cases slot <;> rfl

/-- An image view shows the image it is given, in the slot it is given
for. -/
theorem image?_setImage (h : node.kind.type = .imageView) :
    (node.setImage slot content).kind.image? s =
      if slot = s then some content else node.kind.image? s := by
  obtain ⟨_, kind, _⟩ := node
  cases kind with
  | imageView image highlighted => cases slot <;> cases s <;> rfl
  | _ => cases h

end Node

/-! ## What is loaded for a slot -/

/-- **What was loaded for a slot** of all that was requested, in order. What
could not be loaded does not count. -/
def ImageLoader.loads (images : ImageLoader) (n : NodeIndex) (slot : ImageSlot)
    (log : List PendingImage) : List ImageContent :=
  log.filterMap fun r =>
    if r.node = n ∧ r.slot = slot then (images.load r.src).toOption else Option.none

/-- **A request is dealt with at once** in development, and otherwise if it
is not remote. -/
def PendingImage.atOnce (mode : EngineMode) (r : PendingImage) : Bool :=
  mode = .development || !isRemote r.src

namespace ImageLoader

variable {images : ImageLoader} {n : NodeIndex} {slot : ImageSlot} {log : List PendingImage}
variable {src : String} {content : ImageContent}

theorem src_of_load (h : images.load src = .ok content) : content.src = src := by
  unfold load at h
  split at h
  · cases hfetch : images.fetch src with
    | error reason =>
      rw [hfetch] at h
      cases h
    | ok fetched =>
      rw [hfetch] at h
      cases h
      rfl
  · split at h
    · cases h
      rfl
    · cases h

theorem loads_append (log later : List PendingImage) :
    images.loads n slot (log ++ later) = images.loads n slot log ++ images.loads n slot later :=
  List.filterMap_append

theorem loads_singleton (r : PendingImage) :
    images.loads n slot [r] =
      if r.node = n ∧ r.slot = slot then (images.load r.src).toOption.toList else [] := by
  unfold loads
  rw [List.filterMap_cons, List.filterMap_nil]
  by_cases hslot : r.node = n ∧ r.slot = slot
  · rw [if_pos hslot, if_pos hslot]
    cases images.load r.src <;> rfl
  · rw [if_neg hslot, if_neg hslot]

/-- **An image tells by its source** whether it was requested from there. -/
theorem loads_filter (p : String → Bool) :
    images.loads n slot (log.filter fun r => p r.src) =
      (images.loads n slot log).filter fun content => p content.src := by
  unfold loads
  rw [List.filterMap_filter, List.filter_filterMap]
  refine List.filterMap_congr fun r _ => ?_
  by_cases hslot : r.node = n ∧ r.slot = slot
  · rw [if_pos hslot]
    cases hload : images.load r.src with
    | error reason =>
      split <;> rfl
    | ok content =>
      have hsrc := src_of_load hload
      simp only [Except.toOption, Option.filter, hsrc]
  · rw [if_neg hslot]
    split <;> rfl

end ImageLoader

/-! ## Requests and pictures in a tree -/

namespace Tree

variable {tree other : Tree} {idx n : NodeIndex} {slot : ImageSlot}

/-- The kind of a node, if it is there. -/
def typeAt? (tree : Tree) (n : NodeIndex) : Option NodeType :=
  (tree.node? n).map (·.kind.type)

/-- **The image that a slot of a node shows.** -/
def image? (tree : Tree) (n : NodeIndex) (slot : ImageSlot) : Option ImageContent :=
  (tree.node? n).bind fun node => node.kind.image? slot

/-- **The images that a bag of properties asks for**, on a node of the
tree. -/
def requested (tree : Tree) (idx : NodeIndex) (bag : List (String × Json)) : List PendingImage :=
  match tree.node? idx with
  | none => []
  | some node =>
    bag.filterMap fun property =>
      (node.kind.imageRequest? property.1 property.2).map fun request =>
        ⟨idx, request.1, request.2⟩

theorem typeAt?_eq_pictures (tree : Tree) (n : NodeIndex) :
    tree.typeAt? n = ((tree.node? n).map Node.pictures).map (·.1) := by
  rw [Option.map_map]
  rfl

theorem image?_eq_pictures (tree : Tree) (n : NodeIndex) (slot : ImageSlot) :
    tree.image? n slot =
      ((tree.node? n).map Node.pictures).bind fun pictures => pictures.2 slot := by
  rw [Option.bind_map]
  rfl

theorem Reads.typeAt?_eq (h : tree.Reads Node.pictures other) (n : NodeIndex) :
    other.typeAt? n = tree.typeAt? n := by
  rw [typeAt?_eq_pictures, typeAt?_eq_pictures, h n]

theorem Reads.image?_eq (h : tree.Reads Node.pictures other) (n : NodeIndex) (slot : ImageSlot) :
    other.image? n slot = tree.image? n slot := by
  rw [image?_eq_pictures, image?_eq_pictures, h n]

theorem isSome_typeAt? : (tree.typeAt? n).isSome = true ↔ n < tree.size := by
  unfold typeAt?
  rw [Option.isSome_map, isSome_node?]

/-- What a bag asks for depends on the kind of the node alone. -/
theorem requested_congr (h : other.typeAt? idx = tree.typeAt? idx) (bag : List (String × Json)) :
    other.requested idx bag = tree.requested idx bag := by
  unfold typeAt? at h
  unfold requested
  cases hn : tree.node? idx with
  | none =>
    rw [hn, Option.map_none, Option.map_eq_none_iff] at h
    rw [h]
  | some node =>
    rw [hn, Option.map_some] at h
    obtain ⟨other, hother, htype⟩ := Option.map_eq_some_iff.1 h
    rw [hother]
    exact List.filterMap_congr fun property _ => by rw [NodeKind.imageRequest?_congr htype]

theorem requested_nil : tree.requested idx [] = [] := by
  unfold requested
  cases tree.node? idx <;> rfl

theorem requested_cons (property : String × Json) (rest : List (String × Json)) :
    tree.requested idx (property :: rest) =
      tree.requested idx [property] ++ tree.requested idx rest := by
  unfold requested
  cases tree.node? idx with
  | none => rfl
  | some node => exact List.filterMap_append (l := [property])

/-- The new node is of its kind, the others are of theirs. -/
theorem typeAt?_insertChild (parent : NodeIndex) (node : Node) (position : Option Nat) :
    (tree.insertChild parent node position).typeAt? n =
      if n = tree.size then some node.kind.type else tree.typeAt? n := by
  rw [typeAt?_eq_pictures, typeAt?_eq_pictures,
    map_node?_insertChild (fun _ _ => rfl) fun _ _ => rfl]
  split <;> rfl

/-- A new node without images shows what no node showed there before. -/
theorem image?_insertChild (parent : NodeIndex) {node : Node} (position : Option Nat)
    (hnode : ∀ slot, node.kind.image? slot = none) :
    (tree.insertChild parent node position).image? n slot = tree.image? n slot := by
  rw [image?_eq_pictures, image?_eq_pictures,
    map_node?_insertChild (fun _ _ => rfl) fun _ _ => rfl]
  split
  · rename_i heq
    subst heq
    rw [node?_size]
    exact hnode slot
  · rfl

end Tree

/-! ## What an engine shows -/

namespace Engine

variable {engine : Engine} {pending : List PendingImage} {r : PendingImage}

/-- **A request dealt with**: the image is loaded and shown, if it can be
loaded. -/
def settle (engine : Engine) (r : PendingImage) : Engine :=
  match engine.images.load r.src with
  | .ok content => engine.storeImage r.node r.slot content
  | .error _ => engine

/-- **The pending fetches delivered** by the host, one after the other, each
with what the loader makes of it under the source it was requested by. -/
def deliver (engine : Engine) : Engine :=
  engine.takePending.1.foldl
    (fun engine r =>
      engine.completeImage r ((engine.images.fetch r.src).map fun content =>
        { content with src := r.src }))
    engine.takePending.2

theorem images_settle (r : PendingImage) : (engine.settle r).images = engine.images := by
  unfold settle
  split <;> rfl

theorem config_settle (r : PendingImage) : (engine.settle r).config = engine.config := by
  unfold settle
  split <;> rfl

theorem pending_settle (r : PendingImage) : (engine.settle r).pending = engine.pending := by
  unfold settle
  split <;> rfl

theorem typeAt?_settle (r : PendingImage) (n : NodeIndex) :
    (engine.settle r).tree.typeAt? n = engine.tree.typeAt? n := by
  unfold settle
  split
  · exact Tree.map_node?_modifyNode _ (fun _ => Node.type_setImage) r.node n
  · rfl

/-- **What a slot shows after a request is dealt with**: the image loaded for
it, or what it showed. -/
theorem image?_settle (h : engine.tree.typeAt? r.node = some .imageView) (n : NodeIndex)
    (slot : ImageSlot) :
    (engine.settle r).tree.image? n slot =
      (engine.images.loads n slot [r]).getLast?.or (engine.tree.image? n slot) := by
  obtain ⟨node, hnode, htype⟩ := Option.map_eq_some_iff.1 h
  unfold settle
  rw [ImageLoader.loads_singleton]
  cases engine.images.load r.src with
  | error reason =>
    show engine.tree.image? n slot = _
    split <;> rfl
  | ok content =>
    show (engine.tree.modifyNode r.node fun node => node.setImage r.slot content).image? n slot = _
    unfold Tree.image?
    rw [Tree.node?_modifyNode]
    by_cases hn : r.node = n
    · subst hn
      rw [if_pos rfl, hnode, Option.map_some, Option.bind_some, Option.bind_some,
        Node.image?_setImage htype]
      by_cases hslot : r.slot = slot
      · rw [if_pos hslot, if_pos ⟨rfl, hslot⟩]
        rfl
      · rw [if_neg hslot, if_neg fun hboth => hslot hboth.2]
        rfl
    · rw [if_neg hn, if_neg fun hboth => hn hboth.1]
      rfl

/-- **An image requested** is dealt with at once or left to the host. -/
theorem fst_requestImage (engine : Engine) (idx : NodeIndex) (id : Identifier) (slot : ImageSlot)
    (src : String) :
    (engine.requestImage idx id slot src).1 =
      if PendingImage.atOnce engine.config.mode ⟨idx, slot, src⟩ then
        engine.settle ⟨idx, slot, src⟩
      else { engine with pending := engine.pending ++ [⟨idx, slot, src⟩] } := by
  unfold requestImage settle ImageLoader.load PendingImage.atOnce
  cases isRemote src with
  | false =>
    cases engine.images.named? src with
    | none => simp
    | some content => simp
  | true =>
    cases engine.config.mode with
    | production => simp
    | development => cases engine.images.fetch src <;> simp [Except.map]

/-- What a delivery does to a request for a remote image is to deal with it
after all. -/
theorem completeImage_eq (h : isRemote r.src = true) :
    engine.completeImage r ((engine.images.fetch r.src).map fun content =>
      { content with src := r.src }) = engine.settle r := by
  have hload : engine.images.load r.src = (engine.images.fetch r.src).map fun content =>
      { content with src := r.src } := if_pos h
  unfold settle
  rw [hload]
  cases engine.images.fetch r.src <;> rfl

/-- **Requests dealt with one after the other**: a slot shows the last image
loaded for it, or what it showed. -/
theorem image?_foldl_settle (h : ∀ r ∈ pending, engine.tree.typeAt? r.node = some .imageView)
    (n : NodeIndex) (slot : ImageSlot) :
    (pending.foldl settle engine).tree.image? n slot =
      (engine.images.loads n slot pending).getLast?.or (engine.tree.image? n slot) := by
  induction pending generalizing engine with
  | nil => rfl
  | cons r rest ih =>
    have hr : engine.tree.typeAt? r.node = some .imageView := h r List.mem_cons_self
    have hrest : ∀ later ∈ rest, (engine.settle r).tree.typeAt? later.node = some .imageView := by
      intro later hlater
      rw [typeAt?_settle]
      exact h later (List.mem_cons_of_mem _ hlater)
    have hloads : engine.images.loads n slot (r :: rest) =
        engine.images.loads n slot [r] ++ engine.images.loads n slot rest :=
      ImageLoader.loads_append [r] rest
    rw [List.foldl_cons, ih hrest, images_settle, image?_settle hr, hloads, List.getLast?_append,
      Option.or_assoc]

theorem typeAt?_foldl_settle (pending : List PendingImage) (n : NodeIndex) :
    (pending.foldl settle engine).tree.typeAt? n = engine.tree.typeAt? n := by
  induction pending generalizing engine with
  | nil => rfl
  | cons r rest ih => rw [List.foldl_cons, ih, typeAt?_settle]

/-- A delivery of remote images deals with the requests that were left. -/
theorem deliver_eq (h : ∀ r ∈ engine.pending, isRemote r.src = true) :
    engine.deliver = engine.pending.foldl settle { engine with pending := [] } := by
  unfold deliver takePending
  exact List.foldl_ext _ _ _ fun _ r hr => completeImage_eq (h r hr)

end Engine

end LiveLayout
