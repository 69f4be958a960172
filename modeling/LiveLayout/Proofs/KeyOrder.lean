import LiveLayout.Proofs.Acceptance
import Mathlib.Data.List.Nodup
import Mathlib.Data.List.Perm.Basic
/-!
# Bags, key by key

The order of the keys of a bag is of no account. A key that fits a record
fits it wherever it stands among the others, and what it sets no other key
sets (`Exchanges`), so a bag of different keys makes one record in any order
(`Keywise.foldl_perm`). An engine that a bag is applied to gets the record that
the keys make and the images that they leave to the host, in any mode
(`Engine.fst_applyProperties`); what is said of a key is settled before any of
them is applied.
-/

namespace LiveLayout

/-! ## Single steps -/

namespace Diagnostic

variable {σ α : Type} {step : σ → α → σ × List Diagnostic}

theorem collect_singleton (s : σ) (a : α) : collect step s [a] = step s a :=
  Prod.ext rfl (List.append_nil _)

/-- **A step that is refused says so and does nothing**, and any other says
nothing. -/
theorem collect_alone {s : σ} {a : α} {refusal : Option Diagnostic}
    (hspoken : (step s a).2 = refusal.toList)
    (hskips : ∀ d, refusal = some d → (step s a).1 = s) :
    (collect step s [a]).2 = [] ∨ ∃ d, collect step s [a] = (s, [d]) := by
  rw [collect_singleton]
  cases refusal with
  | none => exact .inl hspoken
  | some d => exact .inr ⟨d, Prod.ext (hskips d rfl) hspoken⟩

end Diagnostic

/-! ## Keys that change places -/

/-- **Two keys of a record that are set in either order**: what the second
one fits in it fits without the first, and both come to the same. -/
def Exchanges {σ : Type} (set? : σ → String → Json → Option σ) : Prop :=
  ∀ s t u key key' value value', key ≠ key' → set? s key value = some t →
    set? t key' value' = some u → ∃ t', set? s key' value' = some t' ∧ set? t' key value = some u

/-- The settings of a table change places, as the settings do. -/
theorem Setting.Independent.exchanges {σ : Type} {table : List (Setting σ)}
    (h : Setting.Independent table) : Exchanges (Setting.put? table) := by
  intro s t u key key' value value' hne ht hu
  obtain ⟨f, hf, rfl, v, rfl, hall⟩ := Setting.put?_eq_some ht
  obtain ⟨g, hg, rfl, w, rfl, hall'⟩ := Setting.put?_eq_some hu
  refine ⟨g.put s w, hall' s, ?_⟩
  rw [hall, h.comm hf hg hne]

/-- A pair of records, each of which is set in any order. -/
theorem Exchanges.orElse {σ τ β : Type} {view : σ → β} {first : σ → String → Json → Option σ}
    {second : τ → String → Json → Option τ} (hkeys : Keywise view first) (h : Exchanges first)
    (h' : Exchanges second) : Exchanges (orElse? first second) := by
  intro s t u key key' value value' hne ht hu
  rcases orElse?_eq_some.1 ht with ⟨hfirst, heq⟩ | ⟨hnone, heq, hsecond⟩ <;>
    rcases orElse?_eq_some.1 hu with ⟨hfirst', heq'⟩ | ⟨hnone', heq', hsecond'⟩
  · obtain ⟨t', ht', hu'⟩ := h _ _ _ _ _ _ _ hne hfirst hfirst'
    exact ⟨(t', s.2), orElse?_eq_some.2 (.inl ⟨ht', rfl⟩),
      orElse?_eq_some.2 (.inl ⟨hu', heq.trans heq'⟩)⟩
  · -- what does not fit the first record did not fit it before
    have hview : view t.1 = view s.1 := hkeys.view_eq _ _ _ _ hfirst
    have hbefore : first s.1 key' value' = none := hkeys.none_of_none hview hnone'
    exact ⟨(s.1, u.2), orElse?_eq_some.2 (.inr ⟨hbefore, rfl, heq ▸ hsecond'⟩),
      orElse?_eq_some.2 (.inl ⟨heq' ▸ hfirst, rfl⟩)⟩
  · have hview : view s.1 = view u.1 :=
      (congrArg view heq).trans (hkeys.view_eq _ _ _ _ hfirst').symm
    have hafter : first u.1 key value = none := hkeys.none_of_none hview hnone
    exact ⟨(u.1, s.2), orElse?_eq_some.2 (.inl ⟨heq ▸ hfirst', rfl⟩),
      orElse?_eq_some.2 (.inr ⟨hafter, rfl, heq' ▸ hsecond⟩)⟩
  · obtain ⟨t', ht', hu'⟩ := h' _ _ _ _ _ _ _ hne hsecond hsecond'
    exact ⟨(s.1, t'), orElse?_eq_some.2 (.inr ⟨heq ▸ hnone', rfl, ht'⟩),
      orElse?_eq_some.2 (.inr ⟨hnone, heq.trans heq', hu'⟩)⟩

/-- Records of several forms, each of which is set in any order. -/
theorem Exchanges.forms {σ ι : Type} {ρ : ι → Type} {set? : σ → String → Json → Option σ}
    {make : ∀ i, ρ i → σ} {part? : ∀ i, ρ i → String → Json → Option (ρ i)}
    (h : ∀ i, Exchanges (part? i)) (hmake : ∀ s, ∃ i r, s = make i r)
    (hset : ∀ i r key value, set? (make i r) key value = (part? i r key value).map (make i)) :
    Exchanges set? := by
  intro s t u key key' value value' hne ht hu
  obtain ⟨i, r, rfl⟩ := hmake s
  rw [hset] at ht
  obtain ⟨r₁, hr₁, rfl⟩ := Option.map_eq_some_iff.1 ht
  rw [hset] at hu
  obtain ⟨r₂, hr₂, rfl⟩ := Option.map_eq_some_iff.1 hu
  obtain ⟨r', hr', hr₂'⟩ := h i _ _ _ _ _ _ _ hne hr₁ hr₂
  refine ⟨make i r', ?_, ?_⟩
  · rw [hset, hr', Option.map_some]
  · rw [hset, hr₂', Option.map_some]

namespace Keywise

variable {σ β : Type} {view : σ → β} {set? : σ → String → Json → Option σ}
variable {refusal : β → String × Json → List Diagnostic} {s : σ} {m m' : String × Json}
variable {bag order : List (String × Json)}

/-- **Members of different keys are taken in either order.** -/
theorem takeMember_comm (hkeys : Keywise view set?) (h : Exchanges set?) (hne : m.1 ≠ m'.1) :
    (takeMember view set? refusal (takeMember view set? refusal s m).1 m').1 =
      (takeMember view set? refusal (takeMember view set? refusal s m').1 m).1 := by
  -- a member that does not fit does not fit after the other one either
  have hnone : ∀ (m m' : String × Json), set? s m.1 m.2 = none →
      (takeMember view set? refusal (takeMember view set? refusal s m').1 m).1 =
        (takeMember view set? refusal s m').1 := by
    intro m m' hm
    have hview : view s = view (takeMember view set? refusal s m').1 :=
      (hkeys.settles.view_eq s m').symm
    rw [takeMember_of_none (hkeys.none_of_none hview hm)]
  cases hm : set? s m.1 m.2 with
  | none => rw [hnone m m' hm, takeMember_of_none hm]
  | some t =>
    cases hm' : set? s m'.1 m'.2 with
    | none => rw [hnone m' m hm', takeMember_of_none hm']
    | some t' =>
      rw [takeMember_of_some hm, takeMember_of_some hm']
      have hfits : (set? t m'.1 m'.2).isSome = true := by
        rw [hkeys.fits t s m'.1 m'.2 (hkeys.view_eq s t m.1 m.2 hm), hm', Option.isSome_some]
      obtain ⟨u, hu⟩ := Option.isSome_iff_exists.1 hfits
      obtain ⟨t'', ht'', hu'⟩ := h s t u _ _ _ _ hne hm hu
      obtain rfl : t' = t'' := Option.some.inj (hm'.symm.trans ht'')
      rw [takeMember_of_some hu, takeMember_of_some hu']

/-- **A bag of different keys makes one record in any order.** -/
theorem collect_perm (hkeys : Keywise view set?) (h : Exchanges set?)
    (hnodup : (bag.map (·.1)).Nodup) (horder : order.Perm bag) (s : σ) :
    (Diagnostic.collect (takeMember view set? refusal) s order).1 =
      (Diagnostic.collect (takeMember view set? refusal) s bag).1 := by
  rw [Diagnostic.collect_fst, Diagnostic.collect_fst]
  refine (horder.symm.foldl_eq' ?_ s).symm
  intro m hm m' hm' s
  by_cases heq : m = m'
  · rw [heq]
  · have hne : m.1 ≠ m'.1 := fun hkey => heq (List.inj_on_of_nodup_map hnodup hm hm' hkey)
    exact hkeys.takeMember_comm h hne

end Keywise

/-! ## The records of a node -/

theorem exchanges_setLayer : Exchanges LayerAttributes.set? := by
  rw [LayerAttributes.set?_eq]
  exact LayerAttributes.independent_table.exchanges

namespace NodeKind

/-- **The properties of every kind of node change places.** A button has one
only. -/
theorem exchanges (level : Nat) (images : ImageLoader) : Exchanges (settle? level images) := by
  have hpart : ∀ type, Exchanges (part? level images type) := by
    intro type
    cases type with
    | view =>
      intro _ _ _ _ _ _ _ _ ht
      cases ht
    | label =>
      have hlabel := (TextContent.independent_properties level).exchanges
      rwa [← TextContent.setProperty?_eq] at hlabel
    | button =>
      intro held _ _ key key' value value' hne ht hu
      have htitle : ∀ {held made : Identifier × TextContent} {key value},
          titled? level held key value = some made → key = "title" := by
        intro held made key value hmade
        unfold titled? at hmade
        split at hmade
        · assumption
        · cases hmade
      exact absurd ((htitle ht).trans (htitle hu).symm) hne
    | imageView => exact (independent_imageTable images).exchanges
  exact Exchanges.forms hpart exists_make settle?_make

/-- A kind with a property set brings the same identifiers. -/
theorem identifiers_of_settle? {level : Nat} {images : ImageLoader} {kind changed : NodeKind}
    {key : String} {value : Json} (h : kind.settle? level images key value = some changed) :
    changed.identifiers = kind.identifiers := by
  obtain ⟨type, held, rfl⟩ := exists_make kind
  rw [settle?_make] at h
  obtain ⟨made, hmade, rfl⟩ := Option.map_eq_some_iff.1 h
  cases type with
  | button =>
    have htitled : titled? level held key value = some made := hmade
    unfold titled? at htitled
    split at htitled
    · obtain ⟨fields, -, rfl⟩ := Option.map_eq_some_iff.1 htitled
      rfl
    · cases htitled
  | _ => rfl

end NodeKind

theorem exchanges_putProperty? (level : Nat) (images : ImageLoader) :
    Exchanges (putProperty? level images) := by
  have hview : Exchanges ViewAttributes.set? := by
    rw [ViewAttributes.set?_eq]
    exact ViewAttributes.independent_table.exchanges
  exact Exchanges.orElse (NodeKind.keywise level images) (NodeKind.exchanges level images) hview

section Look

variable {level : Nat} {images : ImageLoader} {id : Identifier} {bag order : List (String × Json)}

/-- **Properties make one look in any order.** -/
theorem takeProperty_perm (hkeys : (bag.map (·.1)).Nodup) (horder : order.Perm bag)
    (look : NodeKind × ViewAttributes) :
    (Diagnostic.collect (takeProperty level images id) look order).1 =
      (Diagnostic.collect (takeProperty level images id) look bag).1 :=
  (keywise_putProperty? level images).collect_perm (exchanges_putProperty? level images) hkeys
    horder look

/-- And a layer bag makes one layer. -/
theorem takeLayerKey_perm (hkeys : (bag.map (·.1)).Nodup) (horder : order.Perm bag)
    (layer : LayerAttributes) :
    (Diagnostic.collect (takeLayerKey id) layer order).1 =
      (Diagnostic.collect (takeLayerKey id) layer bag).1 :=
  keywise_setLayer.collect_perm exchanges_setLayer hkeys horder layer

/-- Properties leave the kind of node what it is. -/
theorem type_takeProperties (look : NodeKind × ViewAttributes) (bag : List (String × Json)) :
    (Diagnostic.collect (takeProperty level images id) look bag).1.1.type = look.1.type :=
  congrArg (·.1) (keywise_putProperty? level images).settles.view_collect

/-- And the identifiers that it brings. -/
theorem identifiers_takeProperties (look : NodeKind × ViewAttributes)
    (bag : List (String × Json)) :
    (Diagnostic.collect (takeProperty level images id) look bag).1.1.identifiers =
      look.1.identifiers := by
  induction bag generalizing look with
  | nil => rfl
  | cons m rest ih =>
    have hstep : (takeProperty level images id look m).1.1.identifiers = look.1.identifiers := by
      cases hput : putProperty? level images look m.1 m.2 with
      | none => rw [takeProperty, Keywise.takeMember_of_none hput]
      | some changed =>
        rw [takeProperty, Keywise.takeMember_of_some hput]
        rcases orElse?_eq_some.1 hput with ⟨hkind, -⟩ | ⟨-, hkind, -⟩
        · exact NodeKind.identifiers_of_settle? hkind
        · rw [hkind]
    exact (ih (takeProperty level images id look m).1).trans hstep

end Look

/-! ## Engines of either mode -/

/-- **The images that are at hand**: where fetches are left to the host, none
that is remote. -/
def ImageLoader.atHand (images : ImageLoader) : EngineMode → ImageLoader
  | .development => images
  | .production => { images with fetch := ImageLoader.none.fetch }

theorem ImageLoader.load_atHand {images : ImageLoader} {mode : EngineMode} {r : PendingImage}
    (h : r.atOnce mode = true) : (images.atHand mode).load r.src = images.load r.src := by
  cases mode with
  | development => rfl
  | production =>
    have hlocal : isRemote r.src = false := by
      unfold PendingImage.atOnce at h
      simpa using h
    unfold load
    rw [hlocal]
    rfl

/-- What is left to the host is not at hand. -/
theorem ImageLoader.load_atHand_of_later (images : ImageLoader) {mode : EngineMode}
    {r : PendingImage} (h : r.atOnce mode = false) :
    ∃ reason, (images.atHand mode).load r.src = .error reason := by
  unfold PendingImage.atOnce at h
  cases mode with
  | development => cases h
  | production =>
    have hremote : isRemote r.src = true := by simpa using h
    unfold load
    rw [hremote]
    exact ⟨_, rfl⟩

namespace Engine

variable {engine : Engine} {idx : NodeIndex} {node changed : Node} {queue later : List PendingImage}
variable {property : String × Json} {bag order : List (String × Json)}

/-- **A node put in place of another, and fetches left to the host.** -/
def putAsking (engine : Engine) (idx : NodeIndex) (node : Node) (queue : List PendingImage) :
    Engine :=
  { engine.put idx node with pending := engine.pending ++ queue }

theorem putAsking_nil (engine : Engine) (idx : NodeIndex) (node : Node) :
    engine.putAsking idx node [] = engine.put idx node := by
  unfold putAsking
  rw [List.append_nil]
  rfl

theorem putAsking_self (hn : engine.tree.node? idx = some node) (queue : List PendingImage) :
    engine.putAsking idx node queue = { engine with pending := engine.pending ++ queue } := by
  unfold putAsking
  rw [put_self hn]

theorem node?_putAsking (hn : engine.tree.node? idx = some node) (changed : Node)
    (queue : List PendingImage) :
    (engine.putAsking idx changed queue).tree.node? idx = some changed :=
  node?_put hn changed

theorem putAsking_putAsking (engine : Engine) (idx : NodeIndex) (node changed : Node)
    (queue later : List PendingImage) :
    (engine.putAsking idx node queue).putAsking idx changed later =
      engine.putAsking idx changed (queue ++ later) := by
  have htree : ((engine.put idx node).put idx changed).tree = (engine.put idx changed).tree :=
    congrArg (·.tree) (put_put engine idx node changed)
  have hpending : (engine.pending ++ queue) ++ later = engine.pending ++ (queue ++ later) :=
    List.append_assoc _ _ _
  show ({ engine with
    tree := ((engine.put idx node).put idx changed).tree
    pending := (engine.pending ++ queue) ++ later } : Engine) = _
  rw [htree, hpending]
  rfl

/-- The images that a bag leaves to the host. -/
def deferred (engine : Engine) (idx : NodeIndex) (bag : List (String × Json)) :
    List PendingImage :=
  (engine.tree.requested idx bag).filter fun r => !r.atOnce engine.config.mode

/-- The order of a bag is the order of what it leaves to the host. -/
theorem deferred_perm (engine : Engine) (idx : NodeIndex) (h : order.Perm bag) :
    (engine.deferred idx order).Perm (engine.deferred idx bag) := by
  unfold deferred Tree.requested
  cases engine.tree.node? idx with
  | none => exact .refl _
  | some node => exact (h.filterMap _).filter _

/-- **One property in either mode** is put into the look of the node, or left
to the host. -/
theorem fst_applyProperty (hn : engine.tree.node? idx = some node) (property : String × Json) :
    (applyProperty idx engine property).1 =
      engine.putAsking idx
        (node.wear (takeProperty engine.level (engine.images.atHand engine.config.mode) node.id
          node.look property).1)
        (engine.deferred idx [property]) := by
  have hself : engine.putAsking idx node [] = engine :=
    (putAsking_nil engine idx node).trans (put_self hn)
  have hlook : node.look = (node.kind, node.view) := rfl
  unfold applyProperty deferred Tree.requested
  rw [hn]
  simp only [List.filterMap_cons, List.filterMap_nil]
  cases hrequest : node.kind.imageRequest? property.1 property.2 with
  | some request =>
    obtain ⟨slot, src⟩ := request
    simp only [Option.map_some]
    rw [fst_requestImage, hlook, takeProperty_of_request hrequest]
    cases honce : PendingImage.atOnce engine.config.mode ⟨idx, slot, src⟩ with
    | true =>
      rw [ImageLoader.load_atHand honce, List.filter_cons_of_neg (by simp [honce])]
      unfold settle
      cases engine.images.load src with
      | error reason => exact hself.symm
      | ok content =>
        simp only [if_true, storeImage_eq hn, Node.setImage_eq_wear]
        exact (putAsking_nil engine idx _).symm
    | false =>
      obtain ⟨reason, herror⟩ := engine.images.load_atHand_of_later honce
      rw [herror, List.filter_cons_of_pos (by simp [honce])]
      exact (putAsking_self hn _).symm
  | none =>
    simp only [Option.map_none]
    rw [hlook, takeProperty_of_no_request hrequest]
    unfold Node.setProperty?
    cases node.kind.set? engine.level property.1 property.2 with
    | some changed => exact (putAsking_nil engine idx _).symm
    | none =>
      cases node.view.set? property.1 property.2 with
      | some changed => exact (putAsking_nil engine idx _).symm
      | none => exact hself.symm

/-- What a bag leaves to the host goes by the kind of the node. -/
theorem deferred_putAsking (hn : engine.tree.node? idx = some node)
    (htype : changed.kind.type = node.kind.type) (queue : List PendingImage) :
    (engine.putAsking idx changed queue).deferred idx bag = engine.deferred idx bag := by
  have hkept : (engine.putAsking idx changed queue).tree.typeAt? idx =
      engine.tree.typeAt? idx := by
    unfold Tree.typeAt?
    rw [node?_putAsking hn, hn, Option.map_some, Option.map_some, htype]
  exact congrArg (List.filter _) (Tree.requested_congr hkept bag)

/-- **A bag of properties in either mode** is put into the look of the node,
and what is not at hand is left to the host. -/
theorem fst_applyProperties (hn : engine.tree.node? idx = some node)
    (bag : List (String × Json)) :
    (engine.applyProperties idx bag).1 =
      engine.putAsking idx
        (node.wear (Diagnostic.collect
          (takeProperty engine.level (engine.images.atHand engine.config.mode) node.id)
          node.look bag).1)
        (engine.deferred idx bag) := by
  induction bag generalizing engine node with
  | nil =>
    unfold deferred
    rw [Tree.requested_nil]
    exact ((putAsking_nil engine idx node).trans (put_self hn)).symm
  | cons property rest ih =>
    have hqueue : engine.deferred idx (property :: rest) =
        engine.deferred idx [property] ++ engine.deferred idx rest := by
      unfold deferred
      rw [Tree.requested_cons, List.filter_append]
    have htype : (takeProperty engine.level (engine.images.atHand engine.config.mode) node.id
        node.look property).1.1.type = node.kind.type := type_takeProperties node.look [property]
    have hrest := ih (node?_putAsking hn (node.wear (takeProperty engine.level
      (engine.images.atHand engine.config.mode) node.id node.look property).1)
      (engine.deferred idx [property]))
    rw [deferred_putAsking hn htype, putAsking_putAsking, ← hqueue] at hrest
    show ((applyProperty idx engine property).1.applyProperties idx rest).1 = _
    rw [fst_applyProperty hn property]
    exact hrest

/-! ## Bags in any order -/

/-- **The keys of a bag one at a time**, each as a bag of its own. -/
def oneByOne (apply : Engine → NodeIndex → List (String × Json) → Engine × List Diagnostic)
    (engine : Engine) (idx : NodeIndex) (order : List (String × Json)) :
    Engine × List Diagnostic :=
  Diagnostic.collect (fun engine property => apply engine idx [property]) engine order

/-- **What changes on a node when a bag is applied to it**: its look and its
layer, and of its kind neither the type nor the identifiers. -/
structure Restyled (node changed : Node) : Prop where
  elsewhere : changed =
    { node with kind := changed.kind, view := changed.view, layer := changed.layer }
  type : changed.kind.type = node.kind.type
  identifiers : changed.kind.identifiers = node.kind.identifiers

/-- **A bag applied to a node key by key.** Of a key alone there is nothing to
say, or one thing, and then it does nothing at all. A bag makes one node in
any order of its keys, and the fetches it leaves to the host and what there is
to say of it are the same but for their order; nothing else in the engine is
different. -/
structure KeyByKey
    (apply : Engine → NodeIndex → List (String × Json) → Engine × List Diagnostic)
    (engine : Engine) (idx : NodeIndex) (node : Node) (bag : List (String × Json)) : Prop where
  alone : ∀ property, (apply engine idx [property]).2 = [] ∨
    ∃ d, apply engine idx [property] = (engine, [d])
  ordered : ∀ order, order.Perm bag → ∃ changed queue queue', Restyled node changed ∧
    (apply engine idx bag).1 = engine.putAsking idx changed queue ∧
    (oneByOne apply engine idx order).1 = engine.putAsking idx changed queue' ∧
    queue'.Perm queue ∧
    (oneByOne apply engine idx order).2.Perm (apply engine idx bag).2

/-- Bags are applied key by key anyway. -/
theorem oneByOne_applyProperties (engine : Engine) (idx : NodeIndex)
    (order : List (String × Json)) :
    oneByOne applyProperties engine idx order = engine.applyProperties idx order :=
  Diagnostic.collect_congr (fun property _ engine => Diagnostic.collect_singleton engine property)
    engine

theorem oneByOne_applyLayer (engine : Engine) (idx : NodeIndex) (order : List (String × Json)) :
    oneByOne applyLayer engine idx order = engine.applyLayer idx order :=
  Diagnostic.collect_congr (fun property _ engine => Diagnostic.collect_singleton engine property)
    engine

/-- A bag of properties is applied key by key, in either mode. -/
theorem keyByKey_applyProperties (hn : engine.tree.node? idx = some node)
    (hkeys : (bag.map (·.1)).Nodup) : KeyByKey applyProperties engine idx node bag where
  alone property :=
    Diagnostic.collect_alone (snd_applyProperty engine property)
      fun _ => fst_applyProperty_of_refused
  ordered order horder := by
    have hnode := fun bag => fst_applyProperties hn bag
    have hsaid := snd_applyProperties engine idx
    refine ⟨_, _, _, ?_, hnode bag, ?_, deferred_perm engine idx horder, ?_⟩
    · exact ⟨rfl, type_takeProperties _ bag, identifiers_takeProperties _ bag⟩
    · rw [oneByOne_applyProperties, hnode, takeProperty_perm hkeys horder]
    · rw [oneByOne_applyProperties, hsaid, hsaid]
      exact horder.filterMap _

/-- And so is a layer bag, which asks for no images. -/
theorem keyByKey_applyLayer (hn : engine.tree.node? idx = some node)
    (hkeys : (bag.map (·.1)).Nodup) : KeyByKey applyLayer engine idx node bag where
  alone property :=
    Diagnostic.collect_alone (snd_applyLayerKey engine property)
      fun _ => fst_applyLayerKey_of_refused
  ordered order horder := by
    have hnode : ∀ bag, (engine.applyLayer idx bag).1 = engine.putAsking idx
        { node with layer := (Diagnostic.collect (takeLayerKey node.id) node.layer bag).1 } [] := by
      intro bag
      rw [applyLayer_eq hn, putAsking_nil]
    have hsaid := snd_applyLayer engine idx
    refine ⟨_, _, _, ?_, hnode bag, ?_, .refl _, ?_⟩
    · exact ⟨rfl, rfl, rfl⟩
    · rw [oneByOne_applyLayer, hnode, takeLayerKey_perm hkeys horder]
    · rw [oneByOne_applyLayer, hsaid, hsaid]
      exact horder.filterMap _

/-- **One bad key never affects its siblings.** On every node, of any kind and
in either mode, bags of properties and layer bags are applied key by key. -/
theorem keyByKey (hn : engine.tree.node? idx = some node) (hkeys : (bag.map (·.1)).Nodup) :
    KeyByKey applyProperties engine idx node bag ∧ KeyByKey applyLayer engine idx node bag :=
  ⟨keyByKey_applyProperties hn hkeys, keyByKey_applyLayer hn hkeys⟩

/-- An image view in production that is given both of its images, an alpha
and a key that it does not have. What it asks the host for comes in the order
of the keys, and only that does. -/
theorem keyByKey_gallery :
    let gallery : Node := { id := Identifier.root, kind := .imageView none none }
    let engine := (Engine.initial { mode := .production } .none).put Tree.root gallery
    let bag : List (String × Json) :=
      [("alpha", .number (.natural 0)), ("border", .bool true),
        ("highlightedImage", .object [("src", .string "http://a")]),
        ("image", .object [("src", .string "http://b")])]
    engine.tree.node? Tree.root = some gallery ∧ (bag.map (·.1)).Nodup ∧
      KeyByKey applyProperties engine Tree.root gallery bag ∧
      (oneByOne applyProperties engine Tree.root bag.reverse).1.pending =
        (engine.applyProperties Tree.root bag).1.pending.reverse := by
  intro gallery engine bag
  have hn : engine.tree.node? Tree.root = some gallery := by decide +kernel
  have hkeys : (bag.map (·.1)).Nodup := by decide
  have hbag := (keyByKey hn hkeys).1
  have hpending : (oneByOne applyProperties engine Tree.root bag.reverse).1.pending =
      (engine.applyProperties Tree.root bag).1.pending.reverse := by decide +kernel
  exact ⟨hn, hkeys, hbag, hpending⟩

end Engine

end LiveLayout
