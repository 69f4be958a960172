import LiveLayout.Proofs.Idempotence
import LiveLayout.Proofs.Pictures
/-!
# Deferred images

What image views show once the host has delivered the fetches left to it,
beside what they show where every image is loaded at once. The same images
are requested either way (`Session.Parallel`), and an engine shows what it
loaded at once and keeps the other requests pending (`Engine.Follows`). A
delivery does not look at what a slot shows by then, so it comes after all
that was loaded at once, whatever the order of the requests: a bundled image
is lost to a remote one requested before it, and that is all the difference
(`Session.delivered_images`).
-/

namespace LiveLayout

/-! ## Engines that follow a log -/

namespace Engine

variable {engine other last : Engine} {idx n : NodeIndex} {slot : ImageSlot}
variable {log : List PendingImage}

/-- **Beside images**: nothing that images depend on or are shown by is
different. -/
structure Aside (engine other : Engine) : Prop where
  config : other.config = engine.config
  images : other.images = engine.images
  pending : other.pending = engine.pending
  pictures : engine.tree.Reads Node.pictures other.tree

namespace Aside

theorem refl (engine : Engine) : engine.Aside engine := ⟨rfl, rfl, rfl, .refl _⟩

theorem trans (h : Aside engine other) (h' : Aside other last) : Aside engine last where
  config := h'.config.trans h.config
  images := h'.images.trans h.images
  pending := h'.pending.trans h.pending
  pictures := h.pictures.trans h'.pictures

end Aside

/-- A node with the same pictures in place of another. -/
theorem aside_restyle {node changed : Node} (hn : engine.tree.node? idx = some node)
    (h : changed.pictures = node.pictures) :
    engine.Aside { engine with tree := engine.tree.modifyNode idx fun _ => changed } :=
  ⟨rfl, rfl, rfl, fun _ => Tree.map_node?_restyle Node.pictures hn h⟩

theorem aside_applyLayerKey (engine : Engine) (property : String × Json) :
    engine.Aside (applyLayerKey idx engine property).1 := by
  unfold applyLayerKey
  split
  · exact .refl engine
  · rename_i node hn
    split
    · rename_i changed hset
      exact aside_restyle hn (Node.pictures_of_setLayer? hset)
    · exact .refl engine

/-- **After its properties nothing of an entry's content has to do with
images.** -/
theorem aside_applyContent (engine : Engine) (idx : NodeIndex) (modify : Bool)
    (view : ViewChange) :
    (engine.applyProperties idx (view.properties.getD [])).1.Aside
      (engine.applyContent idx modify view).1 := by
  have hlayer : (engine.applyProperties idx (view.properties.getD [])).1.Aside
      (engine.styled idx view) :=
    Diagnostic.collect_rel Aside .refl .trans aside_applyLayerKey _ _
  rw [applyContent_eq]
  split
  · exact hlayer
  · rename_i field _
    exact hlayer.trans
      ⟨rfl, rfl, rfl, Tree.reads_applyConstraints Node.beside_pictures modify field⟩

theorem aside_modify (engine : Engine) (idx : NodeIndex) (view : ViewChange) :
    (engine.applyProperties idx (view.properties.getD [])).1.Aside
      (engine.modify idx view).1 := by
  have hcontent := aside_applyContent engine idx true view
  rw [modify_eq]
  split
  · exact hcontent
  · rename_i fields _
    refine hcontent.trans ⟨rfl, rfl, rfl, fun m => ?_⟩
    show ((Tree.applyFrame _ _ idx fields).1.node? m).map Node.pictures = _
    rcases Tree.applyFrame_cases (engine.applyContent idx true view).1.tree
      (engine.applyContent idx true view).1.registry idx fields with heq | ⟨frame, heq⟩
    · rw [heq]
    · rw [heq]
      exact Tree.map_node?_modifyNode (fun node => { node with frame }) (fun _ => rfl) idx m

/-- **An engine follows a log of requests**: all were for image views, a
slot shows the last image loaded for it at once, and the requests not dealt
with are pending. -/
structure Follows (engine : Engine) (log : List PendingImage) : Prop where
  asked : ∀ r ∈ log, engine.tree.typeAt? r.node = some .imageView
  shown : ∀ n slot, engine.tree.image? n slot =
    (engine.images.loads n slot (log.filter (·.atOnce engine.config.mode))).getLast?
  pending : engine.pending = log.filter fun r => !r.atOnce engine.config.mode

namespace Follows

theorem of_aside (h : engine.Follows log) (e : engine.Aside other) : other.Follows log where
  asked r hr := by
    rw [e.pictures.typeAt?_eq]
    exact h.asked r hr
  shown n slot := by
    rw [e.pictures.image?_eq, e.config, e.images]
    exact h.shown n slot
  pending := by
    rw [e.pending, e.config]
    exact h.pending

/-- **One more request.** -/
theorem requestImage (h : engine.Follows log) {id : Identifier} {src : String}
    (hview : engine.tree.typeAt? idx = some .imageView) :
    (engine.requestImage idx id slot src).1.Follows (log ++ [⟨idx, slot, src⟩]) := by
  have hasked : ∀ r ∈ log ++ [⟨idx, slot, src⟩],
      engine.tree.typeAt? r.node = some .imageView := by
    intro r hr
    rcases List.mem_append.1 hr with hr | hr
    · exact h.asked r hr
    · rw [List.mem_singleton.1 hr]
      exact hview
  rw [fst_requestImage]
  split
  · -- dealt with at once, it is the last loaded for its slot
    rename_i honce
    refine ⟨fun r hr => ?_, fun n slot => ?_, ?_⟩
    · rw [typeAt?_settle]
      exact hasked r hr
    · rw [image?_settle hview, images_settle, config_settle, h.shown, List.filter_append,
        List.filter_singleton, honce, cond_true, ImageLoader.loads_append, List.getLast?_append]
    · rw [pending_settle, config_settle, h.pending, List.filter_append, List.filter_singleton,
        honce]
      exact (List.append_nil _).symm
  · -- left to the host, it shows nothing yet
    rename_i hlater
    have hlater := Bool.eq_false_iff.2 hlater
    refine ⟨hasked, fun n slot => ?_, ?_⟩
    · show engine.tree.image? n slot = _
      rw [h.shown, List.filter_append, List.filter_singleton, hlater]
      exact congrArg _ (congrArg _ (List.append_nil _).symm)
    · show engine.pending ++ [_] = _
      rw [h.pending, List.filter_append, List.filter_singleton, hlater]
      rfl

/-- **One property** adds the image that it asks for, if it asks for one. -/
theorem applyProperty (h : engine.Follows log) (property : String × Json) :
    (Engine.applyProperty idx engine property).1.Follows
      (log ++ engine.tree.requested idx [property]) := by
  unfold Engine.applyProperty Tree.requested
  cases hn : engine.tree.node? idx with
  | none =>
    rw [List.append_nil]
    exact h
  | some node =>
    simp only [List.filterMap_cons, List.filterMap_nil]
    cases hrequest : node.kind.imageRequest? property.1 property.2 with
    | some request =>
      obtain ⟨slot, src⟩ := request
      have hview : engine.tree.typeAt? idx = some .imageView := by
        unfold Tree.typeAt?
        rw [hn, Option.map_some, (imageRequest?_eq_some hrequest).1]
      exact h.requestImage hview
    | none =>
      rw [Option.map_none, List.append_nil]
      cases hset : node.setProperty? engine.level property.1 property.2 with
      | none => exact h
      | some changed =>
        exact h.of_aside (aside_restyle hn (Node.pictures_of_setProperty? hset))

end Follows

/-! ## Entries -/

theorem typeAt?_requestImage (engine : Engine) (id : Identifier) (src : String) :
    (engine.requestImage idx id slot src).1.tree.typeAt? n = engine.tree.typeAt? n := by
  rw [fst_requestImage]
  split
  · exact typeAt?_settle _ n
  · rfl

theorem typeAt?_applyProperty (engine : Engine) (property : String × Json) (n : NodeIndex) :
    (applyProperty idx engine property).1.tree.typeAt? n = engine.tree.typeAt? n := by
  unfold applyProperty
  split
  · rfl
  · rename_i node hn
    split
    · exact typeAt?_requestImage engine node.id _
    · split
      · rename_i changed hset
        have hkept := aside_restyle hn (Node.pictures_of_setProperty? hset)
        exact hkept.pictures.typeAt?_eq n
      · rfl

theorem typeAt?_applyProperties (engine : Engine) (bag : List (String × Json)) (n : NodeIndex) :
    (engine.applyProperties idx bag).1.tree.typeAt? n = engine.tree.typeAt? n :=
  Diagnostic.collect_rel (fun e e' : Engine => e.tree.Reads (·.kind.type) e'.tree)
    (fun e => .refl e.tree) (fun h h' => h.trans h') typeAt?_applyProperty engine bag n

/-- **No content of an entry changes the kind of a node.** -/
theorem typeAt?_applyContent (engine : Engine) (idx : NodeIndex) (modify : Bool)
    (view : ViewChange) (n : NodeIndex) :
    (engine.applyContent idx modify view).1.tree.typeAt? n = engine.tree.typeAt? n :=
  ((aside_applyContent engine idx modify view).pictures.typeAt?_eq n).trans
    (typeAt?_applyProperties engine _ n)

theorem typeAt?_modify (engine : Engine) (idx : NodeIndex) (view : ViewChange) (n : NodeIndex) :
    (engine.modify idx view).1.tree.typeAt? n = engine.tree.typeAt? n :=
  ((aside_modify engine idx view).pictures.typeAt?_eq n).trans
    (typeAt?_applyProperties engine _ n)

theorem typeAt?_planted (engine : Engine) (id : Identifier) (parent : NodeIndex) (type : NodeType)
    (view : ViewChange) (n : NodeIndex) :
    (engine.planted id parent type view).tree.typeAt? n =
      if n = engine.tree.size then some type else engine.tree.typeAt? n := by
  have hkind : (newNode id type view).kind.type = type := NodeKind.type_ofType type id
  unfold planted
  rw [Tree.typeAt?_insertChild, hkind]

/-- **An insert** adds a node of its kind. -/
theorem typeAt?_insert (engine : Engine) (id : Identifier) (parent : NodeIndex) (type : NodeType)
    (view : ViewChange) (n : NodeIndex) :
    (engine.insert id parent type view).1.tree.typeAt? n =
      if n = engine.tree.size then some type else engine.tree.typeAt? n := by
  have hcaptured : (engine.insert id parent type view).1.tree.typeAt? n =
      (engine.filled id parent type view).tree.typeAt? n :=
    (Tree.reads_captureSnapshot Node.beside_pictures).typeAt?_eq n
  rw [hcaptured, ← typeAt?_planted engine id parent type view]
  exact typeAt?_applyContent _ _ _ _ n

theorem registry_insert (engine : Engine) (id : Identifier) (parent : NodeIndex)
    (type : NodeType) (view : ViewChange) :
    (engine.insert id parent type view).1.registry =
      engine.registry.register id engine.tree.size :=
  congrArg (·.register id engine.tree.size) (edited_filled engine id parent type view).registry

namespace Follows

/-- **A bag of properties** adds the images that it asks for. -/
theorem applyProperties (h : engine.Follows log) (bag : List (String × Json)) :
    (engine.applyProperties idx bag).1.Follows (log ++ engine.tree.requested idx bag) := by
  induction bag generalizing engine log with
  | nil =>
    rw [Tree.requested_nil, List.append_nil]
    exact h
  | cons property rest ih =>
    have hstep : (Engine.applyProperty idx engine property).1.Follows
        (log ++ engine.tree.requested idx [property]) := h.applyProperty property
    have hrest := ih hstep
    rw [Tree.requested_congr (typeAt?_applyProperty engine property idx), List.append_assoc,
      ← Tree.requested_cons] at hrest
    exact hrest

theorem applyContent (h : engine.Follows log) (idx : NodeIndex) (modify : Bool)
    (view : ViewChange) : (engine.applyContent idx modify view).1.Follows
      (log ++ engine.tree.requested idx (view.properties.getD [])) :=
  (h.applyProperties _).of_aside (aside_applyContent engine idx modify view)

theorem modify (h : engine.Follows log) (idx : NodeIndex) (view : ViewChange) :
    (engine.modify idx view).1.Follows
      (log ++ engine.tree.requested idx (view.properties.getD [])) :=
  (h.applyProperties _).of_aside (aside_modify engine idx view)

/-- Nothing was requested for a node yet to come. -/
theorem node_ne_size (h : engine.Follows log) (r : PendingImage) (hr : r ∈ log) :
    r.node ≠ engine.tree.size := by
  have hsome : (engine.tree.typeAt? r.node).isSome = true := by
    rw [h.asked r hr]
    rfl
  exact Nat.ne_of_lt (Tree.isSome_typeAt?.1 hsome)

/-- A bare node shows nothing. -/
theorem planted (h : engine.Follows log) (id : Identifier) (parent : NodeIndex) (type : NodeType)
    (view : ViewChange) : (engine.planted id parent type view).Follows log where
  asked r hr := by
    rw [typeAt?_planted, if_neg (h.node_ne_size r hr)]
    exact h.asked r hr
  shown n slot := by
    have hbare : ∀ slot, (newNode id type view).kind.image? slot = none :=
      NodeKind.image?_ofType type id
    exact (Tree.image?_insertChild parent _ hbare).trans (h.shown n slot)
  pending := h.pending

theorem insert (h : engine.Follows log) (id : Identifier) (parent : NodeIndex) (type : NodeType)
    (view : ViewChange) : (engine.insert id parent type view).1.Follows
      (log ++ (engine.planted id parent type view).tree.requested engine.tree.nextIndex
        (view.properties.getD [])) := by
  have hfilled : (engine.filled id parent type view).Follows
      (log ++ (engine.planted id parent type view).tree.requested engine.tree.nextIndex
        (view.properties.getD [])) :=
    (h.planted id parent type view).applyContent _ false view
  exact hfilled.of_aside ⟨rfl, rfl, rfl, Tree.reads_captureSnapshot Node.beside_pictures⟩

/-- Only remote images are left pending. -/
theorem isRemote_of_mem_pending (h : engine.Follows log) (r : PendingImage)
    (hr : r ∈ engine.pending) : isRemote r.src = true := by
  rw [h.pending] at hr
  have hlater := (List.mem_filter.1 hr).2
  unfold PendingImage.atOnce at hlater
  rw [Bool.not_or, Bool.not_not, Bool.and_eq_true] at hlater
  exact hlater.2

/-- A delivery changes no node's kind. -/
theorem typeAt?_deliver (h : engine.Follows log) (n : NodeIndex) :
    engine.deliver.tree.typeAt? n = engine.tree.typeAt? n := by
  rw [deliver_eq h.isRemote_of_mem_pending]
  exact typeAt?_foldl_settle engine.pending n

/-- **Delivered**, an engine shows the last image loaded for a slot later,
or else the last one loaded at once. -/
theorem image?_deliver (h : engine.Follows log) (n : NodeIndex) (slot : ImageSlot) :
    engine.deliver.tree.image? n slot =
      (engine.images.loads n slot (log.filter fun r => !r.atOnce engine.config.mode)).getLast?.or
        (engine.images.loads n slot (log.filter (·.atOnce engine.config.mode))).getLast? := by
  let taken : Engine := { engine with pending := [] }
  have htaken : ∀ r ∈ engine.pending, taken.tree.typeAt? r.node = some .imageView := by
    intro r hr
    rw [h.pending] at hr
    exact h.asked r (List.mem_of_mem_filter hr)
  rw [deliver_eq h.isRemote_of_mem_pending, ← h.pending, ← h.shown]
  exact image?_foldl_settle htaken n slot

end Follows

end Engine

/-! ## Slots that are overtaken -/

/-- **A slot is overtaken** if the last image loaded for it was bundled and
one loaded before was remote. -/
def Overtaken (loads : List ImageContent) : Prop :=
  ∃ last, loads.getLast? = some last ∧ isRemote last.src = false ∧
    ∃ content ∈ loads, isRemote content.src = true

/-- The last of the chosen, or else of all. -/
theorem getLast?_filter_or {α : Type} (p : α → Bool) (l : List α) :
    (l.filter p).getLast?.or (l.filter fun a => !p a).getLast? =
      (l.filter p).getLast?.or l.getLast? := by
  cases hchosen : (l.filter p).getLast? with
  | some a => rfl
  | none =>
    have hnone := List.filter_eq_nil_iff.1 (List.getLast?_eq_none_iff.1 hchosen)
    have hall : l.filter (fun a => !p a) = l :=
      List.filter_eq_self.2 fun a ha => by rw [Bool.eq_false_iff.2 (hnone a ha), Bool.not_false]
    rw [hall]

/-- **Remote images last** makes a difference exactly to a slot that is
overtaken. -/
theorem remoteLast_eq_iff (loads : List ImageContent) :
    (loads.filter fun content => isRemote content.src).getLast?.or loads.getLast? =
      loads.getLast? ↔ ¬ Overtaken loads := by
  cases hremote : (loads.filter fun content => isRemote content.src).getLast? with
  | none =>
    refine iff_of_true rfl ?_
    rintro ⟨-, -, -, content, hmem, hsrc⟩
    exact List.filter_eq_nil_iff.1 (List.getLast?_eq_none_iff.1 hremote) content hmem hsrc
  | some remote =>
    obtain ⟨hmem, hsrc⟩ := List.mem_filter.1 (List.mem_of_getLast? hremote)
    rw [Option.some_or]
    constructor
    · -- the last image would be bundled and remote
      rintro hlast ⟨last, hlast', hbundled, -⟩
      cases hlast.trans hlast'
      exact Bool.false_ne_true (hbundled.symm.trans hsrc)
    · intro hnot
      obtain ⟨front, last, rfl⟩ := (List.eq_nil_or_concat' loads).resolve_left
        (List.ne_nil_of_mem hmem)
      cases hkind : isRemote last.src with
      | false => exact absurd ⟨last, List.getLast?_concat, hkind, remote, hmem, hsrc⟩ hnot
      | true =>
        -- then it is the last of the remote ones as well
        rw [List.filter_append, List.filter_singleton, hkind] at hremote
        rw [← hremote]
        exact (List.getLast?_concat).trans List.getLast?_concat.symm

/-! ## Sessions side by side -/

namespace Session

variable {session other : Session} {log : List PendingImage}

/-- **The images that an entry asks for.** One that is refused asks for
none. -/
def requestedBy (session : Session) (entry : Json) : List PendingImage :=
  match session.resolve entry with
  | .error _ => []
  | .ok (.insert id parent type view) =>
    (session.engine.planted id parent type view).tree.requested session.engine.tree.nextIndex
      (view.properties.getD [])
  | .ok (.modify idx view) => session.engine.tree.requested idx (view.properties.getD [])

/-- **The images that a change sequence asks for**, in order. -/
def requestedIn (session : Session) : List Json → List PendingImage
  | [] => []
  | entry :: rest => session.requestedBy entry ++ (session.apply entry).1.requestedIn rest

/-- **Two sessions in step**: they address the same nodes, of the same kinds,
and know the same identifiers. -/
structure Parallel (session other : Session) : Prop where
  registry : other.engine.registry = session.engine.registry
  known : other.known = session.known
  types : ∀ n, other.engine.tree.typeAt? n = session.engine.tree.typeAt? n

theorem Parallel.size_eq (h : session.Parallel other) :
    other.engine.tree.size = session.engine.tree.size := by
  have hlt : ∀ n, n < other.engine.tree.size ↔ n < session.engine.tree.size := by
    intro n
    rw [← Tree.isSome_typeAt?, h.types, Tree.isSome_typeAt?]
  have hle := hlt session.engine.tree.size
  have hge := hlt other.engine.tree.size
  omega

/-- An entry is refused of both, or means the same to both. -/
theorem Parallel.resolve_eq (h : session.Parallel other) (entry : Json) :
    other.resolve entry = session.resolve entry := by
  unfold resolve resolveInsert resolveModify
  rw [h.registry, h.known]

theorem Parallel.requestedBy_eq (h : session.Parallel other) (entry : Json) :
    other.requestedBy entry = session.requestedBy entry := by
  unfold requestedBy
  rw [h.resolve_eq]
  split
  · rfl
  · rename_i id parent type view _
    have hnext : other.engine.tree.nextIndex = session.engine.tree.nextIndex := h.size_eq
    rw [hnext]
    refine Tree.requested_congr ?_ _
    rw [Engine.typeAt?_planted, Engine.typeAt?_planted, h.size_eq, h.types]
  · exact Tree.requested_congr (h.types _) _

/-- **Sessions stay in step**, whatever their configurations and loaders. -/
theorem Parallel.apply (h : session.Parallel other) (entry : Json) :
    (session.apply entry).1.Parallel (other.apply entry).1 := by
  unfold Session.apply
  rw [h.resolve_eq]
  split
  · exact h
  · rename_i action _
    cases action with
    | insert id parent type view =>
      refine ⟨?_, ?_, fun n => ?_⟩
      · show (other.engine.insert id parent type view).1.registry =
          (session.engine.insert id parent type view).1.registry
        rw [Engine.registry_insert, Engine.registry_insert, h.size_eq, h.registry]
      · show List.foldl _ other.known _ = List.foldl _ session.known _
        rw [h.known]
      · show (other.engine.insert id parent type view).1.tree.typeAt? n =
          (session.engine.insert id parent type view).1.tree.typeAt? n
        rw [Engine.typeAt?_insert, Engine.typeAt?_insert, h.size_eq, h.types]
    | modify idx view =>
      refine ⟨?_, h.known, fun n => ?_⟩
      · show (other.engine.modify idx view).1.registry = (session.engine.modify idx view).1.registry
        rw [(Engine.edited_modify ..).registry, (Engine.edited_modify ..).registry, h.registry]
      · show (other.engine.modify idx view).1.tree.typeAt? n =
          (session.engine.modify idx view).1.tree.typeAt? n
        rw [Engine.typeAt?_modify, Engine.typeAt?_modify, h.types]

/-- **Sessions in step are asked for the same images.** -/
theorem Parallel.requestedIn_eq (h : session.Parallel other) (changes : List Json) :
    other.requestedIn changes = session.requestedIn changes := by
  induction changes generalizing session other with
  | nil => rfl
  | cons entry rest ih =>
    unfold requestedIn
    rw [h.requestedBy_eq, ih (h.apply entry)]

theorem Parallel.tweak (h : session.Parallel other) (changes : List Json) :
    (session.tweak changes).1.Parallel (other.tweak changes).1 := by
  induction changes generalizing session other with
  | nil => exact h
  | cons entry rest ih => exact ih (h.apply entry)

/-- **Every entry keeps the engine with the log.** -/
theorem follows_apply (h : session.engine.Follows log) (entry : Json) :
    (session.apply entry).1.engine.Follows (log ++ session.requestedBy entry) := by
  unfold Session.apply requestedBy
  cases session.resolve entry with
  | error diagnostic =>
    rw [List.append_nil]
    exact h
  | ok action =>
    cases action with
    | insert id parent type view => exact h.insert id parent type view
    | modify idx view => exact h.modify idx view

theorem follows_tweak (h : session.engine.Follows log) (changes : List Json) :
    (session.tweak changes).1.engine.Follows (log ++ session.requestedIn changes) := by
  induction changes generalizing session log with
  | nil =>
    rw [requestedIn, List.append_nil]
    exact h
  | cons entry rest ih =>
    rw [requestedIn, ← List.append_assoc]
    exact ih (follows_apply h entry)

/-- No change sequence changes the configuration or the loader. -/
theorem settings_tweak (session : Session) (changes : List Json) :
    (session.tweak changes).1.engine.config = session.engine.config ∧
      (session.tweak changes).1.engine.images = session.engine.images := by
  refine tweak_rel
    (fun s s' => s'.engine.config = s.engine.config ∧ s'.engine.images = s.engine.images)
    (fun _ => ⟨rfl, rfl⟩) (fun h h' => ⟨h'.1.trans h.1, h'.2.trans h.2⟩) (fun s entry => ?_)
    session changes
  have hcases := s.apply_cases entry
  generalize (s.apply entry).1.engine = engine at hcases ⊢
  cases hcases with
  | refused => exact ⟨rfl, rfl⟩
  | @inserted id parent type view =>
    have hfilled := Engine.edited_filled s.engine id parent type view
    exact ⟨hfilled.config, hfilled.images⟩
  | @modified idx view =>
    have hmodified := Engine.edited_modify s.engine idx view
    exact ⟨hmodified.config, hmodified.images⟩

/-- A session over a new engine in a mode, whatever identifiers were given
out elsewhere. -/
def opened (mode : EngineMode) (level : UInt32) (images : ImageLoader)
    (known : KnownIdentifiers) : Session :=
  ⟨.initial ⟨mode, level⟩ images, known⟩

theorem follows_opened (mode : EngineMode) (level : UInt32) (images : ImageLoader)
    (known : KnownIdentifiers) : (opened mode level images known).engine.Follows [] where
  asked _ hr := nomatch hr
  shown n slot := by
    have hroot : Tree.initial.image? n slot = none := by
      cases n <;> cases slot <;> rfl
    exact hroot
  pending := rfl

/-- **Deferred images, delivered.** A change sequence is run by two new
engines of one level and one loader, and the one in production then has its
pending fetches delivered in order. The nodes are of the same kinds in both.
In development a slot shows the last image loaded for it. Delivered, it shows
the last remote image loaded for it, or else the last one, and that is a
different one exactly if the slot was overtaken: the last image loaded is
bundled and one before it is remote. -/
theorem delivered_images (level : UInt32) (images : ImageLoader) (known : KnownIdentifiers)
    (changes : List Json) :
    let developed := ((opened .development level images known).tweak changes).1.engine.tree
    let delivered := ((opened .production level images known).tweak changes).1.engine.deliver.tree
    let log := (opened .production level images known).requestedIn changes
    ∀ n, delivered.typeAt? n = developed.typeAt? n ∧ ∀ slot,
      developed.image? n slot = (images.loads n slot log).getLast? ∧
      delivered.image? n slot =
        ((images.loads n slot log).filter fun content => isRemote content.src).getLast?.or
          (images.loads n slot log).getLast? ∧
      (delivered.image? n slot = developed.image? n slot ↔
        ¬ Overtaken (images.loads n slot log)) := by
  intro developed delivered log n
  have hparallel : (opened .development level images known).Parallel
      (opened .production level images known) := ⟨rfl, rfl, fun _ => rfl⟩
  have hdeveloped := follows_tweak (follows_opened .development level images known) changes
  have hproduced := follows_tweak (follows_opened .production level images known) changes
  obtain ⟨hconfig, himages⟩ := settings_tweak (opened .development level images known) changes
  obtain ⟨hconfig', himages'⟩ := settings_tweak (opened .production level images known) changes
  rw [List.nil_append] at hdeveloped hproduced
  rw [← hparallel.requestedIn_eq changes] at hdeveloped
  refine ⟨?_, fun slot => ?_⟩
  · exact (hproduced.typeAt?_deliver n).trans ((hparallel.tweak changes).types n)
  · have hshown : developed.image? n slot = (images.loads n slot log).getLast? := by
      have hall : log.filter (·.atOnce .development) = log :=
        List.filter_eq_self.2 fun _ _ => rfl
      have hlast := hdeveloped.shown n slot
      rw [hconfig, himages] at hlast
      exact hlast.trans (congrArg (fun log => (images.loads n slot log).getLast?) hall)
    have hdelivered : delivered.image? n slot =
        ((images.loads n slot log).filter fun content => isRemote content.src).getLast?.or
          (images.loads n slot log).getLast? := by
      have hlast := hproduced.image?_deliver n slot
      rw [hconfig', himages'] at hlast
      have honce : log.filter (·.atOnce .production) = log.filter fun r => !isRemote r.src := rfl
      have hlater : log.filter (fun r => !r.atOnce .production) =
          log.filter fun r => isRemote r.src :=
        List.filter_congr fun r _ => Bool.not_not _
      rw [← getLast?_filter_or, ← ImageLoader.loads_filter isRemote,
        ← ImageLoader.loads_filter fun src => !isRemote src, ← honce, ← hlater]
      exact hlast
    refine ⟨hshown, hdelivered, ?_⟩
    rw [hdelivered, hshown]
    exact remoteLast_eq_iff _

/-- Entries that insert an image view and ask it for a remote image and then
for a bundled one. -/
def heroReplaced : List Json :=
  [.object [("operation", .string "insert"),
      ("view", .object [("id", .string "hero"), ("superview", .string "root"),
        ("type", .string "ImageView")])],
    .object [("operation", .string "modify"),
      ("view", .object [("id", .string "hero"), ("properties", .object
        [("image", .object [("src", .string "https://cdn.test/hero.png")])])])],
    .object [("operation", .string "modify"),
      ("view", .object [("id", .string "hero"), ("properties", .object
        [("image", .object [("src", .string "logo")])])])]]

/-- **A late delivery can overwrite a later image**: loaded at once the hero
ends with the bundled image, delivered it ends with the remote one. -/
theorem late_delivery_overwrites :
    let images := ImageLoader.ofList [("https://cdn.test/hero.png", [1]), ("logo", [2])]
    let developed := ((opened .development 11 images .empty).tweak heroReplaced).1.engine.tree
    let produced := ((opened .production 11 images .empty).tweak heroReplaced).1.engine
    developed.image? 1 .image = some ⟨"logo", [2]⟩ ∧
      produced.tree.image? 1 .image = some ⟨"logo", [2]⟩ ∧
      produced.deliver.tree.image? 1 .image = some ⟨"https://cdn.test/hero.png", [1]⟩ := by
  decide +kernel

end Session

end LiveLayout
