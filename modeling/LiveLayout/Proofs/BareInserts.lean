import LiveLayout.Proofs.Documents
import LiveLayout.Proofs.Expressions
import LiveLayout.Proofs.Refusals
import LiveLayout.Proofs.Settings
import LiveLayout.Proofs.Upkeep
import Mathlib.Data.List.Basic
/-!
# Inserting bare and modifying afterwards

A node can be inserted with its content, or bare and given the content by a
modify. The two ways differ in what is registered while the content is
applied, and in that a modify looks for constraints to replace. Neither
makes a difference: the look of a node has no part in the registry
(`applyProperties_withRegistry`), expressions that do not name the node
resolve alike (`acceptances_register`), and a new node has no constraint to be
replaced (`Coherent.constrainAll_of_free`). So the two ways lead to the same
engine, up to the new node's snapshot list (`insert_eq_bare_then_modify`).
-/

namespace LiveLayout

/-- **A text that does not name a node**: it is no expression, or none that
refers to the node by its identifier. -/
def Expression.Avoids (id : Identifier) (text : String) : Prop :=
  ∀ expression, parse text = .ok expression → expression.reference? ≠ some (.id id)

instance (id : Identifier) (text : String) : Decidable (Expression.Avoids id text) :=
  match h : Expression.parse text with
  | .error _ => isTrue fun _ hparse => by
    rw [h] at hparse
    cases hparse
  | .ok expression =>
    if hreference : expression.reference? = some (.id id) then
      isFalse fun havoids => havoids expression h hreference
    else
      isTrue fun _ hparse => by
        rw [h] at hparse
        cases hparse
        exact hreference

/-- **Constraints that do not name a node**: if there are any, they are
expressions that avoid it. -/
def ViewChange.Avoids (view : ViewChange) (id : Identifier) : Prop :=
  ∀ field, view.constraints = some field →
    ∃ entries, field = .expressions entries ∧ ∀ entry ∈ entries, Expression.Avoids id entry.2

/-- A reference to another node does not see a node registered. -/
theorem Registry.resolve?_register {registry : Registry} {tree : Tree} {id : Identifier}
    {idx n : NodeIndex} {reference : Reference} (h : reference ≠ .id id) :
    (registry.register id n).resolve? tree idx reference =
      registry.resolve? tree idx reference := by
  cases reference with
  | self => rfl
  | superview => rfl
  | id name =>
    have hne : name ≠ id := fun heq => h (congrArg Reference.id heq)
    show (registry.register id n).lookup? name = registry.lookup? name
    rw [lookup?_register, if_neg hne]

namespace Tree

variable {tree other : Tree} {registry : Registry} {idx n : NodeIndex} {id : Identifier}
variable {entries : List (String × String)}

/-! ## What is registered -/

theorem secondFor_register {name : String} {own : Attribute} {expression : Expression}
    (h : expression.reference? ≠ some (.id id)) :
    tree.secondFor (registry.register id n) idx name own expression =
      tree.secondFor registry idx name own expression := by
  cases expression with
  | literal value => rfl
  | relative target field offset =>
    have hreference : Reference.ofTarget target ≠ .id id := fun heq => h (congrArg some heq)
    simp only [secondFor, Registry.resolve?_register hreference]

/-- **An expression that does not name the node** is accepted or refused as
if the node were not registered. -/
theorem accept?_register {entry : String × String} (h : Expression.Avoids id entry.2) :
    tree.accept? (registry.register id n) idx entry = tree.accept? registry idx entry ∧
      tree.refusal? (registry.register id n) idx entry = tree.refusal? registry idx entry := by
  unfold accept? refusal? constraintFor
  cases hparse : Expression.parse entry.2 with
  | error cause => exact ⟨rfl, rfl⟩
  | ok expression =>
    cases Attribute.ofName? entry.1 with
    | none => exact ⟨rfl, rfl⟩
    | some own => simp only [secondFor_register (h expression hparse), and_self]

theorem acceptances_register (tree : Tree) (registry : Registry) (idx n : NodeIndex)
    (h : ∀ entry ∈ entries, Expression.Avoids id entry.2) :
    tree.acceptances (registry.register id n) idx entries = tree.acceptances registry idx entries ∧
      entries.filterMap (tree.refusal? (registry.register id n) idx) =
        entries.filterMap (tree.refusal? registry idx) :=
  ⟨List.filterMap_congr fun entry hentry => (accept?_register (h entry hentry)).1,
    List.filterMap_congr fun entry hentry => (accept?_register (h entry hentry)).2⟩

/-- **The expressions of a node without constraints** come to the same
whether it is registered or not, and whether they replace or only add. -/
theorem Coherent.applyConstraints_register (registry : Registry) (h : tree.Coherent)
    (hidx : idx < tree.size) (hfree : ∀ anchor, anchor.node = idx → tree.activeOn anchor = [])
    (hnodup : (entries.map (·.1)).Nodup)
    (havoids : ∀ entry ∈ entries, Expression.Avoids id entry.2) :
    tree.applyConstraints (registry.register id n) idx true (.expressions entries) =
      tree.applyConstraints registry idx false (.expressions entries) := by
  obtain ⟨haccepted, hrefused⟩ := tree.acceptances_register registry idx n havoids
  have hreplace : tree.constrainAll true (tree.acceptances registry idx entries) =
      tree.constrainAll false (tree.acceptances registry idx entries) := by
    refine h.constrainAll_of_free (fun a ha => ?_) (fun a ha => ?_) (nodup_targets hnodup)
    · exact anchored_of_mem_acceptances h.toRooted hidx ha
    · obtain ⟨entry, -, haccept⟩ := List.mem_filterMap.1 ha
      exact hfree a.target (accept?_eq_some haccept).1
  simp only [applyConstraints, collect_applyExpression, haccepted, hrefused, hreplace]

end Tree

namespace Engine

variable {engine : Engine} {registry : Registry} {idx n : NodeIndex} {id : Identifier}
variable {view : ViewChange}

/-! ## The content of an entry -/

/-- The engine with another registry. -/
def withRegistry (engine : Engine) (registry : Registry) : Engine := { engine with registry }

/-- An image is requested and loaded whatever is registered. -/
theorem requestImage_withRegistry (engine : Engine) (registry : Registry) (slot : ImageSlot)
    (src : String) (id : Identifier) :
    (engine.withRegistry registry).requestImage idx id slot src =
      ((engine.requestImage idx id slot src).1.withRegistry registry,
        (engine.requestImage idx id slot src).2) := by
  unfold requestImage withRegistry
  dsimp only
  cases isRemote src with
  | false => cases engine.images.named? src <;> rfl
  | true =>
    cases engine.config.mode with
    | development => cases engine.images.fetch src <;> rfl
    | production => rfl

/-- **A property has no part in the registry.** -/
theorem applyProperty_withRegistry (registry : Registry) (engine : Engine)
    (property : String × Json) :
    applyProperty idx (engine.withRegistry registry) property =
      ((applyProperty idx engine property).1.withRegistry registry,
        (applyProperty idx engine property).2) := by
  have hnode : (engine.withRegistry registry).tree.node? idx = engine.tree.node? idx := rfl
  have hlevel : (engine.withRegistry registry).level = engine.level := rfl
  unfold applyProperty
  rw [hnode]
  cases engine.tree.node? idx with
  | none => rfl
  | some node =>
    cases hrequest : node.kind.imageRequest? property.1 property.2 with
    | some request => simp only [hrequest, requestImage_withRegistry]
    | none =>
      simp only [hrequest, hlevel]
      cases node.setProperty? engine.level property.1 property.2 <;> rfl

/-- Nor has a key of a layer bag. -/
theorem applyLayerKey_withRegistry (registry : Registry) (engine : Engine)
    (property : String × Json) :
    applyLayerKey idx (engine.withRegistry registry) property =
      ((applyLayerKey idx engine property).1.withRegistry registry,
        (applyLayerKey idx engine property).2) := by
  have hnode : (engine.withRegistry registry).tree.node? idx = engine.tree.node? idx := rfl
  unfold applyLayerKey
  rw [hnode]
  cases engine.tree.node? idx with
  | none => rfl
  | some node =>
    cases hset : node.setLayer? property.1 property.2 with
    | none => simp only [hset]
    | some changed => simp only [hset, withRegistry]

/-- **So the look of a node is applied alike** under any registry. -/
theorem applyProperties_withRegistry (engine : Engine) (registry : Registry)
    (bag : List (String × Json)) :
    (engine.withRegistry registry).applyProperties idx bag =
      ((engine.applyProperties idx bag).1.withRegistry registry,
        (engine.applyProperties idx bag).2) :=
  Diagnostic.collect_embed (withRegistry · registry) (applyProperty_withRegistry registry)
    engine bag

theorem applyLayer_withRegistry (engine : Engine) (registry : Registry)
    (bag : List (String × Json)) :
    (engine.withRegistry registry).applyLayer idx bag =
      ((engine.applyLayer idx bag).1.withRegistry registry, (engine.applyLayer idx bag).2) :=
  Diagnostic.collect_embed (withRegistry · registry) (applyLayerKey_withRegistry registry)
    engine bag

/-- **The content of a node without constraints** is applied by a modify,
with the node registered, as it is by an insert before. -/
theorem Sound.applyContent_register (h : engine.Sound) (hidx : idx < engine.tree.size)
    (hview : view.Ordered) (havoids : view.Avoids id)
    (hfree : ∀ anchor, anchor.node = idx → engine.tree.activeOn anchor = []) :
    (engine.withRegistry (engine.registry.register id n)).applyContent idx true view =
      ((engine.applyContent idx false view).1.withRegistry (engine.registry.register id n),
        (engine.applyContent idx false view).2) := by
  unfold applyContent
  simp only [applyProperties_withRegistry, applyLayer_withRegistry]
  cases hfield : view.constraints with
  | none => rfl
  | some field =>
    obtain ⟨entries, rfl, hentries⟩ := havoids field hfield
    -- the node with its look has no constraints either
    have hedited := edited_styled engine idx view
    have hsound : (engine.styled idx view).Sound := h.of_edited hidx hedited
    have hidx' : idx < (engine.styled idx view).tree.size := by
      rw [hedited.tree.sameShape.size]
      exact hidx
    have hfree' : ∀ anchor, anchor.node = idx →
        (engine.styled idx view).tree.activeOn anchor = [] := by
      intro anchor hanchor
      unfold Tree.activeOn Tree.constraint?
      rw [constraints_styled]
      exact hfree anchor hanchor
    have hsame := hsound.coherent.applyConstraints_register (n := n)
      (engine.styled idx view).registry hidx' hfree' (hview.expressions entries hfield) hentries
    rw [hedited.registry] at hsame
    have hregistry := hedited.registry
    unfold styled at hsame hregistry
    simp only [withRegistry, hregistry, hsame]

/-- **Expressions leave every snapshot list as it is**, and so does the look
of the node they are for. -/
theorem snapshot_applyContent {modify : Bool} (havoids : view.Avoids id) (idx : NodeIndex)
    (n : NodeIndex) :
    (engine.applyContent idx modify view).1.tree.snapshot n = engine.tree.snapshot n := by
  rw [applyContent_eq]
  cases hfield : view.constraints with
  | none => exact engine.snapshot_styled idx view n
  | some field =>
    obtain ⟨entries, rfl, -⟩ := havoids field hfield
    refine Eq.trans ?_ (engine.snapshot_styled idx view n)
    refine Diagnostic.collect_rel (fun tree later : Tree => later.snapshot n = tree.snapshot n)
      (fun _ => rfl) (fun h h' => h'.trans h) (fun tree entry => ?_) _ entries
    unfold Tree.applyExpression
    split
    · exact Tree.snapshot_constrain
    · rfl

end Engine

/-! ## Entries -/

namespace ViewChange

/-- **The view of an insert without its content.** -/
def bare (view : ViewChange) : ViewChange :=
  { view with properties := none, layer := none, constraints := none }

/-- **The content of a view alone**, for the node it is of. -/
def content (view : ViewChange) : ViewChange :=
  { id := view.id, properties := view.properties, layer := view.layer,
    constraints := view.constraints }

end ViewChange

namespace Engine

variable {engine : Engine} {parent : NodeIndex} {id : Identifier} {type : NodeType}
variable {view : ViewChange}

/-- A new node has nothing installed on it, and nothing on record. -/
theorem lists_planted (engine : Engine) (id : Identifier) (parent : NodeIndex) (type : NodeType)
    (view : ViewChange) :
    (engine.planted id parent type view).tree.installed engine.tree.nextIndex = [] ∧
      (engine.planted id parent type view).tree.snapshot engine.tree.nextIndex = [] := by
  have hnone : engine.tree.node? engine.tree.nextIndex = none := Tree.node?_size _
  constructor
  · refine (Tree.installed_insertChild rfl).trans ?_
    unfold Tree.installed
    rw [hnone]
    rfl
  · refine (Tree.snapshot_insertChild rfl).trans ?_
    unfold Tree.snapshot
    rw [hnone]
    rfl

/-- Nor has it children. -/
theorem children_planted (hparent : parent < engine.tree.size) :
    (engine.planted id parent type view).tree.children engine.tree.nextIndex = [] := by
  have hne : engine.tree.nextIndex ≠ parent := Nat.ne_of_gt hparent
  have hnone : engine.tree.node? engine.tree.nextIndex = none := Tree.node?_size _
  refine (Tree.children_insertChild hparent rfl _ _).trans ?_
  rw [if_neg hne]
  unfold Tree.children
  rw [hnone]
  rfl

/-- **A node inserted bare** is planted and registered, and that is all:
there are no constraints to record. -/
theorem insert_bare :
    engine.insert id parent type view.bare =
      ((engine.planted id parent type view).withRegistry
        (engine.registry.register id engine.tree.nextIndex), []) := by
  have hcapture : (engine.planted id parent type view).tree.captureSnapshot engine.tree.nextIndex =
      (engine.planted id parent type view).tree := by
    obtain ⟨hinstalled, hsnapshot⟩ := engine.lists_planted id parent type view
    exact Tree.captureSnapshot_eq_self (hinstalled.trans hsnapshot.symm)
  show (({ engine.planted id parent type view with
      tree := (engine.planted id parent type view).tree.captureSnapshot engine.tree.nextIndex
      registry := engine.registry.register id engine.tree.nextIndex } : Engine), _) = _
  rw [hcapture]
  rfl

/-- **Modified right after**, the node gets its content as if inserted with
it. -/
theorem Sound.modify_content (h : engine.Sound) (hparent : parent < engine.tree.size)
    (hview : view.Ordered) (havoids : view.Avoids id) :
    (engine.insert id parent type view.bare).1.modify engine.tree.nextIndex view.content =
      ((engine.filled id parent type view).withRegistry
        (engine.registry.register id engine.tree.nextIndex),
        (engine.insert id parent type view).2) := by
  have hplanted := h.planted hparent id type view
  have hidx := engine.nextIndex_lt_planted id parent type view
  have hfree : ∀ anchor : Anchor, anchor.node = engine.tree.nextIndex →
      (engine.planted id parent type view).tree.activeOn anchor = [] :=
    fun anchor hanchor => h.coherent.activeOn_of_size_le (Nat.le_of_eq hanchor.symm)
  have hcontent := hplanted.applyContent_register (n := engine.tree.nextIndex) hidx hview havoids
    hfree
  rw [insert_bare]
  exact hcontent

/-- A new node with its content has nothing on record yet. -/
theorem snapshot_filled (havoids : view.Avoids id) :
    (engine.filled id parent type view).tree.snapshot engine.tree.nextIndex = [] :=
  (snapshot_applyContent havoids _ _).trans (engine.lists_planted id parent type view).2

end Engine

namespace Session

variable {session : Session} {entry bare content : Json} {id : Identifier} {parent : NodeIndex}
variable {type : NodeType} {view : ViewChange}

/-- An entry that is not refused is performed, and the rest follows. -/
theorem tweak_of_resolve {action : Action} (h : session.resolve entry = .ok action)
    (rest : List Json) :
    session.tweak (entry :: rest) = (((session.perform action).1.tweak rest).1,
      Report.append ⟨1, (session.perform action).2⟩ ((session.perform action).1.tweak rest).2) := by
  have happly : session.apply entry =
      ((session.perform action).1, ⟨1, (session.perform action).2⟩) := by
    unfold apply
    rw [h]
  show (((session.apply entry).1.tweak rest).1,
    (session.apply entry).2.append ((session.apply entry).1.tweak rest).2) = _
  rw [happly]

/-- **An insert is accepted** with an identifier, a parent that is registered
and a type that is known. -/
theorem resolve_insert_of_lookup (hchange : Change.ofJson? entry = some ⟨"insert", view⟩)
    (hid : view.id = some id)
    (hparent : session.engine.registry.lookup? (view.superview.getD "") = some parent)
    (htype : NodeType.ofTag? (view.typeTag.getD "") = some type) :
    session.resolve entry = .ok (.insert id parent type view) := by
  have hbranch : session.resolve entry = session.resolveInsert view := by
    unfold resolve
    rw [hchange]
    rfl
  rw [hbranch]
  simp only [resolveInsert, hid, hparent, htype]

/-- So whatever else it is without is not looked at. -/
theorem resolve_insert_of_same {part : ViewChange}
    (hinsert : session.resolve entry = .ok (.insert id parent type view))
    (hpart : Change.ofJson? bare = some ⟨"insert", part⟩) (hsame : part.id = view.id)
    (hparents : part.superview = view.superview) (htags : part.typeTag = view.typeTag) :
    view.id = some id ∧ session.resolve bare = .ok (.insert id parent type part) := by
  obtain ⟨change, hchange, ⟨-, hresolve⟩ | ⟨-, hresolve⟩⟩ := resolve_ok hinsert
  · obtain ⟨_, _, _, hid, hparent, htype, heq⟩ := resolveInsert_ok hresolve
    cases heq
    exact ⟨hid, resolve_insert_of_lookup hpart (hsame.trans hid) (hparents ▸ hparent)
      (htags ▸ htype)⟩
  · obtain ⟨_, _, -, -, heq⟩ := resolveModify_ok hresolve
    cases heq

/-- A modify of a node that is registered is accepted. -/
theorem resolve_modify_of_lookup {idx : NodeIndex} (hid : view.id = some id)
    (hidx : session.engine.registry.lookup? id = some idx)
    (hchange : Change.ofJson? content = some ⟨"modify", view⟩) :
    session.resolve content = .ok (.modify idx view) := by
  have hbranch : session.resolve content = session.resolveModify view := by
    unfold resolve
    rw [hchange]
    rfl
  rw [hbranch]
  simp only [resolveModify, hid, hidx]

/-- **An insert with content is a bare insert and a modify.** In a session
that was reached, take an insert that is applied, with constraints, if it has
any, by expressions that do not refer to the new node by its identifier. The
same insert without properties, layer and constraints, followed by a modify
of the node with exactly these, leads to the same session with the same
diagnostics, except that the snapshot list of the new node, which is its
installed list after the insert, is empty after the two. -/
theorem insert_eq_bare_then_modify (h : session.Reached) (hordered : entry.Ordered)
    (hinsert : session.resolve entry = .ok (.insert id parent type view))
    (havoids : view.Avoids id) (hbare : Change.ofJson? bare = some ⟨"insert", view.bare⟩)
    (hcontent : Change.ofJson? content = some ⟨"modify", view.content⟩) :
    let whole := session.tweak [entry]
    let parts := session.tweak [bare, content]
    let idx := session.engine.tree.nextIndex
    whole.1 =
        ⟨{ parts.1.engine with tree := parts.1.engine.tree.captureSnapshot idx },
          parts.1.known⟩ ∧
      whole.2.diagnostics = parts.2.diagnostics ∧
      whole.1.engine.tree.snapshot idx = whole.1.engine.tree.installed idx ∧
      parts.1.engine.tree.snapshot idx = [] := by
  intro whole parts idx
  obtain ⟨hparent, change, hchange, rfl⟩ := resolve_insert hinsert
  obtain ⟨hid, hresolve⟩ := resolve_insert_of_same hinsert hbare rfl rfl rfl
  have hsize : parent < session.engine.tree.size := h.sound.within _ _ hparent
  -- the modify finds the node that the bare insert registered
  let planted := (session.perform (.insert id parent type change.view.bare)).1
  have hregistered : planted.engine.registry.lookup? id = some idx := by
    show (session.engine.registry.register id idx).lookup? id = some idx
    rw [Registry.lookup?_register, if_pos rfl]
  have hmodify : planted.resolve content = .ok (.modify idx change.view.content) :=
    resolve_modify_of_lookup hid hregistered hcontent
  have hmade : planted.engine.modify idx change.view.content =
      ((session.engine.filled id parent type change.view).withRegistry
        (session.engine.registry.register id idx),
        (session.engine.insert id parent type change.view).2) :=
    h.sound.modify_content hsize (Change.ordered_of_ofJson? hordered hchange) havoids
  -- and both ways come to the content of the new node, recorded in one of them only
  have hsnapshot : (session.engine.filled id parent type change.view).tree.snapshot idx = [] :=
    Engine.snapshot_filled havoids
  have hparts : parts = (⟨(session.engine.filled id parent type change.view).withRegistry
      (session.engine.registry.register id idx),
      (id :: (NodeKind.ofType type id).identifiers).foldl .insert session.known⟩,
      ⟨2, (session.engine.insert id parent type change.view).2 ++ []⟩) := by
    show session.tweak [bare, content] = _
    rw [tweak_of_resolve hresolve, tweak_of_resolve hmodify]
    show ((⟨(planted.engine.modify idx change.view.content).1, planted.known⟩,
      Report.append ⟨1, []⟩ (Report.append
        ⟨1, (planted.engine.modify idx change.view.content).2⟩ .empty)) : Session × Report) = _
    rw [hmade]
    rfl
  have hwhole : whole = (⟨(session.engine.insert id parent type change.view).1,
      (id :: (NodeKind.ofType type id).identifiers).foldl .insert session.known⟩,
      ⟨1, (session.engine.insert id parent type change.view).2 ++ []⟩) :=
    tweak_of_resolve hinsert []
  rw [hwhole, hparts]
  refine ⟨?_, rfl, ?_, hsnapshot⟩
  · have hregistry := (Engine.edited_filled session.engine id parent type change.view).registry
    simp only [Engine.insert_eq, Engine.withRegistry, hregistry]
    rfl
  · show (Tree.captureSnapshot _ _).snapshot idx = (Tree.captureSnapshot _ _).installed idx
    rw [Tree.snapshot_captureSnapshot, if_pos rfl, Tree.installed_captureSnapshot]

/-- What a card looks like, and how wide and high it is. -/
def cardConstraints : Json :=
  .object [("height", .string "44"), ("width", .string "$(superview)")]

def cardLayer : Json := .object [("cornerRadius", .number (.natural 8))]

def cardProperties : Json := .object [("isHidden", .bool true), ("isOpaque", .bool true)]

/-- An entry that inserts the card with its content. -/
def cardInserted : Json :=
  .object [("operation", .string "insert"),
    ("view", .object [("constraints", cardConstraints), ("id", .string "card"),
      ("layer", cardLayer), ("properties", cardProperties), ("superview", .string "root"),
      ("type", .string "View")])]

/-- An entry that gives a card that is there the same content. -/
def cardFilled : Json :=
  .object [("operation", .string "modify"),
    ("view", .object [("constraints", cardConstraints), ("id", .string "card"),
      ("layer", cardLayer), ("properties", cardProperties)])]

/-- A session with a card. -/
def carded : Session := ((initial .standard .none).tweak [viewInserted "card" "root"]).1

/-- A second card takes the name of the first. Inserted with its content it
has its height on record (its width is installed on the root), inserted bare
and filled it has nothing there. Both ways say so of a property that no view
has. -/
theorem insert_eq_bare_then_modify_of_card :
    (carded.tweak [cardInserted]).1 =
        ⟨{ (carded.tweak [viewInserted "card" "root", cardFilled]).1.engine with
            tree := (carded.tweak
              [viewInserted "card" "root", cardFilled]).1.engine.tree.captureSnapshot 2 },
          (carded.tweak [viewInserted "card" "root", cardFilled]).1.known⟩ ∧
      (carded.tweak [cardInserted]).2.diagnostics =
        (carded.tweak [viewInserted "card" "root", cardFilled]).2.diagnostics ∧
      (carded.tweak [cardInserted]).2.diagnostics.length = 1 ∧
      (carded.tweak [cardInserted]).1.engine.tree.snapshot 2 = [0] ∧
      (carded.tweak [viewInserted "card" "root", cardFilled]).1.engine.tree.snapshot 2 = [] := by
  have hreached : carded.Reached := .tweak _ (.initial _ _ _)
  have hinsert : ∃ view, carded.resolve cardInserted = .ok (.insert "card" 0 .view view) ∧
      view.constraints =
        some (.expressions [("height", "44"), ("width", "$(superview)")]) ∧
      Change.ofJson? (viewInserted "card" "root") = some ⟨"insert", view.bare⟩ ∧
      Change.ofJson? cardFilled = some ⟨"modify", view.content⟩ := by
    exact ⟨_, rfl, rfl, rfl, rfl⟩
  obtain ⟨view, hinsert, hfield, hbare, hcontent⟩ := hinsert
  have havoids : view.Avoids "card" := by
    intro field hsome
    rw [hfield] at hsome
    cases hsome
    exact ⟨_, rfl, by decide +kernel⟩
  have hindex : carded.engine.tree.nextIndex = 2 := by decide +kernel
  have hboth := insert_eq_bare_then_modify hreached (by decide +kernel) hinsert havoids hbare
    hcontent
  rw [hindex] at hboth
  obtain ⟨hsame, hreport, -, hempty⟩ := hboth
  exact ⟨hsame, hreport, by decide +kernel, by decide +kernel, hempty⟩

end Session

end LiveLayout
