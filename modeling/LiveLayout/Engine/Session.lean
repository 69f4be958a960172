import LiveLayout.Engine.Constraints
import LiveLayout.Engine.Frames
import LiveLayout.Engine.Properties
import LiveLayout.Snapshot.Encoding
/-!
# Sessions

A session is an engine together with the identifiers given out so far. A
change sequence is applied entry by entry, in order. Each entry is either
refused, with one diagnostic and no other effect (`Session.resolve`), or it
becomes an action on the engine, which is performed in full
(`Session.perform`), skipping only the parts of it that do not fit.
-/

namespace LiveLayout

/-- An engine and the identifiers given out so far. -/
structure Session where
  engine : Engine
  known : KnownIdentifiers

/-- What an entry that was not refused does. -/
inductive Action where
  | insert (id : Identifier) (parent : NodeIndex) (type : NodeType) (view : ViewChange)
  | modify (node : NodeIndex) (view : ViewChange)

namespace Engine

/-- The parts of an entry that inserts and modifies share, applied in their
order: properties, layer, constraints. -/
def applyContent (engine : Engine) (idx : NodeIndex) (modify : Bool) (view : ViewChange) :
    Engine × List Diagnostic :=
  let (engine, properties) := engine.applyProperties idx (view.properties.getD [])
  let (engine, layer) := engine.applyLayer idx (view.layer.getD [])
  match view.constraints with
  | none => (engine, properties ++ layer)
  | some field =>
    let (tree, constraints) := engine.tree.applyConstraints engine.registry idx modify field
    ({ engine with tree }, properties ++ layer ++ constraints)

/-- **A node inserted**, with its content. Once that is applied its
constraints are recorded and it can be addressed. -/
def insert (engine : Engine) (id : Identifier) (parent : NodeIndex) (type : NodeType)
    (view : ViewChange) : Engine × List Diagnostic :=
  let node : Node :=
    { id, kind := .ofType type id, frame := (view.frame.map Frame.ofNumbers).getD .zero }
  let idx := engine.tree.nextIndex
  let grown :=
    { engine with tree := engine.tree.insertChild parent node (view.index.map UInt64.toNat) }
  let (filled, diagnostics) := grown.applyContent idx false view
  ({ filled with
      tree := filled.tree.captureSnapshot idx
      registry := filled.registry.register id idx }, diagnostics)

/-- **A node modified**: its content, then its frame. -/
def modify (engine : Engine) (idx : NodeIndex) (view : ViewChange) : Engine × List Diagnostic :=
  let (engine, content) := engine.applyContent idx true view
  match view.frame with
  | none => (engine, content)
  | some fields =>
    let (tree, frame) := engine.tree.applyFrame engine.registry idx fields
    ({ engine with tree }, content ++ frame)

end Engine

namespace Session

/-- A session over a new engine, whose root is the only identifier known. -/
def initial (config : EngineConfig) (images : ImageLoader) : Session :=
  ⟨.initial config images, KnownIdentifiers.empty.insert Identifier.root⟩

/-! ## Which entries are applied -/

/-- An insert needs an identifier, a parent that is registered and a type
that can be created. A refusal names the node only if its identifier was
known before. -/
def resolveInsert (session : Session) (view : ViewChange) : Except Diagnostic Action :=
  match view.id with
  | none => .error ⟨none, .entryMalformed .insertWithoutId⟩
  | some id =>
    let superview := view.superview.getD ""
    match session.engine.registry.lookup? superview with
    | none => .error ⟨session.known.find? id, .referenceUnresolved superview⟩
    | some parent =>
      let tag := view.typeTag.getD ""
      match NodeType.ofTag? tag with
      | none => .error ⟨session.known.find? id, .typeUnknown tag⟩
      | some type => .ok (.insert id parent type view)

/-- A modify needs an identifier that is registered. -/
def resolveModify (session : Session) (view : ViewChange) : Except Diagnostic Action :=
  match view.id with
  | none => .error ⟨none, .entryMalformed .modifyWithoutId⟩
  | some id =>
    match session.engine.registry.lookup? id with
    | none => .error ⟨none, .referenceUnresolved id⟩
    | some idx => .ok (.modify idx view)

/-- **What an entry does, or why it is refused.** -/
def resolve (session : Session) (entry : Json) : Except Diagnostic Action :=
  match Change.ofJson? entry with
  | none => .error ⟨none, .entryMalformed .undecodable⟩
  | some change =>
    match change.operation? with
    | some .insert => session.resolveInsert change.view
    | some .modify => session.resolveModify change.view
    | none => .error ⟨none, .operationUnknown change.operationTag⟩

/-! ## Applying entries -/

/-- **An action performed.** -/
def perform (session : Session) : Action → Session × List Diagnostic
  | .insert id parent type view =>
    let (engine, diagnostics) := session.engine.insert id parent type view
    (⟨engine, (id :: (NodeKind.ofType type id).identifiers).foldl .insert session.known⟩,
      diagnostics)
  | .modify idx view =>
    let (engine, diagnostics) := session.engine.modify idx view
    (⟨engine, session.known⟩, diagnostics)

/-- **One entry applied.** -/
def apply (session : Session) (entry : Json) : Session × Report :=
  match session.resolve entry with
  | .error diagnostic => (session, ⟨0, [diagnostic]⟩)
  | .ok action =>
    let (session, diagnostics) := session.perform action
    (session, ⟨1, diagnostics⟩)

/-- **A change sequence applied**, entry by entry to its end. -/
def tweak (session : Session) : List Json → Session × Report
  | [] => (session, .empty)
  | entry :: rest =>
    let (session, first) := session.apply entry
    let (session, others) := session.tweak rest
    (session, first.append others)

/-- A change document applied, unless its text is no array of values. -/
def tweakText? (session : Session) (text : String) : Option (Session × Report) :=
  ((Json.parse? text).bind Json.array?).map session.tweak

/-! ## What a host does besides -/

/-- A node that is in the tree made addressable, its constraints
recorded. -/
def register (session : Session) (id : Identifier) (idx : NodeIndex) : Session :=
  { engine :=
      { session.engine with
        tree := session.engine.tree.captureSnapshot idx
        registry := session.engine.registry.register id idx }
    known := session.known.insert id }

/-- All entries of the registry replaced, in order. -/
def replaceRegistry (session : Session) (entries : List (Identifier × NodeIndex)) : Session :=
  { engine :=
      { session.engine with
        registry := entries.foldl (fun registry e => registry.register e.1 e.2) .empty }
    known := entries.foldl (fun known e => known.insert e.1) session.known }

/-- A node put into the tree without being registered. -/
def insertChild (session : Session) (parent : NodeIndex) (id : Identifier) (type : NodeType)
    (position : Option Nat) : Session :=
  let kind := NodeKind.ofType type id
  { engine :=
      { session.engine with
        tree := session.engine.tree.insertChild parent { id, kind } position }
    known := (id :: kind.identifiers).foldl .insert session.known }

/-- The baseline of the node registered under an identifier. -/
def baseline? (session : Session) (id : Identifier) : Option (List ConstraintConfig) :=
  (session.engine.registry.lookup? id).map session.engine.tree.baseline

end Session

end LiveLayout
