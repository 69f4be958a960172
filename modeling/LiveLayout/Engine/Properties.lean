import LiveLayout.Engine.Basic
import LiveLayout.Property
/-!
# Applying properties

A bag of properties or layer attributes is applied key by key. A key that
does not fit is skipped on its own and the rest still applies.
-/

namespace LiveLayout

namespace Engine

/-- What is said where a bundled asset is missing. -/
def missingAsset : String := "no bundled asset with that name"

/-- **An image requested for a node.** A remote source is fetched at once or
left to the host, as the mode says; any other is looked up. What is stored
names the source it was requested by. -/
def requestImage (engine : Engine) (idx : NodeIndex) (id : Identifier) (slot : ImageSlot)
    (src : String) : Engine × List Diagnostic :=
  let settle (result : Except String ImageContent) : Engine × List Diagnostic :=
    match result with
    | .ok content => (engine.storeImage idx slot { content with src }, [])
    | .error reason => (engine, [⟨some id, .imageUnavailable src reason⟩])
  if isRemote src then
    match engine.config.mode with
    | .development => settle (engine.images.fetch src)
    | .production => ({ engine with pending := engine.pending ++ [⟨idx, slot, src⟩] }, [])
  else
    match engine.images.named? src with
    | some content => settle (.ok content)
    | none => settle (.error missingAsset)

/-- **One property applied to a node.** -/
def applyProperty (idx : NodeIndex) (engine : Engine) (property : String × Json) :
    Engine × List Diagnostic :=
  match engine.tree.node? idx with
  | none => (engine, [])
  | some node =>
    match node.kind.imageRequest? property.1 property.2 with
    | some (slot, src) => engine.requestImage idx node.id slot src
    | none =>
      match node.setProperty? engine.level property.1 property.2 with
      | some changed => ({ engine with tree := engine.tree.modifyNode idx fun _ => changed }, [])
      | none => (engine, [⟨some node.id, .propertyUnclaimed property.1⟩])

/-- One key of a layer bag applied to a node. -/
def applyLayerKey (idx : NodeIndex) (engine : Engine) (property : String × Json) :
    Engine × List Diagnostic :=
  match engine.tree.node? idx with
  | none => (engine, [])
  | some node =>
    match node.setLayer? property.1 property.2 with
    | some changed => ({ engine with tree := engine.tree.modifyNode idx fun _ => changed }, [])
    | none => (engine, [⟨some node.id, .propertyUnclaimed ("layer." ++ property.1)⟩])

/-- A bag of properties applied to a node. -/
def applyProperties (engine : Engine) (idx : NodeIndex) (bag : List (String × Json)) :
    Engine × List Diagnostic :=
  Diagnostic.collect (applyProperty idx) engine bag

/-- A layer bag applied to a node. -/
def applyLayer (engine : Engine) (idx : NodeIndex) (bag : List (String × Json)) :
    Engine × List Diagnostic :=
  Diagnostic.collect (applyLayerKey idx) engine bag

end Engine

end LiveLayout
