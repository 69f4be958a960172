import LiveLayout.Config
import LiveLayout.Registry
import LiveLayout.Report
import LiveLayout.Tree.Arena
/-!
# The engine

An engine owns a live tree, the registry of its nodes, a configuration and
an image loader. Fetches that it leaves to the host are kept as pending
images until the host takes them, and their results are delivered later.
-/

namespace LiveLayout

/-- A fetch left to the host. -/
structure PendingImage where
  node : NodeIndex
  slot : ImageSlot
  src : String
deriving DecidableEq

/-- A tree that takes changes. -/
structure Engine where
  tree : Tree
  registry : Registry
  config : EngineConfig
  images : ImageLoader
  pending : List PendingImage

namespace Engine

/-- An engine over a tree that holds only its root, which is registered. -/
def initial (config : EngineConfig) (images : ImageLoader) : Engine where
  tree := .initial
  registry := Registry.empty.register Identifier.root Tree.root
  config := config
  images := images
  pending := []

/-- The platform level text styles are resolved at. -/
def level (engine : Engine) : Nat := engine.config.platformLevel.toNat

/-- The node registered under an identifier. -/
def lookup? (engine : Engine) (id : Identifier) : Option Node :=
  (engine.registry.lookup? id).bind engine.tree.node?

/-- An image put on an image view. -/
def storeImage (engine : Engine) (idx : NodeIndex) (slot : ImageSlot) (content : ImageContent) :
    Engine :=
  { engine with tree := engine.tree.modifyNode idx fun node => node.setImage slot content }

/-- **The result of a fetch delivered.** A failure leaves the node as it
was. -/
def completeImage (engine : Engine) (pending : PendingImage)
    (result : Except String ImageContent) : Engine :=
  match result with
  | .ok content => engine.storeImage pending.node pending.slot content
  | .error _ => engine

/-- The pending fetches handed out, and the engine without them. -/
def takePending (engine : Engine) : List PendingImage × Engine :=
  (engine.pending, { engine with pending := [] })

end Engine

end LiveLayout
