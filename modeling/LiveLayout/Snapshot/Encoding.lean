import LiveLayout.Json.Printer
import LiveLayout.Json.Reader
import LiveLayout.MessagePack.Reader
import LiveLayout.MessagePack.Writer
import LiveLayout.Snapshot.Config
/-!
# Snapshots in transmission

A list of constraint descriptions as JSON text and as MessagePack bytes.
Text must hold the list and nothing else; bytes may be followed by more.
-/

namespace LiveLayout

namespace Snapshot

/-- The encoding that could not be decoded. -/
inductive DecodeError where
  | json
  | messagePack
deriving DecidableEq

/-- A list of descriptions as data. -/
def toDatum (configs : List ConstraintConfig) : Datum :=
  .list (configs.map ConstraintConfig.toDatum)

/-- The descriptions a datum lists. -/
def ofDatum? (d : Datum) : Option (List ConstraintConfig) :=
  d.items?.bind fun items => items.mapM ConstraintConfig.ofDatum?

/-- Descriptions as JSON text. -/
def encodeJson (configs : List ConstraintConfig) : String :=
  (toDatum configs).render

/-- The descriptions in a JSON text. -/
def decodeJson (text : String) : Except DecodeError (List ConstraintConfig) :=
  match (Json.read? text).bind ofDatum? with
  | some configs => .ok configs
  | none => .error .json

/-- Descriptions as MessagePack bytes. -/
def encodeMessagePack (configs : List ConstraintConfig) : List UInt8 :=
  (toDatum configs).pack

/-- The descriptions at the front of MessagePack bytes. -/
def decodeMessagePack (bytes : List UInt8) : Except DecodeError (List ConstraintConfig) :=
  match (MessagePack.read? bytes).bind ofDatum? with
  | some configs => .ok configs
  | none => .error .messagePack

end Snapshot

end LiveLayout
