import LiveLayout.Json.Printer
import LiveLayout.Json.Reader
/-!
# Engine configuration
-/

namespace LiveLayout

/-- How remote images are loaded. -/
inductive EngineMode where
  /-- At once, through the loader. -/
  | development
  /-- Later: the fetch is handed to the host, which delivers the result. -/
  | production
deriving DecidableEq

namespace EngineMode

/-- The name of a mode in a document. -/
def name : EngineMode → String
  | development => "development"
  | production => "production"

/-- The mode with a name. -/
def ofName? (name : String) : Option EngineMode :=
  if name = "development" then some development
  else if name = "production" then some production
  else none

/-- The mode a datum names: its name, or a record with the name as the only
key and null under it. -/
def ofDatum? : Datum → Option EngineMode
  | .text name => ofName? name
  | .record [(.text name, .null)] => ofName? name
  | _ => none

end EngineMode

/-- What an engine is configured with. -/
structure EngineConfig where
  mode : EngineMode := .development
  /-- The level of the running platform, on which text styles depend. -/
  platformLevel : UInt32 := 11
deriving DecidableEq

namespace EngineConfig

/-- The configuration an engine has unless another is given. -/
def standard : EngineConfig := {}

/-- The fields of a configuration, in their order. -/
def fieldNames : List String := ["mode", "platformLevel"]

/-- A platform level: an integer of 32 bits. -/
def levelOfDatum? (d : Datum) : Option UInt32 :=
  d.unsigned?.bind fun n => if n.toNat < UInt32.size then some n.toUInt32 else none

/-- The configuration a datum describes; a field left out has its
default. -/
def ofDatum? (d : Datum) : Option EngineConfig :=
  match d.fields? fieldNames with
  | some [mode, level] =>
    match Fields.valueOr .development EngineMode.ofDatum? mode,
      Fields.valueOr 11 levelOfDatum? level with
    | some mode, some platformLevel => some { mode, platformLevel }
    | _, _ => none
  | _ => none

/-- **The configuration in a JSON text.** -/
def ofText? (text : String) : Option EngineConfig :=
  (Json.read? text).bind ofDatum?

/-- A configuration as data. -/
def toDatum (config : EngineConfig) : Datum :=
  .named
    [("mode", .text config.mode.name),
      ("platformLevel", .natural config.platformLevel.toUInt64)]

end EngineConfig

end LiveLayout
