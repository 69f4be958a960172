import LiveLayout.Attribute
import LiveLayout.Expression
import LiveLayout.Identifier
/-!
# Reports

Nothing in a change sequence is fatal. What cannot be done is skipped, as
little of it as possible, and recorded with its cause in the report that
comes back.
-/

namespace LiveLayout

/-- Why an attribute or a frame field cannot be given a value. -/
inductive AnchorFault where
  | unknownAttribute
  | constantNeedsDimension
  | unrelatedAxes (own other : Attribute)
  | noCommonAncestor
  | unresolvedConfig
  | notAFrameField
deriving DecidableEq

/-- The words for a fault. -/
def AnchorFault.message : AnchorFault → String
  | unknownAttribute => "unknown attribute"
  | constantNeedsDimension => "a constant needs width or height"
  | unrelatedAxes own other => "cannot relate " ++ own.name ++ " to " ++ other.name
  | noCommonAncestor => "anchors share no ancestor"
  | unresolvedConfig => "items or attributes do not resolve"
  | notAFrameField => "not a frame field"

/-- Why an entry, or a part of it, has the wrong shape. -/
inductive EntryFault where
  | undecodable
  | undecodableConfig (position : Nat)
  | insertWithoutId
  | modifyWithoutId
  | unsupportedConstraints (value : Json)

/-- How a description is called by its position in a list. -/
def constraintLabel (position : Nat) : String :=
  "constraints[" ++ Text.decimal position ++ "]"

/-- The words for a fault. -/
def EntryFault.message : EntryFault → String
  | undecodable => "undecodable"
  | undecodableConfig position => constraintLabel position ++ ": undecodable"
  | insertWithoutId => "insert without `id`"
  | modifyWithoutId => "modify without `id`"
  | unsupportedConstraints value =>
    "`constraints` must be a map or a list, got " ++ value.render

/-- Why something was skipped. -/
inductive TweakError where
  | referenceUnresolved (reference : String)
  | expressionMalformed (name : String) (cause : ExpressionError)
  | anchorInvalid (name : String) (fault : AnchorFault)
  | propertyUnclaimed (key : String)
  | operationUnknown (tag : String)
  | typeUnknown (tag : String)
  | entryMalformed (fault : EntryFault)
  | imageUnavailable (src : String) (reason : String)

/-- How much was skipped. -/
inductive Severity where
  /-- A whole entry, or a part of a wrong shape. -/
  | warning
  /-- One key or attribute. -/
  | info
deriving DecidableEq

namespace TweakError

/-- The severity of a cause. -/
def severity : TweakError → Severity
  | operationUnknown _ | typeUnknown _ | entryMalformed _ => .warning
  | _ => .info

/-- The words for a cause. -/
def message : TweakError → String
  | referenceUnresolved reference => "reference `" ++ reference ++ "` does not resolve"
  | expressionMalformed name cause =>
    "expression for `" ++ name ++ "` is malformed: " ++ cause.message
  | anchorInvalid name fault =>
    "anchor `" ++ name ++ "` cannot be constrained: " ++ fault.message
  | propertyUnclaimed key => "no handler accepts property `" ++ key ++ "`"
  | operationUnknown tag => "unknown operation `" ++ tag ++ "`"
  | typeUnknown tag => "unknown node type `" ++ tag ++ "`"
  | entryMalformed fault => "change entry is malformed: " ++ fault.message
  | imageUnavailable src reason => "image `" ++ src ++ "` unavailable: " ++ reason

end TweakError

/-- One thing that was skipped, and the node it was for where that is
known. -/
structure Diagnostic where
  node : Option Identifier
  cause : TweakError

/-- **Steps one after another**, each with the diagnostics it adds. -/
def Diagnostic.collect {σ α : Type} (step : σ → α → σ × List Diagnostic) :
    σ → List α → σ × List Diagnostic
  | state, [] => (state, [])
  | state, a :: rest =>
    let (state, first) := step state a
    let (state, others) := collect step state rest
    (state, first ++ others)

/-- What became of a change sequence: how many entries found their node and
were applied, and everything that was skipped, in order. -/
structure Report where
  applied : Nat
  diagnostics : List Diagnostic

namespace Report

/-- The report on no entries. -/
def empty : Report := ⟨0, []⟩

/-- Two reports, one after the other. -/
def append (first second : Report) : Report :=
  ⟨first.applied + second.applied, first.diagnostics ++ second.diagnostics⟩

/-- Nothing was skipped. -/
def isClean (report : Report) : Bool := report.diagnostics.isEmpty

end Report

end LiveLayout
