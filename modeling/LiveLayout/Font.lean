import LiveLayout.Json.Value
/-!
# Fonts

A document describes a font by up to four facts, and the running platform
resolves the description: three families are the system's own and are
looked up by their style, any other font is taken by its name. Some text
styles exist only from a platform level on.
-/

namespace LiveLayout

/-- The weights of the system font. -/
inductive FontWeight where
  | ultraLight
  | thin
  | light
  | regular
  | medium
  | semibold
  | bold
  | heavy
  | black
deriving DecidableEq

namespace FontWeight

/-- All weights. -/
def all : List FontWeight :=
  [ultraLight, thin, light, regular, medium, semibold, bold, heavy, black]

/-- The name of a weight. -/
def name : FontWeight → String
  | ultraLight => "UltraLight"
  | thin => "Thin"
  | light => "Light"
  | regular => "Regular"
  | medium => "Medium"
  | semibold => "Semibold"
  | bold => "Bold"
  | heavy => "Heavy"
  | black => "Black"

/-- The weight with a name. -/
def ofName? (name : String) : Option FontWeight :=
  all.find? fun w => w.name == name

end FontWeight

/-- The semantic text styles. -/
inductive TextStyle where
  | body
  | caption1
  | caption2
  | footnote
  | headline
  | subheadline
  | title1
  | title2
  | title3
  | callout
  | largeTitle
deriving DecidableEq

namespace TextStyle

/-- All styles. -/
def all : List TextStyle :=
  [body, caption1, caption2, footnote, headline, subheadline, title1, title2, title3, callout,
    largeTitle]

/-- The name of a style. -/
def name : TextStyle → String
  | body => "Body"
  | caption1 => "Caption1"
  | caption2 => "Caption2"
  | footnote => "Footnote"
  | headline => "Headline"
  | subheadline => "Subheadline"
  | title1 => "Title1"
  | title2 => "Title2"
  | title3 => "Title3"
  | callout => "Callout"
  | largeTitle => "LargeTitle"

/-- The platform level a style came with. -/
def since : TextStyle → Nat
  | title1 | title2 | title3 | callout => 9
  | largeTitle => 11
  | _ => 0

/-- The style with a name, if the platform has it. -/
def ofName? (name : String) (level : Nat) : Option TextStyle :=
  all.find? fun style => style.name == name && style.since ≤ level

end TextStyle

/-- A font. -/
inductive Font where
  | system (size : Binary64) (weight : FontWeight)
  | systemItalic (size : Binary64)
  | textStyle (style : TextStyle)
  | named (name : String) (size : Binary64)
deriving DecidableEq

/-- A font as a document describes it. -/
structure FontDescriptor where
  familyName : Option String
  fontStyle : Option String
  pointSize : Option Binary64
  fontName : Option String
deriving DecidableEq

namespace FontDescriptor

/-- The fields of a description, in their order. -/
def fieldNames : List String := ["familyName", "fontStyle", "pointSize", "fontName"]

/-- A description given as an object, where any field may be left out, or
as an array of all four fields. -/
def ofJson? (value : Json) : Option FontDescriptor :=
  let text := Fields.valueOr none (Json.optional? Json.string?)
  let complete :=
    match value with
    | .array items => items.length == fieldNames.length
    | _ => true
  match complete, value.fields? fieldNames with
  | true, some [family, style, size, name] =>
    match text family, text style, Fields.valueOr none (Json.optional? Json.double?) size,
      text name with
    | some familyName, some fontStyle, some pointSize, some fontName =>
      some { familyName, fontStyle, pointSize, fontName }
    | _, _, _, _ => none
  | _, _ => none

/-- A description as data: every field, null where there is none. -/
def toDatum (d : FontDescriptor) : Datum :=
  let text (s : Option String) : Datum := (s.map Datum.text).getD .null
  .named
    [("familyName", text d.familyName), ("fontStyle", text d.fontStyle),
      ("pointSize", (d.pointSize.map Datum.double).getD .null), ("fontName", text d.fontName)]

/-- The families that are the system's own. -/
def systemFamilies : List String := ["System", "System Italic", "Text Style"]

/-- The system font described, which takes a family, a style and a size. -/
def systemFont? (d : FontDescriptor) (level : Nat) : Option Font :=
  match d.familyName, d.fontStyle, d.pointSize with
  | some family, some style, some size =>
    if family = "System" then (FontWeight.ofName? style).map (.system size)
    else if family = "System Italic" then some (.systemItalic size)
    else if family = "Text Style" then (TextStyle.ofName? style level).map .textStyle
    else none
  | _, _, _ => none

/-- The font described by its own name and a size. -/
def namedFont? (d : FontDescriptor) : Option Font :=
  match d.fontName, d.pointSize with
  | some name, some size => some (.named name size)
  | _, _ => none

/-- **The font a description resolves to.** A description of a system
family is that or nothing; any other goes by the font's name. -/
def resolve? (d : FontDescriptor) (level : Nat) : Option Font :=
  match d.systemFont? level with
  | some font => some font
  | none =>
    if d.familyName.any (systemFamilies.contains ·) then none else d.namedFont?

end FontDescriptor

/-- The font a document value resolves to. -/
def Font.ofJson? (level : Nat) (value : Json) : Option Font :=
  (FontDescriptor.ofJson? value).bind fun d => d.resolve? level

end LiveLayout
