import LiveLayout.Color
import LiveLayout.Font
/-!
# Text content

What a label and a button's title have in common, and how each of the two
takes it from a document: a label key by key, as properties of its node, a
title from one object, whose fields that do not fit are passed over.
-/

namespace LiveLayout

/-- How text is aligned. -/
inductive TextAlignment where
  | left
  | center
  | right
  | justified
  | natural
deriving DecidableEq

namespace TextAlignment

/-- All alignments, in the order of their raw values. -/
def all : List TextAlignment := [left, center, right, justified, natural]

/-- The name of an alignment. -/
def name : TextAlignment → String
  | left => "Left"
  | center => "Center"
  | right => "Right"
  | justified => "Justified"
  | natural => "Natural"

/-- The alignment with a raw value. -/
def ofRaw? (raw : Int) : Option TextAlignment :=
  if raw < 0 then none else all[raw.toNat]?

end TextAlignment

/-- How text is broken or cut at the end of a line. -/
inductive LineBreakMode where
  | wordWrap
  | charWrap
  | clip
  | truncateHead
  | truncateTail
  | truncateMiddle
deriving DecidableEq

namespace LineBreakMode

/-- All modes, in the order of their raw values. -/
def all : List LineBreakMode :=
  [wordWrap, charWrap, clip, truncateHead, truncateTail, truncateMiddle]

/-- The name of a mode. -/
def name : LineBreakMode → String
  | wordWrap => "WordWrap"
  | charWrap => "CharWrap"
  | clip => "Clip"
  | truncateHead => "TruncateHead"
  | truncateTail => "TruncateTail"
  | truncateMiddle => "TruncateMiddle"

/-- The mode with a raw value. -/
def ofRaw? (raw : Int) : Option LineBreakMode :=
  if raw < 0 then none else all[raw.toNat]?

end LineBreakMode

/-- A text and how it is set. -/
structure TextContent where
  text : Option String := none
  color : Option Color := none
  font : Option Font := none
  numberOfLines : Int64 := 1
  alignment : TextAlignment := .natural
  lineBreak : LineBreakMode := .truncateTail
deriving DecidableEq

/-- **The integer a number stands for as an attribute.** An integer in range
is taken as it is. Any other number has to have an integral value, and one
beyond the range is held at its end. -/
def Json.integral? (value : Json) : Option Int64 :=
  match value.signed? with
  | some i => some i
  | none =>
    (value.double?.bind Binary.toInt?).map fun i =>
      Int64.ofInt (max Int64.minValue.toInt (min Int64.maxValue.toInt i))

namespace TextContent

/-- The alignment a document value gives. -/
def alignmentOf? (value : Json) : Option TextAlignment :=
  value.signed?.bind fun raw => TextAlignment.ofRaw? raw.toInt

/-- The line break mode a document value gives. -/
def lineBreakOf? (value : Json) : Option LineBreakMode :=
  value.signed?.bind fun raw => LineBreakMode.ofRaw? raw.toInt

/-- **A property of a label**: the text with it set, or none if the key is
no text attribute or the value does not fit. A font is described by an
object. -/
def setProperty? (level : Nat) (content : TextContent) (key : String) (value : Json) :
    Option TextContent :=
  if key = "textAlignment" then
    (alignmentOf? value).map fun alignment => { content with alignment }
  else if key = "lineBreakMode" then
    (lineBreakOf? value).map fun lineBreak => { content with lineBreak }
  else if key = "text" then
    value.string?.map fun text => { content with text := some text }
  else if key = "textColor" then
    (Color.ofJson? value).map fun color => { content with color := some color }
  else if key = "font" then
    match value with
    | .object _ => (Font.ofJson? level value).map fun font => { content with font := some font }
    | _ => none
  else if key = "numberOfLines" then
    value.integral?.map fun numberOfLines => { content with numberOfLines }
  else none

/-- **A field of a title object**: the text with it set, or none if the
field is no text attribute or the value does not fit. A count of lines is
given as an integer, and a font may be described by an array too. -/
def setTitleField? (level : Nat) (content : TextContent) (key : String) (value : Json) :
    Option TextContent :=
  if key = "text" then
    value.string?.map fun text => { content with text := some text }
  else if key = "textAlignment" then
    (alignmentOf? value).map fun alignment => { content with alignment }
  else if key = "textColor" then
    (Color.ofJson? value).map fun color => { content with color := some color }
  else if key = "font" then
    (Font.ofJson? level value).map fun font => { content with font := some font }
  else if key = "lineBreakMode" then
    (lineBreakOf? value).map fun lineBreak => { content with lineBreak }
  else if key = "numberOfLines" then
    value.signed?.map fun numberOfLines => { content with numberOfLines }
  else none

/-- The text with every field of a title object set that fits. -/
def setTitle (level : Nat) (content : TextContent) (fields : List (String × Json)) :
    TextContent :=
  fields.foldl (fun content m => (content.setTitleField? level m.1 m.2).getD content) content

end TextContent

end LiveLayout
