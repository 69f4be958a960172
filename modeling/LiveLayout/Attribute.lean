import LiveLayout.Symbol
/-!
# Attributes

The geometric attributes of a node that a constraint can relate. They form
one closed table: position in the table is the code, and names and codes
are two ways to look into it.
-/

namespace LiveLayout

/-- The direction an attribute lies in. Only attributes of one axis can be
related. -/
inductive Axis where
  | horizontal
  | vertical
  | dimension
  | none
deriving DecidableEq

/-- A geometric attribute of a node. -/
inductive Attribute where
  | noAttribute
  | left
  | right
  | top
  | bottom
  | leading
  | trailing
  | width
  | height
  | centerX
  | centerY
  | lastBaseline
  | firstBaseline
  | leftMargin
  | rightMargin
  | topMargin
  | bottomMargin
  | leadingMargin
  | trailingMargin
  | centerXWithinMargins
  | centerYWithinMargins
deriving DecidableEq

namespace Attribute

/-- All attributes, in the order of their codes. -/
def all : List Attribute :=
  [noAttribute, left, right, top, bottom, leading, trailing, width, height, centerX, centerY,
    lastBaseline, firstBaseline, leftMargin, rightMargin, topMargin, bottomMargin, leadingMargin,
    trailingMargin, centerXWithinMargins, centerYWithinMargins]

/-- The name an attribute goes by in documents and messages. -/
def name : Attribute → String
  | noAttribute => "noAttribute"
  | left => "left"
  | right => "right"
  | top => "top"
  | bottom => "bottom"
  | leading => "leading"
  | trailing => "trailing"
  | width => "width"
  | height => "height"
  | centerX => "centerX"
  | centerY => "centerY"
  | lastBaseline => "lastBaseline"
  | firstBaseline => "firstBaseline"
  | leftMargin => "leftMargin"
  | rightMargin => "rightMargin"
  | topMargin => "topMargin"
  | bottomMargin => "bottomMargin"
  | leadingMargin => "leadingMargin"
  | trailingMargin => "trailingMargin"
  | centerXWithinMargins => "centerXWithinMargins"
  | centerYWithinMargins => "centerYWithinMargins"

/-- The code of an attribute, its position in the table. -/
def code (a : Attribute) : Nat := all.idxOf a

/-- The attribute with a name. -/
def ofName? (name : String) : Option Attribute :=
  all.find? fun a => a.name == name

/-- The attribute with a code. -/
def ofCode? (code : Int) : Option Attribute :=
  if code < 0 then none else all[code.toNat]?

/-- The attribute a symbol names. -/
def ofSymbol? : Symbol → Option Attribute
  | .name name => ofName? name
  | .code code => ofCode? code.toInt

/-- The axis of an attribute. -/
def axis : Attribute → Axis
  | left | right | leading | trailing | centerX | leftMargin | rightMargin | leadingMargin
  | trailingMargin | centerXWithinMargins => .horizontal
  | top | bottom | centerY | lastBaseline | firstBaseline | topMargin | bottomMargin
  | centerYWithinMargins => .vertical
  | width | height => .dimension
  | noAttribute => .none

/-- Width and height: what a constant alone can determine. -/
def isDimension (a : Attribute) : Bool := a.axis = .dimension

/-! ## The table read both ways -/

theorem mem_all (a : Attribute) : a ∈ all := by cases a <;> decide

@[simp] theorem ofName?_name (a : Attribute) : ofName? a.name = some a := by cases a <;> decide

@[simp] theorem ofCode?_code (a : Attribute) : ofCode? a.code = some a := by cases a <;> rfl

theorem name_of_ofName? {name : String} {a : Attribute} (h : ofName? name = some a) :
    a.name = name := by
  have := List.find?_some h
  simpa using this

end Attribute

end LiveLayout
