import LiveLayout.Attribute
import LiveLayout.Frame
import LiveLayout.Identifier
import LiveLayout.Image
import LiveLayout.TextContent
/-!
# Nodes

A node is one visual element. Its kind, fixed when it is created, carries
what only some elements have; the frame, the view and the layer attributes
are common to all.
-/

namespace LiveLayout

/-- The position of a node in its tree. -/
abbrev NodeIndex := Nat

/-- The position of a constraint in its tree's arena. -/
abbrev ConstraintId := Nat

/-- The kinds of node that can be created. -/
inductive NodeType where
  | view
  | label
  | button
  | imageView
deriving DecidableEq

namespace NodeType

/-- The tag of a kind of node. -/
def tag : NodeType → String
  | view => "View"
  | label => "Label"
  | button => "Button"
  | imageView => "ImageView"

/-- All kinds. -/
def all : List NodeType := [view, label, button, imageView]

/-- **The kind a tag names**, with or without the platform's `UI` in
front. -/
def ofTag? (tag : String) : Option NodeType :=
  let bare :=
    match tag.toList with
    | 'U' :: 'I' :: cs => cs
    | cs => cs
  all.find? fun type => type.tag.toList == bare

end NodeType

/-- What a node is, with what only its kind has. -/
inductive NodeKind where
  | view
  | label (text : TextContent)
  | button (titleId : Identifier) (title : TextContent)
  | imageView (image highlightedImage : Option ImageContent)
deriving DecidableEq

namespace NodeKind

/-- A new node's kind. A button's title has an identifier of its own. -/
def ofType (type : NodeType) (id : Identifier) : NodeKind :=
  match type with
  | .view => view
  | .label => label {}
  | .button => button (id.suffixed "label") {}
  | .imageView => imageView none none

/-- The identifiers a node of this kind brings with it. -/
def identifiers : NodeKind → List Identifier
  | button titleId _ => [titleId]
  | _ => []

end NodeKind

/-- Attributes that every node has. -/
structure ViewAttributes where
  backgroundColor : Option Color := none
  tintColor : Option Color := none
  alpha : Binary64 := .one
  tag : Int64 := 0
  isHidden : Bool := false
  clipsToBounds : Bool := false
  isUserInteractionEnabled : Bool := true
  contentMode : Nat := 0
  semanticContentAttribute : Nat := 0
deriving DecidableEq

/-- Attributes of the layer a node is drawn on. -/
structure LayerAttributes where
  backgroundColor : Option Color := none
  borderColor : Option Color := none
  shadowColor : Option Color := none
  cornerRadius : Binary64 := .zero
  borderWidth : Binary64 := .zero
  shadowOpacity : Binary64 := .zero
  shadowRadius : Binary64 := .ofNat 3
  opacity : Binary64 := .one
  masksToBounds : Bool := false
deriving DecidableEq

/-- A node, with its place in the tree and the constraints kept on it. -/
structure Node where
  id : Identifier
  kind : NodeKind
  frame : Frame := .zero
  view : ViewAttributes := {}
  layer : LayerAttributes := {}
  /-- Cleared once a constraint positions the node. -/
  autoresizing : Bool := true
  /-- The constraints installed on this node, in the order they came. -/
  installed : List ConstraintId := []
  /-- The constraints that can be addressed by position on this node. -/
  snapshot : List ConstraintId := []
  parent : Option NodeIndex := none
  children : List NodeIndex := []
deriving DecidableEq

namespace Node

/-- The text of a label or of a button's title. -/
def text? (node : Node) : Option TextContent :=
  match node.kind with
  | .label text => some text
  | .button _ title => some title
  | _ => none

/-- The node with an image set, if it is an image view. -/
def setImage (node : Node) (slot : ImageSlot) (content : ImageContent) : Node :=
  match node.kind, slot with
  | .imageView _ highlighted, .image =>
    { node with kind := .imageView (some content) highlighted }
  | .imageView image _, .highlightedImage =>
    { node with kind := .imageView image (some content) }
  | _, _ => node

end Node

end LiveLayout
