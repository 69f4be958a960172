import LiveLayout.Node
/-!
# Properties

What one key of a property bag or of a layer bag does to a node. Each key
is recognised by one of a few handlers, in a fixed order, and its value has
to fit; a key that no handler takes leaves the node as it is.
-/

namespace LiveLayout

/-- The greatest raw content mode. -/
def contentModeMax : Int := 12

/-- The greatest raw semantic content attribute. -/
def semanticContentAttributeMax : Int := 4

namespace ViewAttributes

/-- **A property of any node**: the attributes with it set, or none if the
key is none of them or the value does not fit. -/
def set? (view : ViewAttributes) (key : String) (value : Json) : Option ViewAttributes :=
  if key = "contentMode" then
    value.signed?.bind fun raw =>
      if 0 ≤ raw.toInt ∧ raw.toInt ≤ contentModeMax then
        some { view with contentMode := raw.toInt.toNat }
      else none
  else if key = "semanticContentAttribute" then
    value.signed?.bind fun raw =>
      if 0 ≤ raw.toInt ∧ raw.toInt ≤ semanticContentAttributeMax then
        some { view with semanticContentAttribute := raw.toInt.toNat }
      else none
  else if key = "backgroundColor" then
    (Color.ofJson? value).map fun color => { view with backgroundColor := some color }
  else if key = "tintColor" then
    (Color.ofJson? value).map fun color => { view with tintColor := some color }
  else if key = "alpha" then
    value.double?.map fun alpha => { view with alpha }
  else if key = "tag" then
    value.integral?.map fun tag => { view with tag }
  else if key = "isHidden" then
    value.bool?.map fun isHidden => { view with isHidden }
  else if key = "clipsToBounds" then
    value.bool?.map fun clipsToBounds => { view with clipsToBounds }
  else if key = "isUserInteractionEnabled" then
    value.bool?.map fun isUserInteractionEnabled => { view with isUserInteractionEnabled }
  else none

end ViewAttributes

namespace LayerAttributes

/-- **A key of a layer bag**: the attributes with it set, or none if the key
is none of them or the value does not fit. -/
def set? (layer : LayerAttributes) (key : String) (value : Json) : Option LayerAttributes :=
  if key = "backgroundColor" then
    (Color.ofJson? value).map fun color => { layer with backgroundColor := some color }
  else if key = "borderColor" then
    (Color.ofJson? value).map fun color => { layer with borderColor := some color }
  else if key = "shadowColor" then
    (Color.ofJson? value).map fun color => { layer with shadowColor := some color }
  else if key = "cornerRadius" then
    value.double?.map fun cornerRadius => { layer with cornerRadius }
  else if key = "borderWidth" then
    value.double?.map fun borderWidth => { layer with borderWidth }
  else if key = "shadowOpacity" then
    value.double?.map fun shadowOpacity => { layer with shadowOpacity }
  else if key = "shadowRadius" then
    value.double?.map fun shadowRadius => { layer with shadowRadius }
  else if key = "opacity" then
    value.double?.map fun opacity => { layer with opacity }
  else if key = "masksToBounds" then
    value.bool?.map fun masksToBounds => { layer with masksToBounds }
  else none

end LayerAttributes

namespace NodeKind

/-- **A property of one kind of node**, other than an image: the kind with
it set, or none. A label takes the text attributes as properties, a button
one object for its title. -/
def set? (level : Nat) (kind : NodeKind) (key : String) (value : Json) : Option NodeKind :=
  match kind with
  | label text => (text.setProperty? level key value).map label
  | button titleId title =>
    if key = "title" then
      value.object?.map fun fields => button titleId (title.setTitle level fields)
    else none
  | _ => none

/-- The image that a property asks an image view for: which of the two, and
from what source. -/
def imageRequest? (kind : NodeKind) (key : String) (value : Json) : Option (ImageSlot × String) :=
  match kind, ImageSlot.ofKey? key, imageSource? value with
  | imageView _ _, some slot, some src => some (slot, src)
  | _, _, _ => none

end NodeKind

namespace Node

/-- **A property set on a node**, the kind's own properties first; an image
is not among them, since it has to be loaded. -/
def setProperty? (level : Nat) (node : Node) (key : String) (value : Json) : Option Node :=
  match node.kind.set? level key value with
  | some kind => some { node with kind }
  | none => (node.view.set? key value).map fun view => { node with view }

/-- A key of a layer bag set on a node. -/
def setLayer? (node : Node) (key : String) (value : Json) : Option Node :=
  (node.layer.set? key value).map fun layer => { node with layer }

end Node

end LiveLayout
