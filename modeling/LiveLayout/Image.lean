import LiveLayout.Json.Value
/-!
# Images

Where images come from. The engine neither reads files nor opens
connections: a host hands it a loader, which fetches remote locators and
looks up bundled assets by name.
-/

namespace LiveLayout

/-- An image with the source it came from. -/
structure ImageContent where
  src : String
  data : List UInt8
deriving DecidableEq

/-- What a host provides: remote locators are fetched and may fail with a
reason, any other source is the name of a bundled asset. -/
structure ImageLoader where
  fetch : String → Except String ImageContent
  named? : String → Option ImageContent

namespace ImageLoader

/-- The loader that has nothing. -/
def none : ImageLoader where
  fetch locator := .error ("no image loader configured for " ++ locator)
  named? _ := Option.none

/-- The loader of a fixed collection, under both kinds of source. -/
def ofList (images : List (String × List UInt8)) : ImageLoader where
  fetch locator :=
    match images.lookup locator with
    | some data => .ok ⟨locator, data⟩
    | Option.none => .error ("404 " ++ locator)
  named? name := (images.lookup name).map fun data => ⟨name, data⟩

end ImageLoader

/-- Which of the two images of an image view. -/
inductive ImageSlot where
  | image
  | highlightedImage
deriving DecidableEq

namespace ImageSlot

/-- The key a slot goes by. -/
def key : ImageSlot → String
  | image => "image"
  | highlightedImage => "highlightedImage"

/-- The slot with a key. -/
def ofKey? (key : String) : Option ImageSlot :=
  if key = "image" then some image
  else if key = "highlightedImage" then some highlightedImage
  else none

end ImageSlot

/-- The starts of sources that are fetched rather than looked up. -/
def remoteSchemes : List String := ["http://", "https://", "file://"]

/-- A source that is fetched rather than looked up. -/
def isRemote (src : String) : Bool :=
  remoteSchemes.any fun scheme => scheme.toList.isPrefixOf src.toList

/-- The source an image value names: a text under `src` that is not
empty. -/
def imageSource? (value : Json) : Option String :=
  match (value.member? "src").bind Json.string? with
  | some src => if src = "" then none else some src
  | none => none

end LiveLayout
