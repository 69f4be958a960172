import LiveLayout.Binary.Format
import LiveLayout.Json.Value
import LiveLayout.Text.Digit
/-!
# Colours

A colour is four channels from zero to one. A document names it by one of
six names or by hexadecimal digits behind a hash sign, or gives it as an
object with a text and a separate alpha.
-/

namespace LiveLayout

/-- A colour with its opacity. -/
structure Color where
  red : Binary32
  green : Binary32
  blue : Binary32
  alpha : Binary32
deriving DecidableEq

namespace Color

/-- No colour at all: black, wholly transparent. -/
def clear : Color := ⟨.zero, .zero, .zero, .zero⟩

/-- An opaque colour from channels in tenths. -/
def ofTenths (red green blue : Nat) : Color :=
  ⟨.ofRatio false red 10, .ofRatio false green 10, .ofRatio false blue 10, .one⟩

/-- The colours that have names. -/
def named : List (String × Color) :=
  [("black", ofTenths 0 0 0), ("white", ofTenths 10 10 10), ("green", ofTenths 0 10 0),
    ("brown", ofTenths 6 4 2), ("blue", ofTenths 0 0 10), ("red", ofTenths 10 0 0)]

/-- The colour with a name. -/
def ofName? (name : String) : Option Color :=
  named.lookup name

/-- A channel given as a byte. -/
def channel (byte : Nat) : Binary32 := .ofRatio false byte 255

/-- A colour from four bytes, each in a word of its own. -/
def ofBytes (alpha red green blue : UInt32) : Color :=
  ⟨channel red.toNat, channel green.toNat, channel blue.toNat, channel alpha.toNat⟩

/-- A hexadecimal digit pushed into a word from the right. What is pushed out
of the 32 bits at the left is lost. -/
def pushDigit? (word : UInt32) (c : Char) : Option UInt32 :=
  (Text.hexValue? c).map fun digit => word <<< 4 ||| UInt32.ofNat digit

/-- **The word of hexadecimal digits**, if all characters are digits. -/
def hexWord? (digits : List Char) : Option UInt32 := digits.foldlM pushDigit? 0

/-- **The colour of hexadecimal digits**, cut out of their word. Eight are two
for each of alpha, red, green and blue; six leave out alpha, which is then
full; three are six with each digit doubled. Any other count is no colour at
all. -/
def ofHexDigits (digits : List Char) : Color :=
  match hexWord? digits, digits.length with
  | some word, 3 =>
    ofBytes 255 ((word >>> 8) * 17) ((word >>> 4 &&& 0xF) * 17) ((word &&& 0xF) * 17)
  | some word, 6 => ofBytes 255 (word >>> 16) (word >>> 8 &&& 0xFF) (word &&& 0xFF)
  | some word, 8 =>
    ofBytes (word >>> 24) (word >>> 16 &&& 0xFF) (word >>> 8 &&& 0xFF) (word &&& 0xFF)
  | _, _ => clear

/-- The colour of a text of hexadecimal digits, with or without a hash sign
in front; a text with any other character in it is no colour at all. -/
def ofHex (text : String) : Color :=
  match text.toList with
  | '#' :: digits => ofHexDigits digits
  | digits => ofHexDigits digits

/-- **The colour a text names**: a name, or a hash sign and one or more
hexadecimal digits. -/
def parse? (text : String) : Option Color :=
  match text.toList with
  | '#' :: digits =>
    if !digits.isEmpty && digits.all fun c => (Text.hexValue? c).isSome then
      some (ofHex (String.ofList digits))
    else none
  | _ => ofName? text

/-- The colour with another alpha, held between zero and one. -/
def withAlpha (color : Color) (alpha : Binary32) : Color :=
  { color with alpha := alpha.clamp .zero .one }

/-- The colour a document value names: a text, or an object with a text and
an alpha. There an alpha that is absent or no number is full. -/
def ofJson? : Json → Option Color
  | .string text => parse? text
  | .object members =>
    match members.lookup "hexValue" with
    | some (.string text) =>
      let alpha := ((members.lookup "alpha").bind Json.double?).getD .one
      (parse? text).map fun color => color.withAlpha alpha.convert
    | _ => none
  | _ => none

end Color

end LiveLayout
