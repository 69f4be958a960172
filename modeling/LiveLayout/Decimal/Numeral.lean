import LiveLayout.Binary.Shortest
import LiveLayout.Text.Blank
import LiveLayout.Text.Digit
/-!
# Decimal numerals

A numeral is scanned into its parts first, as far as they go, and what
parts are required is decided afterwards: free text and documents share the
scanner and differ in that decision. `Decimal.toBinary` is the number
nearest to a decimal.
-/

namespace LiveLayout

-- Powers of naturals are the ones of the core library, whatever else is imported.
attribute [local instance (high)] instPowNat

/-- The parts of a numeral as they stand in a text: a sign, the digits in
front of the point, those behind it if there is a point, and a sign and
digits if there is an exponent mark. Any run of digits may be empty. -/
structure Numeral where
  sign : Option Char
  whole : List Nat
  fraction : Option (List Nat)
  exponent : Option (Option Char × List Nat)
deriving DecidableEq

namespace Numeral

/-- The digits a text starts with, and the rest. -/
def scanDigits : List Char → List Nat × List Char
  | [] => ([], [])
  | c :: cs =>
    match Text.decimalValue? c with
    | some d => (d :: (scanDigits cs).1, (scanDigits cs).2)
    | none => ([], c :: cs)

/-- The sign a text starts with, if any, and the rest. -/
def scanSign : List Char → Option Char × List Char
  | [] => (none, [])
  | c :: cs => if c = '+' ∨ c = '-' then (some c, cs) else (none, c :: cs)

/-- The point and the digits behind it, if a text starts with a point. -/
def scanFraction : List Char → Option (List Nat) × List Char
  | [] => (none, [])
  | c :: cs =>
    if c = '.' then (some (scanDigits cs).1, (scanDigits cs).2) else (none, c :: cs)

/-- The exponent, if a text starts with an exponent mark. -/
def scanExponent : List Char → Option (Option Char × List Nat) × List Char
  | [] => (none, [])
  | c :: cs =>
    if c = 'e' ∨ c = 'E' then
      let (sign, digits) := scanSign cs
      (some (sign, (scanDigits digits).1), (scanDigits digits).2)
    else (none, c :: cs)

/-- The numeral a text starts with, and the rest. -/
def scan (cs : List Char) : Numeral × List Char :=
  let (sign, cs) := scanSign cs
  let (whole, cs) := scanDigits cs
  let (fraction, cs) := scanFraction cs
  let (exponent, cs) := scanExponent cs
  (⟨sign, whole, fraction, exponent⟩, cs)

/-- The sign is a minus. -/
def isNegative (n : Numeral) : Bool := n.sign == some '-'

/-- An exponent mark is followed by a digit. -/
def hasFullExponent (n : Numeral) : Bool := n.exponent.all fun e => !e.2.isEmpty

/-- **In free text** a numeral needs a digit on one side of the point. -/
def isFree (n : Numeral) : Bool :=
  !(n.whole.isEmpty && (n.fraction.getD []).isEmpty) && n.hasFullExponent

/-- The exponent as a number; none is zero. -/
def exponentValue (n : Numeral) : Int :=
  match n.exponent with
  | none => 0
  | some (sign, digits) =>
    let magnitude : Int := Text.ofDigits 10 digits
    if sign == some '-' then -magnitude else magnitude

/-- The value without its sign. -/
def decimal (n : Numeral) : Decimal :=
  let fraction := n.fraction.getD []
  ⟨Text.ofDigits 10 (n.whole ++ fraction), n.exponentValue - fraction.length⟩

end Numeral

namespace Decimal

/-- **The number nearest to a decimal**, with a sign. No format here
reaches from `10 ^ -400` to `10 ^ 400`, so a decimal beyond is settled by
its size, before a power of ten is computed. -/
def toBinary {f : Format} (negative : Bool) (d : Decimal) : Binary f :=
  let size : Int := (Text.digits 10 d.digits).length + d.exponent
  if d.digits = 0 ∨ size < -400 then Binary.signed negative 0
  else if 400 < size then Binary.infinite negative
  else Binary.ofRatio negative (d.digits * 10 ^ d.exponent.toNat) (10 ^ (-d.exponent).toNat)

end Decimal

/-- **A number from free text**: a numeral and nothing else, blanks at the
ends apart. A numeral too large for a finite number is refused. -/
def readNumber? (text : String) : Option Binary64 :=
  let (numeral, rest) := Numeral.scan (Text.trim text.toList)
  if rest.isEmpty && numeral.isFree then
    let x := numeral.decimal.toBinary numeral.isNegative
    if x.isFinite then some x else none
  else none

end LiveLayout
