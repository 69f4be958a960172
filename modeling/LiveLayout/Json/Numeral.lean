import LiveLayout.Datum.Basic
import LiveLayout.Decimal.Numeral
/-!
# Numerals in JSON text

Which numerals JSON allows, and what they stand for. An integer that fits
64 bits stays one. Any other numeral becomes a floating-point number by a
quick rule rather than an exact one: the leading digits that fit 64 bits
are converted, and the result is scaled once by a power of ten. It may be a
last place away from the number nearest to the numeral, which
`Decimal.toBinary` gives.
-/

namespace LiveLayout

-- Powers of naturals are the ones of the core library, whatever else is imported.
attribute [local instance (high)] instPowNat

namespace Numeral

/-- **A numeral of JSON** has no plus in front, a digit before the point, no
zero before another digit there, and a digit after a point. -/
def isStrict (n : Numeral) : Bool :=
  n.sign != some '+' && !n.whole.isEmpty && (n.whole.length == 1 || n.whole.head? != some 0) &&
    n.fraction.all (fun digits => !digits.isEmpty) && n.hasFullExponent

/-- Digits are appended to a significand as long as the result fits 64
bits; the ones from there on are left over. -/
def takeFitting (significand : Nat) : List Nat → Nat × List Nat
  | [] => (significand, [])
  | d :: ds =>
    if significand * 10 + d < UInt64.size then takeFitting (significand * 10 + d) ds
    else (significand, d :: ds)

/-- **The leading digits and their exponent.** A left-over digit before the
point still counts as a place, one behind it does not. -/
def leading (n : Numeral) : Nat × Int :=
  let fraction := n.fraction.getD []
  let (significand, wholeLeft) := takeFitting 0 n.whole
  let (significand, fractionLeft) := takeFitting significand fraction
  (significand, n.exponentValue + wholeLeft.length - (fraction.length - fractionLeft.length : Nat))

/-- A power of ten as a floating-point number. -/
def powerOfTen (k : Nat) : Binary64 := .ofNat (10 ^ k)

/-- **A significand scaled by a power of ten**, one operation for exponents
up to 308 either way. Beyond, a positive exponent is too large for any
significand but zero; a negative one takes a second division, and past that
nothing is left. -/
def scale? (significand : Nat) (exponent : Int) : Option Binary64 :=
  let x : Binary64 := .ofNat significand
  if 308 < exponent then
    if significand = 0 then some .zero else none
  else if 0 ≤ exponent then
    let y := x.mul (powerOfTen exponent.toNat)
    if y.isFinite then some y else none
  else if -308 ≤ exponent then
    some (x.div (powerOfTen (-exponent).toNat))
  else if -616 ≤ exponent then
    some ((x.div (powerOfTen 308)).div (powerOfTen (-exponent - 308).toNat))
  else some .zero

/-- The numeral has neither a point nor an exponent. -/
def isInteger (n : Numeral) : Bool := n.fraction.isNone && n.exponent.isNone

/-- **What a numeral of JSON stands for.** Minus zero is a floating-point
number, since no integer is; a numeral too large to be finite is
invalid. -/
def toDatum (n : Numeral) : Datum :=
  let magnitude := Text.ofDigits 10 n.whole
  if n.isInteger && !n.isNegative && magnitude < UInt64.size then
    .natural (UInt64.ofNat magnitude)
  else if n.isInteger && n.isNegative && 0 < magnitude && Int64.minValue.toInt ≤ -magnitude then
    .integer (Int64.ofInt (-magnitude))
  else
    match scale? n.leading.1 n.leading.2 with
    | some x => .double (if n.isNegative then x.neg else x)
    | none => .invalid

end Numeral

end LiveLayout
