/-!
# Binary interchange formats

A floating-point number of the standard's binary formats, as its bits. A
format is a precision and a width of the exponent field, and everything
here is stated once for all formats: what number a bit pattern stands for
(`Binary.value`), and the pattern nearest to a quotient of two naturals
(`Binary.ofRatio`). An operation needs no algorithm of its own: it computes
the exact result and rounds once.

A pattern is kept as it is, also where it stands for no number, so a value
that only passes through keeps all of its bits.
-/

namespace LiveLayout

-- Powers of naturals are the ones of the core library, whatever else is imported.
attribute [local instance (high)] instPowNat

/-- A binary format: how many significant bits a number has, the leading
one included, and how wide the exponent field is. -/
structure Format where
  precision : Nat
  exponentBits : Nat
deriving DecidableEq

namespace Format

/-- The 64-bit format. -/
def double : Format := ⟨53, 11⟩

/-- The 32-bit format. -/
def single : Format := ⟨24, 8⟩

/-- All bits: the sign, the exponent field and the fraction. -/
abbrev width (f : Format) : Nat := f.precision + f.exponentBits

/-- The exponent of the last place of the least numbers. -/
def minExponent (f : Format) : Int := 3 - (2 ^ (f.exponentBits - 1) : Nat) - f.precision

/-- The pattern of infinity: every exponent bit set, no fraction. -/
def infinity (f : Format) : Nat := (2 ^ f.exponentBits - 1) * 2 ^ (f.precision - 1)

/-- The pattern of the sign alone. -/
def signBit (f : Format) : Nat := 2 ^ (f.width - 1)

/-- **Round to nearest, ties to even.** The pattern, without a sign, of the
number nearest to `num / den`; a result past the largest number is
infinity. The quotient is scaled by a power of two until its whole part has
the format's precision, or the exponent is as low as it goes; a carry out
of the significand runs into the exponent field by itself. -/
def round (f : Format) (num den : Nat) : Nat :=
  if num = 0 then 0
  else
    let low : Int := num.log2 - den.log2 - f.precision
    let scaled (e : Int) : Nat × Nat := (num * 2 ^ (-e).toNat, den * 2 ^ e.toNat)
    let exponent :=
      max f.minExponent (if (scaled low).1 / (scaled low).2 < 2 ^ f.precision then low else low + 1)
    let (n, d) := scaled exponent
    let whole := n / d
    let rest := n % d
    let significand :=
      if d < 2 * rest ∨ (2 * rest = d ∧ whole % 2 = 1) then whole + 1 else whole
    min f.infinity ((exponent - f.minExponent).toNat * 2 ^ (f.precision - 1) + significand)

end Format

/-- A number of a binary format, as its bits. -/
structure Binary (f : Format) where
  bits : BitVec f.width
deriving DecidableEq

/-- Numbers of the 64-bit format. -/
abbrev Binary64 := Binary Format.double

/-- Numbers of the 32-bit format. -/
abbrev Binary32 := Binary Format.single

namespace Binary

/-- What a bit pattern stands for: no number, an infinity, or
`± significand * 2 ^ exponent`. -/
inductive Value where
  | nan
  | infinite (negative : Bool)
  | finite (negative : Bool) (significand : Nat) (exponent : Int)
deriving DecidableEq

variable {f : Format}

/-- The number with these bits. -/
def ofBits (n : Nat) : Binary f := ⟨BitVec.ofNat f.width n⟩

/-- The sign bit is set. -/
def isNegative (x : Binary f) : Bool := f.signBit ≤ x.bits.toNat

/-- The exponent field. -/
def exponentField (x : Binary f) : Nat :=
  x.bits.toNat / 2 ^ (f.precision - 1) % 2 ^ f.exponentBits

/-- The fraction field. -/
def fraction (x : Binary f) : Nat := x.bits.toNat % 2 ^ (f.precision - 1)

/-- What the bits stand for. -/
def value (x : Binary f) : Value :=
  if x.exponentField = 2 ^ f.exponentBits - 1 then
    if x.fraction = 0 then .infinite x.isNegative else .nan
  else if x.exponentField = 0 then
    .finite x.isNegative x.fraction f.minExponent
  else
    .finite x.isNegative (2 ^ (f.precision - 1) + x.fraction) (f.minExponent + x.exponentField - 1)

/-- The number is neither infinite nor absent. -/
def isFinite (x : Binary f) : Bool := x.exponentField != 2 ^ f.exponentBits - 1

/-- The bits stand for no number. -/
def isNaN (x : Binary f) : Bool := x.exponentField == 2 ^ f.exponentBits - 1 && x.fraction != 0

/-- A pattern without a sign, given one. -/
def signed (negative : Bool) (magnitude : Nat) : Binary f :=
  ofBits (if negative then f.signBit + magnitude else magnitude)

/-- **The number nearest to a quotient**, with a sign; a zero keeps it. -/
def ofRatio (negative : Bool) (num den : Nat) : Binary f :=
  signed negative (f.round num den)

/-- The number nearest to `significand * 2 ^ exponent`, with a sign. -/
def ofScaled (negative : Bool) (significand : Nat) (exponent : Int) : Binary f :=
  ofRatio negative (significand * 2 ^ exponent.toNat) (2 ^ (-exponent).toNat)

/-- The number nearest to a natural. -/
def ofNat (n : Nat) : Binary f := ofRatio false n 1

/-- The number nearest to an integer. -/
def ofInt (i : Int) : Binary f := ofRatio (i < 0) i.natAbs 1

/-- Positive zero. -/
def zero : Binary f := ofBits 0

/-- One. -/
def one : Binary f := ofNat 1

/-- An infinity. -/
def infinite (negative : Bool) : Binary f := signed negative f.infinity

/-- The pattern that results where an operation has no answer. -/
def nan : Binary f := ofBits (f.infinity + 2 ^ (f.precision - 2))

/-- The number with the other sign. -/
def neg (x : Binary f) : Binary f := ⟨x.bits ^^^ BitVec.ofNat f.width f.signBit⟩

/-- The value as an integer, where it is one. -/
def toInt? (x : Binary f) : Option Int :=
  match x.value with
  | .finite negative significand exponent =>
    let divisor := 2 ^ (-exponent).toNat
    if significand % divisor = 0 then
      let magnitude : Int := (significand / divisor * 2 ^ exponent.toNat : Nat)
      some (if negative then -magnitude else magnitude)
    else none
  | _ => none

/-- **The sum, rounded once.** Two infinities of one sign add up to it and
of two signs to no number; an exact zero is positive unless both terms are
negative. -/
def add (x y : Binary f) : Binary f :=
  match x.value, y.value with
  | .nan, _ => x
  | _, .nan => y
  | .infinite s, .infinite t => if s = t then x else nan
  | .infinite _, _ => x
  | _, .infinite _ => y
  | .finite s m p, .finite t n q =>
    let exponent := min p q
    let term (negative : Bool) (significand : Nat) (e : Int) : Int :=
      let magnitude : Int := (significand * 2 ^ (e - exponent).toNat : Nat)
      if negative then -magnitude else magnitude
    let sum := term s m p + term t n q
    ofScaled (if sum = 0 then s && t else sum < 0) sum.natAbs exponent

/-- **The product, rounded once.** An infinity times zero is no number. -/
def mul (x y : Binary f) : Binary f :=
  match x.value, y.value with
  | .nan, _ => x
  | _, .nan => y
  | .infinite s, .infinite t => infinite (s != t)
  | .infinite s, .finite t n _ => if n = 0 then nan else infinite (s != t)
  | .finite s m _, .infinite t => if m = 0 then nan else infinite (s != t)
  | .finite s m p, .finite t n q => ofScaled (s != t) (m * n) (p + q)

/-- **The quotient, rounded once.** Anything but zero over zero is an
infinity; zero over zero, and one infinity over another, are no number. -/
def div (x y : Binary f) : Binary f :=
  match x.value, y.value with
  | .nan, _ => x
  | _, .nan => y
  | .infinite _, .infinite _ => nan
  | .infinite s, .finite t _ _ => infinite (s != t)
  | .finite s _ _, .infinite t => signed (s != t) 0
  | .finite s m p, .finite t n q =>
    if n = 0 then (if m = 0 then nan else infinite (s != t))
    else ofRatio (s != t) (m * 2 ^ (p - q).toNat) (n * 2 ^ (q - p).toNat)

/-- **The value in another format**, rounded to nearest where it has less
precision. A pattern that stands for no number keeps its sign and the
leading bits of its fraction, with the first of them set. -/
def convert {g : Format} (x : Binary f) : Binary g :=
  match x.value with
  | .nan =>
    let fraction := x.fraction * 2 ^ (g.precision - 1) / 2 ^ (f.precision - 1)
    signed x.isNegative (g.infinity + (fraction ||| 2 ^ (g.precision - 2)))
  | .infinite negative => infinite negative
  | .finite negative significand exponent => ofScaled negative significand exponent

/-- Both have a value and the first lies below the second. -/
def lt (x y : Binary f) : Bool :=
  let key (z : Binary f) : Int :=
    if z.isNegative then -((z.bits.toNat - f.signBit : Nat) : Int) else z.bits.toNat
  !x.isNaN && !y.isNaN && key x < key y

/-- The number, held between two bounds. No number stays none. -/
def clamp (x low high : Binary f) : Binary f :=
  if x.lt low then low else if high.lt x then high else x

end Binary

end LiveLayout
