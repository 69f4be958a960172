import LiveLayout.Binary.Shortest
import LiveLayout.Text.Digit
/-!
# Writing numbers

How a finite number is laid out in text once its digits are chosen. A
number always shows a point or an exponent, so that it reads back as a
number of its own kind and not as an integer.
-/

namespace LiveLayout

/-- Where plain notation ends: the least and the greatest decimal exponent
of the first digit that is written without an exponent. -/
structure Layout where
  least : Int
  greatest : Int

namespace Layout

/-- The layout of 64-bit numbers. -/
def double : Layout := ⟨-5, 15⟩

/-- The layout of 32-bit numbers. -/
def single : Layout := ⟨-6, 12⟩

/-- **A decimal in text.** Plain notation has a digit on either side of the
point; the other has one digit before it, nothing after it if there are no
more digits, and the exponent with its sign. -/
def render (layout : Layout) (d : Decimal) : String :=
  let digits := (Text.digits 10 d.digits).map Text.digitChar
  let first : Int := d.exponent + digits.length - 1
  let text : List Char :=
    if first < layout.least ∨ layout.greatest < first then
      let (lead, rest) := (digits.take 1, digits.drop 1)
      lead ++ (if rest.isEmpty then [] else '.' :: rest) ++
        ('e' :: (if first < 0 then '-' else '+') :: (Text.decimal first.natAbs).toList)
    else if first < 0 then
      '0' :: '.' :: List.replicate (first.natAbs - 1) '0' ++ digits
    else
      let whole := first.toNat + 1
      let rest := digits.drop whole
      digits.take whole ++ List.replicate (whole - digits.length) '0' ++
        '.' :: (if rest.isEmpty then ['0'] else rest)
  String.ofList text

/-- A number in text, if it is finite: its sign, then `0.0` or its shortest
decimal. -/
def number? {f : Format} (layout : Layout) (x : Binary f) : Option String :=
  match x.value with
  | .finite negative significand _ =>
    let sign := if negative then "-" else ""
    some (sign ++ if significand = 0 then "0.0" else layout.render x.shortest)
  | _ => none

end Layout

end LiveLayout
