import LiveLayout.Binary.Format
/-!
# Shortest digits

A finite number stands for an interval of reals, all that round to it.
Among the decimals of that interval this file selects the ones with the
fewest digits and of those the nearest, an exact tie going to the even
digit. The comparisons are exact, over naturals.
-/

namespace LiveLayout

-- Powers of naturals are the ones of the core library, whatever else is imported.
attribute [local instance (high)] instPowNat

/-- `digits * 10 ^ exponent`, without a sign. -/
structure Decimal where
  digits : Nat
  exponent : Int
deriving DecidableEq

namespace Binary

/-- `digits * 10 ^ exponent` against `quarters * 2 ^ (scale - 2)`, both
brought to one scale. -/
def compareDecimal (d : Decimal) (quarters : Nat) (scale : Int) : Ordering :=
  compare (d.digits * 10 ^ d.exponent.toNat * 2 ^ (2 - scale).toNat)
    (quarters * 2 ^ (scale - 2).toNat * 10 ^ (-d.exponent).toNat)

/-- **The decimal rounds to `significand * 2 ^ exponent`.** The interval
reaches half way to the neighbours, in quarters of the last place two to
either side, but only one below a power of two, where the neighbour is
half as far (`narrow`). An even significand takes in the ends. -/
def roundsTo (narrow : Bool) (significand : Nat) (exponent : Int) (d : Decimal) : Bool :=
  let ends := significand % 2 == 0
  let low := compareDecimal d (4 * significand - if narrow then 1 else 2) exponent
  let high := compareDecimal d (4 * significand + 2) exponent
  (low == .gt || (ends && low == .eq)) && (high == .lt || (ends && high == .eq))

/-- The better of the two decimals with the given exponent that enclose the
value, if one of them rounds to it. -/
def nearestOn (narrow : Bool) (significand : Nat) (exponent grid : Int) : Option Decimal :=
  let below := significand * 2 ^ exponent.toNat * 10 ^ (-grid).toNat
    / (2 ^ (-exponent).toNat * 10 ^ grid.toNat)
  let down : Decimal := ⟨below, grid⟩
  let up : Decimal := ⟨below + 1, grid⟩
  match roundsTo narrow significand exponent down, roundsTo narrow significand exponent up with
  | true, true =>
    -- Twice the value against the sum of the two candidates decides.
    match compareDecimal ⟨2 * below + 1, grid⟩ (8 * significand) exponent with
    | .gt => some down
    | .lt => some up
    | .eq => some (if below % 2 = 0 then down else up)
  | true, false => some down
  | false, true => some up
  | false, false => none

/-- **The shortest decimal that rounds to the number**, for a positive
finite one. The grids of powers of ten are tried from one above the value
downwards, and on some grid of at most seventeen more places a decimal
lies within the interval. -/
def shortest {f : Format} (x : Binary f) : Decimal :=
  match x.value with
  | .finite _ significand exponent =>
    let narrow := significand == 2 ^ (f.precision - 1) && f.minExponent < exponent
    let top : Int := (exponent + significand.log2 + 1) * 30103 / 100000 + 1
    let found := (List.range 24).findSome? fun (step : Nat) =>
      nearestOn narrow significand exponent (top - step)
    found.getD ⟨significand, exponent⟩
  | _ => ⟨0, 0⟩

end Binary

end LiveLayout
