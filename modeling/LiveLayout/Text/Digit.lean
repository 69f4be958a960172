/-!
# Digits

Reading and writing natural numbers in a base, one character a digit.
-/

namespace LiveLayout

namespace Text

/-- The value of a decimal digit. -/
def decimalValue? (c : Char) : Option Nat :=
  if '0' ≤ c ∧ c ≤ '9' then some (c.toNat - '0'.toNat) else none

/-- The value of a hexadecimal digit, in either case. -/
def hexValue? (c : Char) : Option Nat :=
  if '0' ≤ c ∧ c ≤ '9' then some (c.toNat - '0'.toNat)
  else if 'a' ≤ c ∧ c ≤ 'f' then some (c.toNat - 'a'.toNat + 10)
  else if 'A' ≤ c ∧ c ≤ 'F' then some (c.toNat - 'A'.toNat + 10)
  else none

/-- The letters a numeral is written with, smallest digit first. -/
def digitChars : List Char :=
  ['0', '1', '2', '3', '4', '5', '6', '7', '8', '9', 'a', 'b', 'c', 'd', 'e', 'f']

/-- A digit as a character; the digits of base sixteen are lower case. -/
def digitChar (d : Nat) : Char :=
  digitChars.getD d '0'

/-- The number a list of digits stands for, first digit highest. -/
def ofDigits (base : Nat) (digits : List Nat) : Nat :=
  digits.foldl (fun n d => n * base + d) 0

/-- The digits of a number from the highest, put in front of `rest`. A base
below two has no such digits, and then none are written. -/
def digitsOnto (base n : Nat) (rest : List Nat) : List Nat :=
  if n < base ∨ base < 2 then n :: rest
  else digitsOnto base (n / base) (n % base :: rest)
termination_by n
decreasing_by exact Nat.div_lt_self (by omega) (by omega)

/-- The shortest digits of a number, highest first; zero has one. -/
def digits (base n : Nat) : List Nat :=
  digitsOnto base n []

/-- A natural number in decimal. -/
def decimal (n : Nat) : String :=
  String.ofList ((digits 10 n).map digitChar)

/-- An integer in decimal, with a sign if it is negative. -/
def signedDecimal (i : Int) : String :=
  if i < 0 then "-" ++ decimal i.natAbs else decimal i.natAbs

/-- A natural number in hexadecimal, lower case, without leading zeros. -/
def hexadecimal (n : Nat) : String :=
  String.ofList ((digits 16 n).map digitChar)

/-- A natural number in hexadecimal, with leading zeros up to `width`
digits. -/
def paddedHexadecimal (width n : Nat) : String :=
  let shown := (digits 16 n).map digitChar
  String.ofList (List.replicate (width - shown.length) '0' ++ shown)

end Text

end LiveLayout
