import LiveLayout.Proofs.Numerals
import Mathlib.Algebra.Group.Nat.Defs
/-!
# Numbers too large for a format

A sign has no part in rounding, so a number read from a decimal is a
pattern with a sign put on it (`Decimal.toBinary_eq_signed`), and the other
sign makes it the negated number. What a natural rounds to is infinite from
one natural on (`Decimal.isFinite_toBinary_iff`): the largest number of the
64-bit format is `2 ^ 1024 - 2 ^ 971`, and half a place above it the tie
goes to the even significand, which no longer fits.
-/

namespace LiveLayout

-- Powers of naturals are the ones of the core library, whatever else is imported.
attribute [local instance (high)] instPowNat

/-! ## Signs -/

namespace Binary

variable {f : Format} {magnitude : Nat}

/-- A bit above all others of a number is put on it by exclusive or. -/
theorem xor_two_pow_of_lt {k n : Nat} (h : n < 2 ^ k) : n ^^^ 2 ^ k = 2 ^ k + n := by
  have hor : 2 ^ k + n = 2 ^ k ||| n := by
    have hor := Nat.two_pow_add_eq_or_of_lt h 1
    rwa [Nat.mul_one] at hor
  rw [hor]
  refine Nat.eq_of_testBit_eq fun i => ?_
  rw [Nat.testBit_xor, Nat.testBit_or]
  by_cases hi : k = i
  · subst hi
    rw [Nat.testBit_lt_two_pow h, Bool.false_xor, Bool.or_false]
  · rw [Nat.testBit_two_pow_of_ne hi, Bool.xor_false, Bool.false_or]

/-- **The other sign** is the other sign of the pattern. -/
theorem neg_signed (h : magnitude < f.signBit) :
    (signed false magnitude : Binary f).neg = signed true magnitude := by
  show Binary.mk (BitVec.ofNat f.width magnitude ^^^ BitVec.ofNat f.width f.signBit) =
    Binary.mk (BitVec.ofNat f.width (f.signBit + magnitude))
  rw [← BitVec.ofNat_xor]
  exact congrArg (fun n => Binary.mk (BitVec.ofNat f.width n)) (xor_two_pow_of_lt h)

/-- **A pattern with a sign is finite** below that of infinity. -/
theorem isFinite_signed_iff {negative : Bool} (h : magnitude ≤ Format.double.infinity) :
    (signed negative magnitude : Binary64).isFinite = true ↔
      magnitude < Format.double.infinity := by
  have hinfinity : Format.double.infinity = 2047 * 2 ^ 52 := by decide
  have hbits : (signed negative magnitude : Binary64).bits.toNat =
      (if negative then 2 ^ 63 + magnitude else magnitude) % 2 ^ 64 := rfl
  have hfield : (signed negative magnitude : Binary64).isFinite =
      (((signed negative magnitude : Binary64).bits.toNat / 2 ^ 52 % 2 ^ 11) != 2047) := rfl
  rw [hfield, hbits, bne_iff_ne]
  rw [hinfinity] at h ⊢
  cases negative
  · simp only [Bool.false_eq_true, if_false]
    omega
  · simp only [if_true]
    omega

end Binary

/-! ## The pattern of a decimal -/

/-- Infinity is as far as rounding goes. -/
theorem Format.round_le (f : Format) (num den : Nat) : f.round num den ≤ f.infinity := by
  unfold round
  split
  · exact Nat.zero_le _
  · exact Nat.min_le_left _ _

namespace Decimal

variable {f : Format} {d : Decimal}

/-- **The pattern of the number nearest to a decimal**, without a sign. -/
def pattern (f : Format) (d : Decimal) : Nat :=
  let size : Int := (Text.digits 10 d.digits).length + d.exponent
  if d.digits = 0 ∨ size < -400 then 0
  else if 400 < size then f.infinity
  else f.round (d.digits * 10 ^ d.exponent.toNat) (10 ^ (-d.exponent).toNat)

/-- **The number nearest to a decimal** is its pattern with a sign. -/
theorem toBinary_eq_signed (negative : Bool) (d : Decimal) :
    (d.toBinary negative : Binary f) = Binary.signed negative (d.pattern f) := by
  unfold toBinary pattern
  simp only
  split
  · rfl
  · split <;> rfl

theorem pattern_le : d.pattern f ≤ f.infinity := by
  unfold pattern
  simp only
  split
  · exact Nat.zero_le _
  · split
    · exact Nat.le_refl _
    · exact f.round_le _ _

/-- **A sign in front of a decimal** negates its number. -/
theorem neg_toBinary (d : Decimal) :
    (d.toBinary false : Binary64).neg = d.toBinary true := by
  have hbelow : Format.double.infinity < Format.double.signBit := by decide
  rw [toBinary_eq_signed, toBinary_eq_signed]
  exact Binary.neg_signed (Nat.lt_of_le_of_lt pattern_le hbelow)

end Decimal

/-! ## Rounding a natural -/

namespace Format

/-- A quotient rounded to the nearest natural, ties to even. -/
def nearest (n d : Nat) : Nat :=
  if d < 2 * (n % d) ∨ (2 * (n % d) = d ∧ n / d % 2 = 1) then n / d + 1 else n / d

/-- The least natural that is too large for a number of the 64-bit format. -/
def excess : Nat := 2 ^ 1024 - 2 ^ 970

/-- **A natural rounded**: its leading 53 bits, rounded by what follows them,
in the binade of its logarithm. -/
theorem round_natural {n : Nat} (hn : n ≠ 0) :
    double.round n 1 = min double.infinity
      ((n.log2 + 1022) * 2 ^ 52 + nearest (n * 2 ^ (52 - n.log2)) (2 ^ (n.log2 - 52))) := by
  have hlow : (n.log2 : Int) - (Nat.log2 1 : Nat) - (53 : Nat) = n.log2 - 53 := by
    have hone : Nat.log2 1 = 0 := by decide
    omega
  -- already one place lower there are too many bits
  have hfull : ¬n * 2 ^ (-((n.log2 : Int) - 53)).toNat / (1 * 2 ^ ((n.log2 : Int) - 53).toNat) <
      2 ^ 53 := by
    have hup : (-((n.log2 : Int) - 53)).toNat = 53 - n.log2 := by omega
    have hdown : ((n.log2 : Int) - 53).toNat = n.log2 - 53 := by omega
    rw [hup, hdown, Nat.one_mul, Nat.not_lt, Nat.le_div_iff_mul_le (Nat.two_pow_pos _)]
    calc 2 ^ 53 * 2 ^ (n.log2 - 53) = 2 ^ n.log2 * 2 ^ (53 - n.log2) := by
          rw [← Nat.pow_add, ← Nat.pow_add]
          congr 1
          omega
      _ ≤ n * 2 ^ (53 - n.log2) := Nat.mul_le_mul_right _ (Nat.log2_self_le hn)
  have hexponent : max double.minExponent ((n.log2 : Int) - 53 + 1) = n.log2 - 52 := by
    have hmin : double.minExponent = -1074 := by decide
    omega
  have hplace : ((n.log2 : Int) - 52 - double.minExponent).toNat = n.log2 + 1022 := by
    have hmin : double.minExponent = -1074 := by decide
    omega
  have hup : (-((n.log2 : Int) - 52)).toNat = 52 - n.log2 := by omega
  have hdown : ((n.log2 : Int) - 52).toNat = n.log2 - 52 := by omega
  unfold round
  rw [if_neg hn]
  simp only
  rw [show double.precision = 53 from rfl, hlow, if_neg hfull, hexponent, hplace, hup, hdown,
    Nat.one_mul]
  rfl

variable {n d : Nat}

theorem nearest_cases (n d : Nat) : nearest n d = n / d ∨ nearest n d = n / d + 1 := by
  unfold nearest
  split
  · exact .inr rfl
  · exact .inl rfl

/-- The leading bits of a natural have the format's precision. -/
theorem leading_bounds (hn : n ≠ 0) :
    2 ^ 52 ≤ n * 2 ^ (52 - n.log2) / 2 ^ (n.log2 - 52) ∧
      n * 2 ^ (52 - n.log2) / 2 ^ (n.log2 - 52) < 2 ^ 53 := by
  have hsplit : 52 + (n.log2 - 52) = n.log2 + (52 - n.log2) := by omega
  refine ⟨?_, ?_⟩
  · rw [Nat.le_div_iff_mul_le (Nat.two_pow_pos _), ← Nat.pow_add, hsplit, Nat.pow_add]
    exact Nat.mul_le_mul_right _ (Nat.log2_self_le hn)
  · have hnext : 53 + (n.log2 - 52) = n.log2 + 1 + (52 - n.log2) := by omega
    rw [Nat.div_lt_iff_lt_mul (Nat.two_pow_pos _), ← Nat.pow_add, hnext, Nat.pow_add]
    exact Nat.mul_lt_mul_of_pos_right Nat.lt_log2_self (Nat.two_pow_pos _)

/-- **The last binade.** Its numbers carry into the next one from half a
place above the largest on. -/
theorem nearest_eq_carry_iff {half : Nat} (hhalf : 0 < half)
    (hn : n < 2 ^ 53 * (2 * half)) :
    nearest n (2 * half) = 2 ^ 53 ↔ (2 ^ 54 - 1) * half ≤ n := by
  have hdivision : n / (2 * half) * (2 * half) + n % (2 * half) = n := Nat.div_add_mod' n _
  have hrest : n % (2 * half) < 2 * half := Nat.mod_lt _ (by omega)
  have hwhole : n / (2 * half) < 2 ^ 53 := (Nat.div_lt_iff_lt_mul (by omega)).2 hn
  unfold nearest
  generalize n / (2 * half) = whole at hdivision hwhole ⊢
  generalize n % (2 * half) = rest at hdivision hrest ⊢
  by_cases hlast : whole = 2 ^ 53 - 1
  · subst hlast
    split <;> omega
  · have hle : whole * (2 * half) ≤ (2 ^ 53 - 2) * (2 * half) :=
      Nat.mul_le_mul_right _ (by omega)
    split <;> omega

/-- **What is too large** rounds to infinity, and nothing else does. -/
theorem round_natural_eq_infinity_iff (n : Nat) :
    double.round n 1 = double.infinity ↔ excess ≤ n := by
  have hinfinity : double.infinity = 2047 * 2 ^ 52 := by decide
  have hexcess : excess = (2 ^ 54 - 1) * 2 ^ 970 := by decide +kernel
  have hlast : 2 ^ 1023 = 2 ^ 53 * 2 ^ 970 := by decide +kernel
  have hover : 2 ^ 1024 = 2 ^ 54 * 2 ^ 970 := by decide +kernel
  have hhalf : 0 < 2 ^ 970 := by decide +kernel
  by_cases hn : n = 0
  · subst hn
    have hzero : double.round 0 1 = 0 := rfl
    rw [hzero, hinfinity, hexcess]
    omega
  · obtain ⟨hlow, hhigh⟩ := leading_bounds hn
    have hself := Nat.log2_self_le hn
    have hnext : n < 2 ^ (n.log2 + 1) := Nat.lt_log2_self
    have hcases := nearest_cases (n * 2 ^ (52 - n.log2)) (2 ^ (n.log2 - 52))
    have hmono : ∀ i j, i ≤ j → (2 : Nat) ^ i ≤ 2 ^ j := fun _ _ =>
      Nat.pow_le_pow_right (by decide)
    rw [round_natural hn, hinfinity, hexcess]
    rcases Nat.lt_trichotomy n.log2 1023 with hlog | hlog | hlog
    · have hbound := hmono _ _ hlog
      omega
    · have hcarry := nearest_eq_carry_iff (n := n) hhalf (by rw [hlog] at hnext; omega)
      rw [hlog] at hcases hlow hhigh ⊢
      have hplace : (2 : Nat) ^ (1023 - 52) = 2 * 2 ^ 970 := by decide +kernel
      have hone : (2 : Nat) ^ (52 - 1023) = 1 := by decide
      simp only [hplace, hone, Nat.mul_one] at hcases hlow hhigh ⊢
      rw [← hcarry]
      omega
    · have hbound := hmono _ _ hlog
      omega

end Format

/-! ## Naturals read and given -/

/-- A number of so many digits is no less than the power that has as many. -/
theorem Text.pow_length_digits_le {base n : Nat} (hbase : 2 ≤ base) (hn : 0 < n) :
    base ^ ((Text.digits base n).length - 1) ≤ n := by
  induction n using Nat.strongRecOn with
  | ind n ih =>
    by_cases h : n < base
    · rw [Text.digits_of_lt h]
      exact hn
    · have hpos : 0 < n / base := Nat.div_pos (by omega) (by omega)
      have hquotient := ih (n / base) (Nat.div_lt_self hn (by omega)) hpos
      have hnil := Text.digits_ne_nil base (n / base) hbase
      have hlength : (Text.digits base n).length - 1 =
          (Text.digits base (n / base)).length - 1 + 1 := by
        have hsome := List.length_pos_iff.2 hnil
        rw [Text.digits_of_le hbase (by omega), List.length_append, List.length_singleton]
        omega
      rw [hlength, Nat.pow_succ]
      calc base ^ ((Text.digits base (n / base)).length - 1) * base ≤ n / base * base :=
            Nat.mul_le_mul_right _ hquotient
        _ ≤ n := Nat.div_mul_le_self n base

namespace Decimal

/-- **A natural read from digits** is infinite where it is too large. The
ones with more than 400 digits all are. -/
theorem pattern_natural_eq_infinity_iff (n : Nat) :
    (Decimal.mk n 0).pattern .double = Format.double.infinity ↔ Format.excess ≤ n := by
  have hround : (n * 10 ^ (0 : Int).toNat) = n ∧ 10 ^ (-(0 : Int)).toNat = 1 :=
    ⟨Nat.mul_one n, rfl⟩
  unfold pattern
  simp only
  rw [hround.1, hround.2]
  by_cases hn : n = 0
  · subst hn
    have hexcess : 0 < Format.excess := by decide +kernel
    have hinfinity : 0 < Format.double.infinity := by decide
    rw [if_pos (.inl rfl)]
    omega
  · rw [if_neg (by omega)]
    split
    · rename_i hsize
      have hpow := Text.pow_length_digits_le (by decide : 2 ≤ 10) (Nat.pos_of_ne_zero hn)
      have hlength : 400 ≤ (Text.digits 10 n).length - 1 := by omega
      have hmono : ∀ i j, i ≤ j → (10 : Nat) ^ i ≤ 10 ^ j := fun _ _ =>
        Nat.pow_le_pow_right (by decide)
      have hpower := hmono _ _ hlength
      have hexcess : Format.excess ≤ 10 ^ 400 := by decide +kernel
      exact iff_of_true rfl (Nat.le_trans hexcess (Nat.le_trans hpower hpow))
    · exact Format.round_natural_eq_infinity_iff n

/-- **It is finite otherwise**, with either sign. -/
theorem isFinite_toBinary_iff (negative : Bool) (n : Nat) :
    ((Decimal.mk n 0).toBinary negative : Binary64).isFinite = true ↔ n < Format.excess := by
  have hle : (Decimal.mk n 0).pattern .double ≤ Format.double.infinity := pattern_le
  have hinfinity := pattern_natural_eq_infinity_iff n
  rw [toBinary_eq_signed, Binary.isFinite_signed_iff hle]
  omega

end Decimal

namespace Binary

/-- **An integer as a number** is finite unless it is too large. -/
theorem isFinite_ofRatio_one_iff {negative : Bool} (n : Nat) :
    (ofRatio negative n 1 : Binary64).isFinite = true ↔ n < Format.excess := by
  have hle := Format.double.round_le n 1
  have hinfinity := Format.round_natural_eq_infinity_iff n
  unfold ofRatio
  rw [isFinite_signed_iff hle]
  omega

end Binary

end LiveLayout
