import LiveLayout.Binary.Notation
import LiveLayout.Json.Numeral
/-!
# Numerals written and scanned

The scanner finds a numeral again in the text that it was written as
(`Numeral.scan_write`), whatever follows, as long as that does not go on
like a number. Every number that is written at all is written as such a
numeral, in either layout (`Layout.number?_eq`), and as one that documents
allow (`Layout.strict_numeral?`).
-/

namespace LiveLayout

-- Powers of naturals are the ones of the core library, whatever else is imported.
attribute [local instance (high)] instPowNat

/-! ## Digits -/

namespace Text

variable {base n d : Nat}

theorem digitsOnto_eq (hbase : 2 ≤ base) (n : Nat) (rest : List Nat) :
    digitsOnto base n rest = digits base n ++ rest := by
  induction n using Nat.strongRecOn generalizing rest with
  | ind n ih =>
    have hstep : ∀ rest, digitsOnto base n rest =
        if n < base ∨ base < 2 then n :: rest
        else digitsOnto base (n / base) (n % base :: rest) := fun rest => by rw [digitsOnto]
    unfold digits
    rw [hstep, hstep []]
    split
    · rfl
    · have hlt : n / base < n := Nat.div_lt_self (by omega) (by omega)
      rw [ih _ hlt, ih _ hlt [n % base], List.append_assoc]
      rfl

theorem digits_of_lt (h : n < base) : digits base n = [n] := by
  unfold digits
  rw [digitsOnto, if_pos (.inl h)]

/-- The last digit is what is left of a division by the base. -/
theorem digits_of_le (hbase : 2 ≤ base) (h : base ≤ n) :
    digits base n = digits base (n / base) ++ [n % base] := by
  show digitsOnto base n [] = _
  rw [digitsOnto, if_neg (by omega), digitsOnto_eq hbase]

/-- **The digits of a number** spell it. -/
theorem ofDigits_digits (hbase : 2 ≤ base) (n : Nat) : ofDigits base (digits base n) = n := by
  induction n using Nat.strongRecOn with
  | ind n ih =>
    by_cases h : n < base
    · rw [digits_of_lt h]
      show 0 * base + n = n
      omega
    · have hlt : n / base < n := Nat.div_lt_self (by omega) (by omega)
      have hquotient := ih _ hlt
      unfold ofDigits at hquotient ⊢
      rw [digits_of_le hbase (by omega), List.foldl_append, hquotient]
      exact Nat.div_add_mod' n base

theorem lt_of_mem_digits (hbase : 2 ≤ base) (h : d ∈ digits base n) : d < base := by
  induction n using Nat.strongRecOn with
  | ind n ih =>
    by_cases hn : n < base
    · rw [digits_of_lt hn, List.mem_singleton] at h
      exact h ▸ hn
    · rw [digits_of_le hbase (by omega), List.mem_append, List.mem_singleton] at h
      rcases h with h | rfl
      · exact ih _ (Nat.div_lt_self (by omega) (by omega)) h
      · exact Nat.mod_lt _ (by omega)

theorem digits_ne_nil (base n : Nat) (hbase : 2 ≤ base) : digits base n ≠ [] := by
  by_cases h : n < base
  · rw [digits_of_lt h]
    exact List.cons_ne_nil _ _
  · rw [digits_of_le hbase (by omega)]
    exact List.append_ne_nil_of_right_ne_nil _ (List.cons_ne_nil _ _)

/-- No digit zero stands in front of others. -/
theorem head?_digits (hbase : 2 ≤ base) (h : 0 < n) : (digits base n).head? ≠ some 0 := by
  induction n using Nat.strongRecOn with
  | ind n ih =>
    by_cases hn : n < base
    · rw [digits_of_lt hn]
      intro hzero
      cases hzero
      exact Nat.lt_irrefl 0 h
    · have hpos : 0 < n / base := Nat.div_pos (by omega) (by omega)
      have hquotient := ih (n / base) (Nat.div_lt_self h (by omega)) hpos
      rw [digits_of_le hbase (by omega), List.head?_append]
      cases hdigits : digits base (n / base) with
      | nil => exact absurd hdigits (digits_ne_nil _ _ hbase)
      | cons first others =>
        rw [hdigits] at hquotient
        exact hquotient

/-- A digit is read as it was written. -/
theorem decimalValue?_digitChar (h : d < 10) : decimalValue? (digitChar d) = some d := by
  revert d
  decide

end Text

namespace Numeral

/-! ## Writing a numeral -/

/-- The characters of a sign. -/
def writeSign (sign : Option Char) : List Char := sign.toList

/-- The characters of digits. -/
def writeDigits (digits : List Nat) : List Char := digits.map Text.digitChar

/-- The point and what is behind it. -/
def writeFraction (fraction : Option (List Nat)) : List Char :=
  fraction.elim [] fun digits => '.' :: writeDigits digits

/-- The exponent mark and what is behind it. -/
def writeExponent (exponent : Option (Option Char × List Nat)) : List Char :=
  exponent.elim [] fun e => 'e' :: (writeSign e.1 ++ writeDigits e.2)

/-- **A numeral as it is written**, part by part. -/
def write (n : Numeral) : List Char :=
  writeSign n.sign ++
    (writeDigits n.whole ++ (writeFraction n.fraction ++ writeExponent n.exponent))

/-- A sign is a plus or a minus. -/
def IsSign (sign : Option Char) : Prop := ∀ c ∈ sign, c = '+' ∨ c = '-'

/-- Digits are less than ten. -/
def AreDigits (digits : List Nat) : Prop := ∀ d ∈ digits, d < 10

theorem isSign_none : IsSign none := fun _ hc => nomatch hc

theorem areDigits_zeros (count : Nat) : AreDigits (List.replicate count 0) := by
  intro d hd
  rw [List.eq_of_mem_replicate hd]
  decide

theorem no_exponent : ∀ e ∈ (none : Option (Option Char × List Nat)), IsSign e.1 ∧ AreDigits e.2 :=
  fun _ he => nomatch he

/-- **A numeral made of signs and digits.** -/
structure WellFormed (n : Numeral) : Prop where
  sign : IsSign n.sign
  whole : AreDigits n.whole
  fraction : ∀ digits ∈ n.fraction, AreDigits digits
  exponent : ∀ e ∈ n.exponent, IsSign e.1 ∧ AreDigits e.2

/-- Digits end here: in front of the rest there is neither a digit nor a
sign. -/
def EndsDigits (rest : List Char) : Prop :=
  ∀ c ∈ rest.head?, Text.decimalValue? c = none ∧ c ≠ '+' ∧ c ≠ '-'

/-- **A number ends here**: the rest does not go on like one. -/
def Ends (rest : List Char) : Prop :=
  EndsDigits rest ∧ ∀ c ∈ rest.head?, c ≠ '.' ∧ c ≠ 'e' ∧ c ≠ 'E'

variable {rest : List Char} {digits : List Nat} {sign : Option Char}

/-! ## Scanning it -/

theorem scanDigits_write (h : AreDigits digits) (hrest : EndsDigits rest) :
    scanDigits (writeDigits digits ++ rest) = (digits, rest) := by
  induction digits with
  | nil =>
    cases rest with
    | nil => rfl
    | cons c cs =>
      show scanDigits (c :: cs) = _
      rw [scanDigits, (hrest c rfl).1]
  | cons d digits ih =>
    have hdigit := Text.decimalValue?_digitChar (h d List.mem_cons_self)
    have hdigits := ih fun d hd => h d (List.mem_cons_of_mem _ hd)
    show scanDigits (Text.digitChar d :: (writeDigits digits ++ rest)) = _
    rw [scanDigits, hdigit, hdigits]

theorem scanSign_write (h : IsSign sign) (hrest : ∀ c ∈ rest.head?, c ≠ '+' ∧ c ≠ '-') :
    scanSign (writeSign sign ++ rest) = (sign, rest) := by
  cases sign with
  | none =>
    cases rest with
    | nil => rfl
    | cons c cs =>
      obtain ⟨hplus, hminus⟩ := hrest c rfl
      show scanSign (c :: cs) = _
      rw [scanSign, if_neg (not_or.2 ⟨hplus, hminus⟩)]
  | some c =>
    show scanSign (c :: rest) = _
    rw [scanSign, if_pos (h c rfl)]

/-- Neither a digit nor what ends them is a sign. -/
theorem head?_writeDigits (h : AreDigits digits) (hrest : EndsDigits rest) :
    ∀ c ∈ (writeDigits digits ++ rest).head?, c ≠ '+' ∧ c ≠ '-' := by
  have hall : ∀ d < 10, Text.digitChar d ≠ '+' ∧ Text.digitChar d ≠ '-' := by decide
  cases digits with
  | nil => exact fun c hc => (hrest c hc).2
  | cons d digits =>
    intro c hc
    cases Option.some.inj hc
    exact hall d (h d List.mem_cons_self)

variable {fraction : Option (List Nat)} {exponent : Option (Option Char × List Nat)}

theorem scanExponent_write (h : ∀ e ∈ exponent, IsSign e.1 ∧ AreDigits e.2) (hrest : Ends rest) :
    scanExponent (writeExponent exponent ++ rest) = (exponent, rest) := by
  cases exponent with
  | none =>
    cases rest with
    | nil => rfl
    | cons c cs =>
      obtain ⟨-, hlower, hupper⟩ := hrest.2 c rfl
      show scanExponent (c :: cs) = _
      rw [scanExponent, if_neg (not_or.2 ⟨hlower, hupper⟩)]
  | some e =>
    obtain ⟨hsign, hdigits⟩ := h e rfl
    show scanExponent ('e' :: ((writeSign e.1 ++ writeDigits e.2) ++ rest)) = _
    rw [scanExponent, if_pos (.inl rfl), List.append_assoc,
      scanSign_write hsign (head?_writeDigits hdigits hrest.1)]
    simp only [scanDigits_write hdigits hrest.1]

theorem endsDigits_writeExponent (hrest : Ends rest) :
    EndsDigits (writeExponent exponent ++ rest) := by
  cases exponent with
  | none => exact hrest.1
  | some e =>
    intro c hc
    cases Option.some.inj hc
    decide

theorem scanFraction_write (h : ∀ digits ∈ fraction, AreDigits digits) (hrest : Ends rest) :
    scanFraction (writeFraction fraction ++ (writeExponent exponent ++ rest)) =
      (fraction, writeExponent exponent ++ rest) := by
  cases fraction with
  | none =>
    show scanFraction (writeExponent exponent ++ rest) = _
    cases exponent with
    | none =>
      cases rest with
      | nil => rfl
      | cons c cs =>
        show scanFraction (c :: cs) = _
        rw [scanFraction, if_neg (hrest.2 c rfl).1]
        rfl
    | some e => rfl
  | some digits =>
    show scanFraction ('.' :: (writeDigits digits ++ (writeExponent exponent ++ rest))) = _
    rw [scanFraction, if_pos rfl, scanDigits_write (h digits rfl) (endsDigits_writeExponent hrest)]

theorem endsDigits_writeFraction (hrest : Ends rest) :
    EndsDigits (writeFraction fraction ++ (writeExponent exponent ++ rest)) := by
  cases fraction with
  | none => exact endsDigits_writeExponent hrest
  | some digits =>
    intro c hc
    cases Option.some.inj hc
    decide

/-- **A numeral is scanned as it was written.** -/
theorem scan_write {n : Numeral} (h : n.WellFormed) (hrest : Ends rest) :
    scan (n.write ++ rest) = (n, rest) := by
  have hwhole : EndsDigits (writeFraction n.fraction ++ (writeExponent n.exponent ++ rest)) :=
    endsDigits_writeFraction hrest
  unfold scan write
  simp only [List.append_assoc, scanSign_write h.sign (head?_writeDigits h.whole hwhole),
    scanDigits_write h.whole hwhole, scanFraction_write h.fraction hrest,
    scanExponent_write h.exponent hrest]

/-- **What documents allow**, part by part. -/
theorem isStrict_of {n : Numeral} (hsign : n.sign = none ∨ n.sign = some '-')
    (hwhole : ∃ first others, n.whole = first :: others ∧ (others = [] ∨ first ≠ 0))
    (hfraction : ∀ digits ∈ n.fraction, digits ≠ []) (hexponent : ∀ e ∈ n.exponent, e.2 ≠ []) :
    n.isStrict = true := by
  obtain ⟨first, others, hwhole, hzero⟩ := hwhole
  have hplus : (n.sign != some '+') = true := by
    rcases hsign with hsign | hsign <;> rw [hsign] <;> rfl
  have hleading : (n.whole.length == 1 || n.whole.head? != some 0) = true := by
    rw [hwhole]
    rcases hzero with rfl | hne
    · rfl
    · rw [List.head?_cons, Bool.or_eq_true]
      exact .inr (bne_iff_ne.2 fun h => hne (Option.some.inj h))
  have hbehind : (n.fraction.all fun digits => !digits.isEmpty) = true := by
    cases hf : n.fraction with
    | none => rfl
    | some digits =>
      rw [Option.all_some, Bool.not_eq_true', List.isEmpty_eq_false_iff]
      exact hfraction digits hf
  have hfull : n.hasFullExponent = true := by
    unfold hasFullExponent
    cases he : n.exponent with
    | none => rfl
    | some e =>
      rw [Option.all_some, Bool.not_eq_true', List.isEmpty_eq_false_iff]
      exact hexponent e he
  unfold isStrict
  rw [hplus, hleading, hbehind, hfull, hwhole]
  rfl

end Numeral

/-! ## Integers -/

namespace Numeral

theorem areDigits_digits (n : Nat) : AreDigits (Text.digits 10 n) :=
  fun _ => Text.lt_of_mem_digits (by decide)

/-- An integer as a numeral. -/
def integer (sign : Option Char) (n : Nat) : Numeral := ⟨sign, Text.digits 10 n, none, none⟩

theorem write_integer (sign : Option Char) (n : Nat) :
    (integer sign n).write = writeSign sign ++ (Text.decimal n).toList := by
  unfold write integer Text.decimal
  rw [String.toList_ofList]
  exact congrArg _ (List.append_nil _)

theorem wellFormed_integer {sign : Option Char} (h : IsSign sign) (n : Nat) :
    (integer sign n).WellFormed where
  sign := h
  whole := areDigits_digits n
  fraction := fun _ h => nomatch h
  exponent := no_exponent

theorem isStrict_integer {sign : Option Char} (h : sign = none ∨ sign = some '-') (n : Nat) :
    (integer sign n).isStrict = true := by
  refine isStrict_of h ?_ (fun _ h => nomatch h) fun _ h => nomatch h
  by_cases hzero : n = 0
  · subst hzero
    exact ⟨0, [], Text.digits_of_lt (by decide), .inl rfl⟩
  · have hhead := Text.head?_digits (by decide : 2 ≤ 10) (Nat.pos_of_ne_zero hzero)
    obtain ⟨first, others, hdigits⟩ :=
      List.exists_cons_of_ne_nil (Text.digits_ne_nil 10 n (by decide))
    rw [hdigits] at hhead
    exact ⟨first, others, hdigits, .inr fun h => hhead (congrArg some h)⟩

/-- A natural number of 64 bits stays one. -/
theorem toDatum_natural (n : UInt64) : (integer none n.toNat).toDatum = .natural n := by
  unfold toDatum integer
  rw [Text.ofDigits_digits (by decide)]
  have hlt : n.toNat < UInt64.size := n.toNat_lt
  simp only [isInteger, isNegative, Option.isNone_none, Bool.true_and, hlt, decide_true]
  rw [UInt64.ofNat_toNat]
  rfl

/-- And so does a negative integer. -/
theorem toDatum_negative {i : Int64} (h : i.toInt < 0) :
    (integer (some '-') i.toInt.natAbs).toDatum = .integer i := by
  have habs : -(i.toInt.natAbs : Int) = i.toInt := by omega
  have hpos : 0 < i.toInt.natAbs := by omega
  have hlow : Int64.minValue.toInt ≤ i.toInt := i.minValue_le_toInt
  unfold toDatum integer
  rw [Text.ofDigits_digits (by decide)]
  simp only [isInteger, isNegative, Option.isNone_none, Bool.true_and, habs, hpos, hlow,
    decide_true, beq_self_eq_true, Bool.not_true, Bool.false_and, Bool.false_eq_true, if_false]
  rw [Int64.ofInt_toInt]
  rfl

end Numeral

/-! ## Numbers as numerals -/

namespace Layout

open Numeral

variable {layout : Layout} {d : Decimal}

/-- **The numeral of a decimal** in a layout. -/
def numeral (layout : Layout) (d : Decimal) : Numeral :=
  let digits := Text.digits 10 d.digits
  let first : Int := d.exponent + digits.length - 1
  if first < layout.least ∨ layout.greatest < first then
    { sign := none
      whole := digits.take 1
      fraction := if (digits.drop 1).isEmpty then none else some (digits.drop 1)
      exponent := some (some (if first < 0 then '-' else '+'), Text.digits 10 first.natAbs) }
  else if first < 0 then
    ⟨none, [0], some (List.replicate (first.natAbs - 1) 0 ++ digits), none⟩
  else
    let whole := first.toNat + 1
    ⟨none, digits.take whole ++ List.replicate (whole - digits.length) 0,
      some (if (digits.drop whole).isEmpty then [0] else digits.drop whole), none⟩

/-- A decimal is written as its numeral. -/
theorem toList_render (layout : Layout) (d : Decimal) :
    (layout.render d).toList = (layout.numeral d).write := by
  unfold render numeral
  simp only [String.toList_ofList, List.length_map, ← List.map_take, ← List.map_drop,
    List.isEmpty_map]
  split
  · -- one digit, the others behind the point, and the exponent
    have hrest : (if ((Text.digits 10 d.digits).drop 1).isEmpty then []
        else '.' :: ((Text.digits 10 d.digits).drop 1).map Text.digitChar) =
        writeFraction (if ((Text.digits 10 d.digits).drop 1).isEmpty then none
          else some ((Text.digits 10 d.digits).drop 1)) := by
      split <;> rfl
    rw [hrest, List.append_assoc, Text.decimal, String.toList_ofList]
    rfl
  · split
    · -- zeros and all digits behind the point
      simp only [write, writeSign, writeDigits, writeFraction, writeExponent, List.map_append,
        List.map_replicate, Option.toList_none, Option.elim, List.append_nil, List.nil_append]
      rfl
    · -- digits and zeros in front of the point, what is left behind it
      have hrest : (if ((Text.digits 10 d.digits).drop
            ((d.exponent + (Text.digits 10 d.digits).length - 1).toNat + 1)).isEmpty then ['0']
          else ((Text.digits 10 d.digits).drop
            ((d.exponent + (Text.digits 10 d.digits).length - 1).toNat + 1)).map Text.digitChar) =
          writeDigits (if ((Text.digits 10 d.digits).drop
            ((d.exponent + (Text.digits 10 d.digits).length - 1).toNat + 1)).isEmpty then [0]
          else (Text.digits 10 d.digits).drop
            ((d.exponent + (Text.digits 10 d.digits).length - 1).toNat + 1)) := by
        split <;> rfl
      rw [hrest]
      simp only [write, writeSign, writeDigits, writeFraction, writeExponent, List.map_append,
        List.map_replicate, Option.toList_none, Option.elim, List.append_nil, List.nil_append,
        List.append_assoc]
      rfl

theorem wellFormed_numeral (layout : Layout) (d : Decimal) : (layout.numeral d).WellFormed := by
  have hdigits := areDigits_digits d.digits
  unfold numeral
  simp only
  split
  · refine ⟨isSign_none, fun digit h => hdigits digit (List.mem_of_mem_take h),
      fun digits h => ?_, fun e he => ?_⟩
    · split at h
      · cases h
      · cases h
        exact fun digit h => hdigits digit (List.mem_of_mem_drop h)
    · cases he
      refine ⟨fun c hc => ?_, areDigits_digits _⟩
      cases hc
      split
      · exact .inr rfl
      · exact .inl rfl
  · split
    · refine ⟨isSign_none, areDigits_zeros 1, fun digits h => ?_, no_exponent⟩
      cases h
      intro digit h
      exact (List.mem_append.1 h).elim (areDigits_zeros _ digit) (hdigits digit)
    · refine ⟨isSign_none, fun digit h => ?_, fun digits h => ?_,
        no_exponent⟩
      · exact (List.mem_append.1 h).elim (fun h => hdigits digit (List.mem_of_mem_take h))
          (areDigits_zeros _ digit)
      · cases h
        split
        · exact areDigits_zeros 1
        · exact fun digit h => hdigits digit (List.mem_of_mem_drop h)

/-- A number that is written so has a point or an exponent. -/
theorem isInteger_numeral (layout : Layout) (d : Decimal) :
    (layout.numeral d).isInteger = false := by
  unfold numeral
  simp only
  split
  · simp only [isInteger, Option.isNone_some, Bool.and_false]
  · split <;> rfl

/-- **A positive decimal is written as documents allow.** -/
theorem isStrict_numeral (layout : Layout) (hpos : 0 < d.digits) :
    (layout.numeral d).isStrict = true := by
  have hhead := Text.head?_digits (by decide : 2 ≤ 10) hpos
  have hnil := Text.digits_ne_nil 10 d.digits (by decide)
  unfold numeral
  simp only
  generalize Text.digits 10 d.digits = digits at hhead hnil ⊢
  obtain ⟨first, others, rfl⟩ := List.exists_cons_of_ne_nil hnil
  have hfirst : first ≠ 0 := fun hzero => hhead (congrArg some hzero)
  split
  · refine isStrict_of (.inl rfl) ⟨first, [], rfl, .inl rfl⟩ (fun behind h => ?_)
      fun e he => ?_
    · split at h
      · cases h
      · cases h
        rename_i hothers
        exact fun hnil => hothers (List.isEmpty_iff.2 hnil)
    · cases he
      exact Text.digits_ne_nil 10 _ (by decide)
  · split
    · refine isStrict_of (.inl rfl) ⟨0, [], rfl, .inl rfl⟩ (fun behind h => ?_)
        fun e he => nomatch he
      cases h
      exact List.append_ne_nil_of_right_ne_nil _ hnil
    · refine isStrict_of (.inl rfl) ⟨first, _, rfl, .inr hfirst⟩ (fun behind h => ?_)
        fun e he => nomatch he
      cases h
      split
      · exact List.cons_ne_nil _ _
      · rename_i hbehind
        exact fun hnil => hbehind (List.isEmpty_iff.2 hnil)

end Layout

namespace Binary

variable {f : Format} {narrow : Bool} {significand : Nat} {exponent grid : Int} {d : Decimal}

/-! ## Shortest decimals -/

/-- A decimal that rounds to a positive number is positive. -/
theorem digits_pos_of_roundsTo (hpos : 0 < significand)
    (h : roundsTo narrow significand exponent d = true) : 0 < d.digits := by
  refine Nat.pos_of_ne_zero fun hzero => ?_
  have hquarters : 0 < 4 * significand - if narrow then 1 else 2 := by
    split <;> omega
  have hlow : compareDecimal d (4 * significand - if narrow then 1 else 2) exponent = .lt := by
    unfold compareDecimal
    rw [hzero, Nat.zero_mul, Nat.zero_mul]
    exact Nat.compare_eq_lt.2
      (Nat.mul_pos (Nat.mul_pos hquarters (Nat.pow_pos (by decide))) (Nat.pow_pos (by decide)))
  unfold roundsTo at h
  rw [hlow] at h
  simp only [Bool.and_eq_true, Bool.or_eq_true, beq_iff_eq, reduceCtorEq, and_false, or_self,
    false_and] at h

/-- What is found on a grid rounds to the number. -/
theorem roundsTo_of_nearestOn (h : nearestOn narrow significand exponent grid = some d) :
    roundsTo narrow significand exponent d = true := by
  unfold nearestOn at h
  simp only at h
  split at h
  · rename_i hdown hup
    split at h
    · cases h
      exact hdown
    · cases h
      exact hup
    · cases h
      split
      · exact hdown
      · exact hup
  · rename_i hdown _
    cases h
    exact hdown
  · rename_i _ hup
    cases h
    exact hup
  · cases h

/-- **The shortest decimal** rounds to the number, unless none was found and
the number is given as it is. -/
theorem shortest_cases {x : Binary f} {negative : Bool}
    (hx : x.value = .finite negative significand exponent) :
    roundsTo (significand == 2 ^ (f.precision - 1) && f.minExponent < exponent) significand exponent
        x.shortest = true ∨
      x.shortest = ⟨significand, exponent⟩ := by
  unfold shortest
  rw [hx]
  simp only
  cases hfound : (List.range 24).findSome? fun (step : Nat) =>
      nearestOn (significand == 2 ^ (f.precision - 1) && decide (f.minExponent < exponent))
        significand exponent ((exponent + significand.log2 + 1) * 30103 / 100000 + 1 - step) with
  | none => exact .inr rfl
  | some d =>
    obtain ⟨step, -, hnearest⟩ := List.exists_of_findSome?_eq_some hfound
    exact .inl (roundsTo_of_nearestOn hnearest)

theorem digits_shortest_pos {x : Binary f} {negative : Bool}
    (hx : x.value = .finite negative significand exponent) (hpos : 0 < significand) :
    0 < x.shortest.digits := by
  rcases shortest_cases hx with h | h
  · exact digits_pos_of_roundsTo hpos h
  · rw [h]
    exact hpos

/-! ## Numbers in text -/

/-- The numeral of a number without its sign; zero has one of its own. -/
def magnitude (layout : Layout) (x : Binary f) (significand : Nat) : Numeral :=
  if significand = 0 then ⟨none, [0], some [0], none⟩ else layout.numeral x.shortest

/-- **The numeral a number is written as**, if it is finite. -/
def numeral? (layout : Layout) (x : Binary f) : Option Numeral :=
  match x.value with
  | .finite negative significand _ =>
    some { x.magnitude layout significand with sign := if negative then some '-' else none }
  | _ => none

theorem sign_magnitude (layout : Layout) (x : Binary f) (significand : Nat) :
    (x.magnitude layout significand).sign = none := by
  unfold magnitude
  split
  · rfl
  · unfold Layout.numeral
    simp only
    split
    · rfl
    · split <;> rfl

/-- **A finite number is written as its numeral**, any other not at all. -/
theorem number?_eq (layout : Layout) (x : Binary f) :
    layout.number? x = (x.numeral? layout).map fun n => String.ofList n.write := by
  unfold Layout.number? numeral?
  cases hx : x.value with
  | nan => rfl
  | infinite negative => rfl
  | finite negative significand exponent =>
    have hmagnitude : (if significand = 0 then "0.0" else layout.render x.shortest).toList =
        (x.magnitude layout significand).write := by
      unfold magnitude
      split
      · rfl
      · exact layout.toList_render x.shortest
    have hsign : (if negative then "-" else "").toList =
        Numeral.writeSign (if negative then some '-' else none) := by
      cases negative <;> rfl
    refine congrArg some (String.toList_inj.1 ?_)
    rw [String.toList_append, String.toList_ofList, hmagnitude, hsign]
    unfold Numeral.write
    rw [sign_magnitude]
    rfl

/-- **Such a numeral is one that documents allow**, and no integer. -/
theorem numeral?_spec {layout : Layout} {x : Binary f} {n : Numeral}
    (h : x.numeral? layout = some n) :
    n.WellFormed ∧ n.isStrict = true ∧ n.isInteger = false := by
  unfold numeral? at h
  split at h
  · rename_i negative significand exponent hx
    cases h
    have hmagnitude : (x.magnitude layout significand).WellFormed ∧
        (x.magnitude layout significand).isStrict = true ∧
        (x.magnitude layout significand).isInteger = false := by
      unfold magnitude
      split
      · exact ⟨⟨Numeral.isSign_none, Numeral.areDigits_zeros 1,
          fun _ h => Option.some.inj h ▸ Numeral.areDigits_zeros 1, Numeral.no_exponent⟩, rfl, rfl⟩
      · rename_i hne
        exact ⟨layout.wellFormed_numeral _,
          layout.isStrict_numeral (digits_shortest_pos hx (Nat.pos_of_ne_zero hne)),
          layout.isInteger_numeral _⟩
    obtain ⟨hwell, hstrict, hinteger⟩ := hmagnitude
    refine ⟨⟨fun c hc => ?_, hwell.whole, hwell.fraction, hwell.exponent⟩, ?_, hinteger⟩
    · split at hc
      · cases hc
        exact .inr rfl
      · cases hc
    · unfold Numeral.isStrict at hstrict ⊢
      rw [sign_magnitude] at hstrict
      cases negative <;> exact hstrict
  · cases h

end Binary

end LiveLayout
