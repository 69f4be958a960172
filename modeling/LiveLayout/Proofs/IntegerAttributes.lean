import LiveLayout.Proofs.Rounding
import LiveLayout.Proofs.TextReadings
import Mathlib.Algebra.Field.Rat
import Mathlib.Algebra.Order.Field.Rat
import Mathlib.Data.Rat.Cast.Defs
import Mathlib.Tactic.Positivity
/-!
# Integer attributes

A tag and a count of lines are integers of 64 bits, and a document gives them
as numbers of any kind. A number is taken as the integer that it is, and one
that is no integer is refused (`Json.integral?_number`); but an integer out of
range is held at the end of the range, without a word. So a number is stored
or refused unless it overflows (`Engine.integers_stored_or_refused`). A title
takes only integers that are given as such and are in range.
-/

namespace LiveLayout

-- Powers of naturals are the ones of the core library, whatever else is imported.
attribute [local instance (high)] instPowNat

/-! ## Numbers and their values -/

namespace Binary

variable {f : Format} {x : Binary f} {i : Int}

/-- **The rational that a number is**, if it is finite. -/
def toRat? (x : Binary f) : Option ℚ :=
  match x.value with
  | .finite negative significand exponent =>
    some ((if negative then -1 else 1) * (significand * 2 ^ exponent))
  | _ => none

/-- A natural scaled by a power of two is an integer where nothing is cut off. -/
theorem scaled_eq_int_iff (s : Nat) (e i : Int) : (s : ℚ) * 2 ^ e = i ↔
    s % 2 ^ (-e).toNat = 0 ∧ ((s / 2 ^ (-e).toNat * 2 ^ e.toNat : Nat) : Int) = i := by
  obtain ⟨k, rfl | rfl⟩ := e.eq_nat_or_neg
  · have hdown : (-(k : Int)).toNat = 0 := by omega
    rw [hdown, Int.toNat_natCast, zpow_natCast, Nat.pow_zero, Nat.mod_one, Nat.div_one]
    rw [← Int.cast_inj (α := ℚ)]
    push_cast
    simp
  · have hup : (-(k : Int)).toNat = 0 := by omega
    have hpos : (0 : ℚ) < 2 ^ k := by positivity
    have hnat : 0 < 2 ^ k := Nat.two_pow_pos k
    rw [neg_neg, hup, Int.toNat_natCast, Nat.pow_zero, Nat.mul_one, zpow_neg, zpow_natCast,
      ← div_eq_mul_inv, div_eq_iff hpos.ne']
    have hcast : (s : ℚ) = i * 2 ^ k ↔ (s : Int) = i * (2 ^ k : Nat) := by
      rw [← Int.cast_inj (α := ℚ)]
      push_cast
      rfl
    rw [hcast]
    generalize 2 ^ k = d at hnat
    constructor
    · intro h
      have hrest : ((s % d : Nat) : Int) = 0 := by rw [Int.natCast_mod, h, Int.mul_emod_left]
      have hwhole : ((s / d : Nat) : Int) = i := by
        rw [Int.natCast_div, h, Int.mul_ediv_cancel _ (Int.natCast_ne_zero.2 hnat.ne')]
      exact ⟨Int.natCast_eq_zero.1 hrest, hwhole⟩
    · rintro ⟨hrest, rfl⟩
      have hdivision := Nat.div_add_mod' s d
      rw [hrest, Nat.add_zero] at hdivision
      rw [← Int.natCast_mul, hdivision]

/-- **An integer is what a number is exactly.** -/
theorem toInt?_eq_some_iff : x.toInt? = some i ↔ x.toRat? = some (i : ℚ) := by
  unfold toInt? toRat?
  cases x.value with
  | nan => simp
  | infinite => simp
  | finite negative significand exponent =>
    have hscaled := fun j => scaled_eq_int_iff significand exponent j
    simp only [Option.ite_none_right_eq_some, Option.some.injEq]
    cases negative with
    | false =>
      rw [if_neg Bool.false_ne_true, if_neg Bool.false_ne_true, one_mul, hscaled]
    | true =>
      have hneg : (-1 : ℚ) * (significand * 2 ^ exponent) = i ↔
          (significand : ℚ) * 2 ^ exponent = ((-i : Int) : ℚ) := by
        rw [neg_one_mul, neg_eq_iff_eq_neg, Int.cast_neg]
      rw [if_pos rfl, if_pos rfl, hneg, hscaled, neg_eq_iff_eq_neg]

/-- **A pattern with so great an exponent** is a whole number of units. -/
theorem toInt?_signed (magnitude : Nat) (hlow : 1075 * 2 ^ 52 ≤ magnitude)
    (hhigh : magnitude < 2047 * 2 ^ 52) : (signed false magnitude : Binary64).toInt? =
      some (((2 ^ 52 + magnitude % 2 ^ 52) * 2 ^ (magnitude / 2 ^ 52 - 1075) : Nat) : Int) := by
  have hbits : (signed false magnitude : Binary64).bits.toNat = magnitude :=
    Nat.mod_eq_of_lt (show magnitude < 2 ^ 64 by omega)
  have hfield : (signed false magnitude : Binary64).exponentField = magnitude / 2 ^ 52 := by
    show (signed false magnitude : Binary64).bits.toNat / 2 ^ 52 % 2 ^ 11 = _
    rw [hbits]
    omega
  have hfraction : (signed false magnitude : Binary64).fraction = magnitude % 2 ^ 52 := by
    show (signed false magnitude : Binary64).bits.toNat % 2 ^ 52 = _
    rw [hbits]
  have hsign : (signed false magnitude : Binary64).isNegative = false := by
    show decide (2 ^ 63 ≤ (signed false magnitude : Binary64).bits.toNat) = false
    rw [hbits]
    exact decide_eq_false (by omega)
  have hexponent : Format.double.minExponent + (magnitude / 2 ^ 52 : Nat) - 1 =
      (magnitude / 2 ^ 52 - 1075 : Nat) := by
    have hmin : Format.double.minExponent = -1074 := by decide
    omega
  have hvalue : (signed false magnitude : Binary64).value =
      .finite false (2 ^ 52 + magnitude % 2 ^ 52) (magnitude / 2 ^ 52 - 1075 : Nat) := by
    have hinfinite : magnitude / 2 ^ 52 ≠ 2 ^ Format.double.exponentBits - 1 := by
      have hlast : 2 ^ Format.double.exponentBits - 1 = 2047 := by decide
      omega
    have hzero : magnitude / 2 ^ 52 ≠ 0 := by omega
    unfold value
    rw [hfield, hfraction, hsign, if_neg hinfinite, if_neg hzero, hexponent]
    rfl
  have hdown : (-((magnitude / 2 ^ 52 - 1075 : Nat) : Int)).toNat = 0 := by omega
  unfold toInt?
  rw [hvalue]
  simp only
  rw [hdown, Int.toNat_natCast, Nat.pow_zero, Nat.mod_one, Nat.div_one, if_pos rfl,
    if_neg Bool.false_ne_true]

/-- **A natural too large for 64 bits with a sign** is rounded to an integer
that is too large as well. -/
theorem toInt?_ofNat_of_ge {n : Nat} (hlow : 2 ^ 63 ≤ n) (hhigh : n < 2 ^ 64) :
    ∃ i : Int, (ofNat n : Binary64).toInt? = some i ∧ 2 ^ 63 ≤ i := by
  have hn : n ≠ 0 := by omega
  have hlog : n.log2 = 63 := (Nat.log2_eq_iff hn).2 ⟨hlow, hhigh⟩
  obtain ⟨hleast, hgreatest⟩ := Format.leading_bounds hn
  have hcases := Format.nearest_cases (n * 2 ^ (52 - n.log2)) (2 ^ (n.log2 - 52))
  have hround := Format.round_natural hn
  have hinfinity : Format.double.infinity = 2047 * 2 ^ 52 := by decide
  rw [hlog] at hleast hgreatest hcases hround
  rw [hinfinity] at hround
  generalize Format.nearest (n * 2 ^ (52 - 63)) (2 ^ (63 - 52)) = significand at hcases hround
  generalize n * 2 ^ (52 - 63) / 2 ^ (63 - 52) = whole at hleast hgreatest hcases
  refine ⟨_, toInt?_signed (Format.double.round n 1) ?_ ?_, ?_⟩
  · omega
  · omega
  · have hunits : 11 ≤ Format.double.round n 1 / 2 ^ 52 - 1075 := by omega
    have hpow : 2 ^ 11 ≤ 2 ^ (Format.double.round n 1 / 2 ^ 52 - 1075) :=
      Nat.pow_le_pow_right (by decide) hunits
    have hleast : 2 ^ 52 * 2 ^ 11 ≤ (2 ^ 52 + Format.double.round n 1 % 2 ^ 52) *
        2 ^ (Format.double.round n 1 / 2 ^ 52 - 1075) :=
      Nat.mul_le_mul (Nat.le_add_right _ _) hpow
    exact_mod_cast hleast

end Binary

namespace Json

/-- **The rational that a number is**, however it is given. -/
def Number.toRat? : Number → Option ℚ
  | natural n => some n.toNat
  | negative i => some i.toInt
  | double x => x.toRat?

/-- The integer that a number is, if it is one. -/
def Number.integer? : Number → Option Int
  | natural n => some n.toNat
  | negative i => some i.toInt
  | double x => x.toInt?

/-- The integer of 64 bits that is nearest. -/
def nearestInt64 (i : Int) : Int64 :=
  Int64.ofInt (max Int64.minValue.toInt (min Int64.maxValue.toInt i))

variable {n : Number} {i : Int}

/-- Up to the greatest integer with a sign the two are one. -/
theorem toInt_toInt64 {n : UInt64} (h : n ≤ Int64.maxValue.toUInt64) :
    n.toInt64.toInt = (n.toNat : Int) := by
  have hmax : Int64.maxValue.toUInt64.toNat = 2 ^ 63 - 1 := by decide
  rw [UInt64.le_iff_toNat_le, hmax] at h
  exact BitVec.toInt_eq_toNat_of_lt (show 2 * n.toNat < 2 ^ 64 by omega)

theorem integer?_eq_some_iff : n.integer? = some i ↔ n.toRat? = some (i : ℚ) := by
  cases n with
  | natural n =>
    unfold Number.integer? Number.toRat?
    rw [Option.some.injEq, Option.some.injEq]
    exact_mod_cast Iff.rfl
  | negative j =>
    unfold Number.integer? Number.toRat?
    rw [Option.some.injEq, Option.some.injEq, Int.cast_inj]
  | double x => exact Binary.toInt?_eq_some_iff

/-- A number is one integer at most. -/
theorem eq_of_toRat? {j : Int} (hi : n.toRat? = some (i : ℚ)) (hj : n.toRat? = some (j : ℚ)) :
    j = i :=
  Int.cast_inj.1 (Option.some.inj (hj.symm.trans hi))

theorem toInt_nearestInt64 (i : Int) :
    (nearestInt64 i).toInt = max (-2 ^ 63) (min (2 ^ 63 - 1) i) := by
  unfold nearestInt64
  rw [Int64.toInt_minValue, Int64.toInt_maxValue]
  exact Int64.toInt_ofInt_of_le (by omega) (by omega)

theorem nearestInt64_toInt (i : Int64) : nearestInt64 i.toInt = i := by
  refine Int64.toInt_inj.1 ?_
  have hleast := i.le_toInt
  have hgreatest := i.toInt_lt
  rw [toInt_nearestInt64]
  omega

/-- **An integer attribute takes any integer**, and comes to the nearest one
that it can hold. -/
theorem integral?_number (n : Number) : (number n).integral? = n.integer?.map nearestInt64 := by
  cases n with
  | natural n =>
    have hsize := n.toNat_lt
    have hmax : Int64.maxValue.toUInt64.toNat = 2 ^ 63 - 1 := by decide
    by_cases hrange : n ≤ Int64.maxValue.toUInt64
    · have hsigned : (number (.natural n)).signed? = some n.toInt64 := if_pos hrange
      unfold integral? Number.integer?
      rw [hsigned, Option.map_some, ← toInt_toInt64 hrange, nearestInt64_toInt]
    · have hsigned : (number (.natural n)).signed? = none := if_neg hrange
      rw [UInt64.le_iff_toNat_le, hmax] at hrange
      obtain ⟨i, hi, hlarge⟩ := Binary.toInt?_ofNat_of_ge (n := n.toNat) (by omega) hsize
      -- both are past the greatest one
      have hnearest : nearestInt64 i = nearestInt64 n.toNat := by
        refine Int64.toInt_inj.1 ?_
        rw [toInt_nearestInt64, toInt_nearestInt64]
        omega
      have hdouble : (number (.natural n)).double? = some (.ofNat n.toNat) := rfl
      unfold integral? Number.integer?
      rw [hsigned, hdouble, Option.map_some, ← hnearest]
      show ((some (Binary.ofNat n.toNat)).bind Binary.toInt?).map nearestInt64 = _
      rw [Option.bind_some, hi, Option.map_some]
  | negative i =>
    show some i = some (nearestInt64 i.toInt)
    rw [nearestInt64_toInt]
  | double x => rfl

/-- An integer that is given as such, and is in range, is taken as it is. -/
theorem toRat?_of_signed? {lines : Int64} (h : (number n).signed? = some lines) :
    n.toRat? = some (lines.toInt : ℚ) := by
  refine integer?_eq_some_iff.1 ?_
  cases n with
  | natural n =>
    obtain ⟨hrange, hlines⟩ := Option.ite_none_right_eq_some.1 h
    rw [← Option.some.inj hlines, toInt_toInt64 hrange]
    rfl
  | negative i => exact congrArg (Option.map Int64.toInt) h
  | double x => cases h

end Json

/-! ## The attributes -/

/-- **The integer attributes**: the tag of any node, and the count of lines of
a label or of a button's title. -/
inductive IntegerAttribute where
  | tag
  | lines
  | titleLines
deriving DecidableEq

namespace IntegerAttribute

/-- The key that an attribute goes by. -/
def key : IntegerAttribute → String
  | tag => "tag"
  | lines => "numberOfLines"
  | titleLines => "numberOfLines"

/-- The attribute of a node, if it has it. -/
def read? : IntegerAttribute → Node → Option Int64
  | tag, node => some node.view.tag
  | lines, node =>
    match node.kind with
    | .label text => some text.numberOfLines
    | _ => none
  | titleLines, node =>
    match node.kind with
    | .button _ title => some title.numberOfLines
    | _ => none

/-- The value that a bag of properties gives it: its own property, or a field
of the title. -/
def given? : IntegerAttribute → List (String × Json) → Option Json
  | titleLines, bag => (bag.lookup "title").bind (Json.member? "numberOfLines")
  | p, bag => bag.lookup p.key

/-- **A number that is stored or refused**, and nothing between: what the
attribute comes to is the number, or it is what it was and the property is
reported. -/
def StoredOrRefused (p : IntegerAttribute) (id : Identifier) (n : Json.Number) (old new : Int64)
    (said : List Diagnostic) : Prop :=
  n.toRat? = some (new.toInt : ℚ) ∨
    (new = old ∧ (p ≠ .titleLines → ⟨some id, .propertyUnclaimed p.key⟩ ∈ said))

/-- **A number out of range**: an integer that 64 bits do not hold, given to an
attribute that is a property of its own. -/
def Overflows (p : IntegerAttribute) (n : Json.Number) : Prop :=
  p ≠ .titleLines ∧ ∃ i : Int, n.toRat? = some (i : ℚ) ∧ ¬(-2 ^ 63 ≤ i ∧ i < 2 ^ 63)

/-- How its values are decoded. -/
def decode? : IntegerAttribute → Json → Option Int64
  | titleLines, value => value.signed?
  | _, value => value.integral?

end IntegerAttribute

section Tag

variable {level : Nat} {images : ImageLoader} {id : Identifier} {bag : List (String × Json)}

/-- A tag is a property of no kind of node. -/
theorem settle?_tag (kind : NodeKind) (value : Json) :
    kind.settle? level images "tag" value = none := by
  cases kind <;> rfl

/-- **The tag after a bag of properties.** -/
theorem tag_takeProperties (hkeys : (bag.map (·.1)).Nodup) (look : NodeKind × ViewAttributes) :
    (Diagnostic.collect (takeProperty level images id) look bag).1.2.tag =
      ((bag.lookup "tag").bind Json.integral?).getD look.2.tag := by
  have hread := Diagnostic.read_collect (takeProperty level images id)
    (fun look : NodeKind × ViewAttributes => look.2.tag) "tag"
    (fun old value => value.integral?.getD old) ?_ ?_ hkeys look
  · refine hread.trans ?_
    cases bag.lookup "tag" <;> rfl
  · intro look value
    have hset : look.2.set? "tag" value =
        value.integral?.map fun tag => { look.2 with tag } := rfl
    unfold takeProperty takeMember putProperty? orElse?
    simp only [settle?_tag, hset]
    cases value.integral? <;> rfl
  · intro look property hne
    cases hput : putProperty? level images look property.1 property.2 with
    | none => rw [takeProperty, Keywise.takeMember_of_none hput]
    | some changed =>
      rw [takeProperty, Keywise.takeMember_of_some hput]
      rcases orElse?_eq_some.1 hput with ⟨-, hview⟩ | ⟨-, -, hview⟩
      · rw [hview]
      · rw [ViewAttributes.set?_eq] at hview
        obtain ⟨f, hf, hkey, v, hchanged, -⟩ := Setting.put?_eq_some hview
        have hkept : ∀ f ∈ ViewAttributes.table, f.key ≠ "tag" → ∀ (view : ViewAttributes) v,
            (f.put view v).tag = view.tag := by
          simp [ViewAttributes.table]
        rw [hchanged, hkept f hf (hkey ▸ hne)]

end Tag

namespace IntegerAttribute

variable {p : IntegerAttribute} {node : Node} {old : Int64} {bag : List (String × Json)}
variable {value : Json} {level : Nat}

theorem read?_lines_eq_some : lines.read? node = some old ↔
    ∃ text, node.kind = .label text ∧ text.numberOfLines = old := by
  cases hkind : node.kind <;> simp [read?, hkind]

theorem read?_titleLines_eq_some : titleLines.read? node = some old ↔
    ∃ titleId title, node.kind = .button titleId title ∧ title.numberOfLines = old := by
  cases hkind : node.kind <;> simp [read?, hkind]

theorem given?_titleLines_eq_some : titleLines.given? bag = some value ↔
    ∃ fields, bag.lookup "title" = some (.object fields) ∧
      fields.lookup "numberOfLines" = some value := by
  unfold given?
  rw [Option.bind_eq_some_iff]
  constructor
  · rintro ⟨object, hobject, hmember⟩
    cases object with
    | object fields => exact ⟨fields, hobject, hmember⟩
    | _ => cases hmember
  · rintro ⟨fields, hobject, hlookup⟩
    exact ⟨.object fields, hobject, hlookup⟩

/-- An attribute that is a property of its own is given under its key. -/
theorem lookup_of_given? (hp : p ≠ .titleLines) (h : p.given? bag = some value) :
    bag.lookup p.key = some value := by
  cases p with
  | titleLines => exact absurd rfl hp
  | _ => exact h

/-- **It fits if it decodes.** -/
theorem isSome_setProperty? (hp : p ≠ .titleLines) (hold : p.read? node = some old) :
    (node.setProperty? level p.key value).isSome = (p.decode? value).isSome := by
  rw [Node.isSome_setProperty?]
  cases p with
  | titleLines => exact absurd rfl hp
  | tag =>
    have hkind : node.kind.set? level "tag" value = none := by cases node.kind <;> rfl
    have hview : node.view.set? "tag" value =
        value.integral?.map fun tag => { node.view with tag } := rfl
    show ((node.kind.set? level "tag" value).isSome || (node.view.set? "tag" value).isSome) = _
    rw [hkind, hview, Option.isSome_map, Option.isSome_none, Bool.false_or]
    rfl
  | lines =>
    obtain ⟨text, hlabel, -⟩ := read?_lines_eq_some.1 hold
    have hkind : (node.kind.set? level "numberOfLines" value).isSome =
        value.integral?.isSome := by
      rw [hlabel]
      show (Option.map NodeKind.label (value.integral?.map _)).isSome = _
      rw [Option.isSome_map, Option.isSome_map]
    have hview : node.view.set? "numberOfLines" value = none := rfl
    show ((node.kind.set? level "numberOfLines" value).isSome ||
      (node.view.set? "numberOfLines" value).isSome) = _
    rw [hkind, hview, Option.isSome_none, Bool.or_false]
    rfl

/-- **A title's count of lines** is stored or refused. -/
theorem storedOrRefused_titleLines (id : Identifier) (n : Json.Number) (old : Int64)
    (said : List Diagnostic) :
    titleLines.StoredOrRefused id n old ((titleLines.decode? (.number n)).getD old) said := by
  show titleLines.StoredOrRefused id n old ((Json.number n).signed?.getD old) said
  cases hsigned : (Json.number n).signed? with
  | some new => exact .inl (Json.toRat?_of_signed? hsigned)
  | none => exact .inr ⟨rfl, fun h => absurd rfl h⟩

/-- Other attributes take any integer. -/
theorem decode?_number (hp : p ≠ .titleLines) (n : Json.Number) :
    p.decode? (.number n) = n.integer?.map Json.nearestInt64 := by
  rw [← Json.integral?_number]
  cases p with
  | titleLines => exact absurd rfl hp
  | _ => rfl

/-- **The nearest integer is the number itself** exactly if it is in range. -/
theorem storedOrRefused_integer_iff {id : Identifier} {n : Json.Number} {i : Int}
    {said : List Diagnostic} (hp : p ≠ .titleLines) (hi : n.toRat? = some (i : ℚ))
    (hsilent : ⟨some id, .propertyUnclaimed p.key⟩ ∉ said) :
    p.StoredOrRefused id n old (Json.nearestInt64 i) said ↔ ¬p.Overflows n := by
  have hnearest := Json.toInt_nearestInt64 i
  constructor
  · rintro (hstored | ⟨-, hsaid⟩) ⟨-, j, hj, hout⟩
    · have hheld : (Json.nearestInt64 i).toInt = i := Json.eq_of_toRat? hi hstored
      rw [Json.eq_of_toRat? hi hj] at hout
      omega
    · exact hsilent (hsaid hp)
  · intro hrange
    have hin : -2 ^ 63 ≤ i ∧ i < 2 ^ 63 := by
      by_contra hout
      exact hrange ⟨hp, i, hi, hout⟩
    have hheld : (Json.nearestInt64 i).toInt = i := by omega
    refine .inl ?_
    rw [hheld, hi]

end IntegerAttribute

namespace Engine

variable {engine : Engine} {idx : NodeIndex} {node : Node} {bag : List (String × Json)}
variable {p : IntegerAttribute} {old : Int64} {value : Json}

theorem tag_applyProperties (hn : engine.tree.node? idx = some node)
    (hkeys : (bag.map (·.1)).Nodup) :
    ((engine.applyProperties idx bag).1.tree.node? idx).map (·.view.tag) =
      some (((bag.lookup "tag").bind Json.integral?).getD node.view.tag) := by
  rw [fst_applyProperties hn, node?_putAsking hn, Option.map_some]
  exact congrArg some (tag_takeProperties hkeys node.look)

/-- **What an integer attribute is after a bag of properties**: what its value
decodes to, or what it was. -/
theorem read?_applyProperties (hn : engine.tree.node? idx = some node)
    (hbag : (Json.object bag).Ordered) (hold : p.read? node = some old)
    (hgiven : p.given? bag = some value) :
    ((engine.applyProperties idx bag).1.tree.node? idx).bind p.read? =
      some ((p.decode? value).getD old) := by
  cases hbag with
  | object hsorted hmembers =>
    have hkeys := Json.nodup_keys hsorted
    cases p with
    | tag =>
      obtain ⟨changed, hchanged, htag⟩ := Option.map_eq_some_iff.1 (tag_applyProperties hn hkeys)
      have hlookup : bag.lookup "tag" = some value := hgiven
      rw [hlookup, Option.bind_some] at htag
      cases hold
      rw [hchanged, Option.bind_some]
      exact congrArg some htag
    | lines =>
      obtain ⟨text, hkind, rfl⟩ := IntegerAttribute.read?_lines_eq_some.1 hold
      obtain ⟨changed, hchanged, hlabel⟩ := Option.map_eq_some_iff.1
        (label_applyProperties hn hkind hkeys)
      have hlookup : bag.lookup "numberOfLines" = some value := hgiven
      rw [hchanged, Option.bind_some, IntegerAttribute.read?_lines_eq_some]
      refine ⟨_, hlabel, ?_⟩
      unfold TextContent.given
      rw [hlookup, Option.bind_some]
      rfl
    | titleLines =>
      obtain ⟨titleId, title, hkind, rfl⟩ := IntegerAttribute.read?_titleLines_eq_some.1 hold
      obtain ⟨fields, hobject, hlookup⟩ := IntegerAttribute.given?_titleLines_eq_some.1 hgiven
      obtain ⟨changed, hchanged, hbutton⟩ := Option.map_eq_some_iff.1
        (button_applyProperties hn hkind hkeys)
      have hfields : (fields.map (·.1)).Nodup := by
        cases hmembers _ ((Json.lookup_eq_some_iff_mem hkeys).1 hobject) with
        | object hfields _ => exact Json.nodup_keys hfields
      rw [hobject, Option.bind_some, Json.object?, Option.map_some, Option.getD_some,
        TextContent.setTitle_eq_given hfields] at hbutton
      rw [hchanged, Option.bind_some, IntegerAttribute.read?_titleLines_eq_some]
      refine ⟨_, _, hbutton, ?_⟩
      unfold TextContent.given
      rw [hlookup, Option.bind_some]
      rfl

/-- What is said of a key nothing takes is said of that key. -/
theorem key_of_propertyRefusal? {property : String × Json} {id : Option Identifier} {key : String}
    (h : engine.propertyRefusal? idx property = some ⟨id, .propertyUnclaimed key⟩) :
    property.1 = key := by
  unfold propertyRefusal? at h
  obtain ⟨node, -, h⟩ := Option.bind_eq_some_iff.1 h
  split at h
  · unfold imageRefusal? at h
    split at h
    · cases h
    · split at h
      · cases h
      · cases h
  · split at h
    · cases h
    · cases h
      rfl

/-- **An integer attribute that is a property of its own** is reported if its
value does not decode. -/
theorem reported_iff (hn : engine.tree.node? idx = some node) (hkeys : (bag.map (·.1)).Nodup)
    (hp : p ≠ .titleLines) (hold : p.read? node = some old) (hgiven : p.given? bag = some value) :
    ⟨some node.id, .propertyUnclaimed p.key⟩ ∈ (engine.applyProperties idx bag).2 ↔
      p.decode? value = none := by
  have hlookup := IntegerAttribute.lookup_of_given? hp hgiven
  have hrefusal : engine.propertyRefusal? idx (p.key, value) =
      if (p.decode? value).isSome then none else some ⟨some node.id, .propertyUnclaimed p.key⟩ := by
    have hrequest : node.kind.imageRequest? p.key value = none := by
      have hslot : ImageSlot.ofKey? p.key = none := by cases p <;> rfl
      unfold NodeKind.imageRequest?
      rw [hslot]
      cases node.kind <;> rfl
    unfold propertyRefusal?
    rw [hn, Option.bind_some]
    simp only [hrequest, IntegerAttribute.isSome_setProperty? hp hold]
  rw [snd_applyProperties, List.mem_filterMap]
  constructor
  · rintro ⟨property, hmem, hsaid⟩
    obtain ⟨key, value'⟩ := property
    obtain rfl : key = p.key := key_of_propertyRefusal? hsaid
    have hvalue : bag.lookup p.key = some value' := (Json.lookup_eq_some_iff_mem hkeys).2 hmem
    obtain rfl : value = value' := Option.some.inj (hlookup.symm.trans hvalue)
    rw [hrefusal] at hsaid
    cases hdecode : p.decode? value with
    | none => rfl
    | some new =>
      rw [hdecode] at hsaid
      cases hsaid
  · intro hnone
    refine ⟨(p.key, value), (Json.lookup_eq_some_iff_mem hkeys).1 hlookup, ?_⟩
    rw [hrefusal, hnone]
    rfl

/-- **Integer attributes store the number they are given, or refuse it, unless
it overflows.** A bag gives a number to an integer attribute of a node. Then
it is stored exactly, or it is refused and reported, if and only if it is no
integer out of range that is given to a property; and what a property comes to
for any integer is the nearest one that it can hold, with nothing said. -/
theorem integers_stored_or_refused {n : Json.Number} (hn : engine.tree.node? idx = some node)
    (hbag : (Json.object bag).Ordered) (hold : p.read? node = some old)
    (hgiven : p.given? bag = some (.number n)) :
    ∃ new, ((engine.applyProperties idx bag).1.tree.node? idx).bind p.read? = some new ∧
      (p.StoredOrRefused node.id n old new (engine.applyProperties idx bag).2 ↔ ¬p.Overflows n) ∧
      (p ≠ .titleLines → ∀ i : Int, n.toRat? = some (i : ℚ) →
        new.toInt = max (-2 ^ 63) (min (2 ^ 63 - 1) i) ∧
        ⟨some node.id, .propertyUnclaimed p.key⟩ ∉ (engine.applyProperties idx bag).2) := by
  have hkeys : (bag.map (·.1)).Nodup := by
    cases hbag with
    | object hsorted _ => exact Json.nodup_keys hsorted
  refine ⟨_, read?_applyProperties hn hbag hold hgiven, ?_⟩
  by_cases hp : p = .titleLines
  · subst hp
    have hkept := IntegerAttribute.storedOrRefused_titleLines node.id n old
      (engine.applyProperties idx bag).2
    exact ⟨iff_of_true hkept fun h => h.1 rfl, fun h => absurd rfl h⟩
  · have hreported := reported_iff hn hkeys hp hold hgiven
    rw [IntegerAttribute.decode?_number hp] at hreported ⊢
    cases hinteger : n.integer? with
    | none =>
      -- no integer: it is refused
      have hnone : ∀ i : Int, n.toRat? ≠ some (i : ℚ) := by
        intro i hi
        rw [← Json.integer?_eq_some_iff, hinteger] at hi
        cases hi
      rw [hinteger] at hreported
      refine ⟨iff_of_true (.inr ⟨rfl, fun _ => hreported.2 rfl⟩) ?_, fun _ i hi => ?_⟩
      · rintro ⟨-, i, hi, -⟩
        exact hnone i hi
      · exact absurd hi (hnone i)
    | some i =>
      have hi : n.toRat? = some (i : ℚ) := Json.integer?_eq_some_iff.1 hinteger
      rw [hinteger] at hreported
      have hsilent : ⟨some node.id, .propertyUnclaimed p.key⟩ ∉
          (engine.applyProperties idx bag).2 := fun h => Option.some_ne_none _ (hreported.1 h)
      refine ⟨IntegerAttribute.storedOrRefused_integer_iff hp hi hsilent, fun _ j hj => ?_⟩
      rw [Json.eq_of_toRat? hi hj]
      exact ⟨Json.toInt_nearestInt64 i, hsilent⟩

/-- **A tag overflows in silence.** A new view is given the least tag that is
out of range; it has the greatest one in range after that, and the report is
clean. -/
theorem tag_overflows :
    let bag : List (String × Json) := [("tag", .number (.natural 9223372036854775808))]
    ((alone .view).applyProperties Tree.root bag).2 = [] ∧
      (((alone .view).applyProperties Tree.root bag).1.tree.node? Tree.root).bind
        IntegerAttribute.tag.read? = some 9223372036854775807 ∧
      ¬IntegerAttribute.tag.StoredOrRefused Identifier.root (.natural 9223372036854775808) 0
        9223372036854775807 ((alone .view).applyProperties Tree.root bag).2 := by
  intro bag
  have hsilent : ((alone .view).applyProperties Tree.root bag).2 = [] := by decide +kernel
  have htag : (((alone .view).applyProperties Tree.root bag).1.tree.node? Tree.root).bind
      IntegerAttribute.tag.read? = some 9223372036854775807 := by decide +kernel
  refine ⟨hsilent, htag, ?_⟩
  rintro (hstored | ⟨hold, -⟩)
  · have hnumber : (Json.Number.natural 9223372036854775808).toRat? =
        some ((9223372036854775808 : Int) : ℚ) := Json.integer?_eq_some_iff.1 (by decide)
    have hsame : (9223372036854775807 : Int64).toInt = 9223372036854775808 :=
      Json.eq_of_toRat? hnumber hstored
    exact absurd hsame (by decide)
  · exact absurd hold (by decide)

/-- A count of lines given as a floating-point number is stored. -/
theorem integers_stored_or_refused_five :
    let bag : List (String × Json) := [("numberOfLines", .number (.double (.ofNat 5)))]
    let label : Node := { id := Identifier.root, kind := .ofType .label Identifier.root }
    (alone .label).tree.node? Tree.root = some label ∧ (Json.object bag).Ordered ∧
      IntegerAttribute.lines.read? label = some 1 ∧
      IntegerAttribute.lines.given? bag = some (.number (.double (.ofNat 5))) ∧
      (((alone .label).applyProperties Tree.root bag).1.tree.node? Tree.root).bind
        IntegerAttribute.lines.read? = some 5 := by
  intro bag label
  have hn : (alone .label).tree.node? Tree.root = some label := by decide +kernel
  have hbag : (Json.object bag).Ordered := by decide +kernel
  have hold : IntegerAttribute.lines.read? label = some 1 := rfl
  have hgiven : IntegerAttribute.lines.given? bag = some (.number (.double (.ofNat 5))) := rfl
  obtain ⟨new, hnew, -, hnearest⟩ := integers_stored_or_refused hn hbag hold hgiven
  have hfive : (Json.Number.double (.ofNat 5)).toRat? = some ((5 : Int) : ℚ) :=
    Json.integer?_eq_some_iff.1 (by decide +kernel)
  have hvalue : new.toInt = 5 := (hnearest (by decide) 5 hfive).1
  have hsame : new = 5 := Int64.toInt_inj.1 hvalue
  exact ⟨hn, hbag, hold, hgiven, hsame ▸ hnew⟩

end Engine

end LiveLayout
