import LiveLayout.Color
import Mathlib.Data.List.Basic
import Mathlib.Data.Nat.Digits.Defs
/-!
# Colours in hexadecimal

A colour's digits are packed into a word of 32 bits and cut out of it again
by shifts and masks. The word is the number that the digits stand for, but for
what is lost at its left end (`Color.hexWord?_of_digits`), and nothing is lost
where a colour comes of it: eight digits are the bytes that they spell in pairs
(`Color.ofHexDigits_eight`), and so are six and three. What a digit is worth is
its place in the alphabet of digits (`Text.hexValue?_eq`), in either case.
-/

namespace LiveLayout

namespace Text

/-! ## Digits -/

/-- **A hexadecimal digit**, in either case. -/
def IsHexDigit (c : Char) : Prop := c.toLower ∈ digitChars

instance (c : Char) : Decidable (IsHexDigit c) := inferInstanceAs (Decidable (_ ∈ _))

/-- The place of a digit among the sixteen. -/
def hexIndex (c : Char) : Nat := digitChars.idxOf c.toLower

theorem hexIndex_lt {c : Char} (h : IsHexDigit c) : hexIndex c < 16 :=
  List.idxOf_lt_length_of_mem h

/-- **The characters that have a value are the digits**, and it is their
place. -/
theorem hexValue?_eq (c : Char) :
    hexValue? c = if IsHexDigit c then some (hexIndex c) else none := by
  have hshort : ∀ n < 128, hexValue? (Char.ofNat n) =
      if IsHexDigit (Char.ofNat n) then some (hexIndex (Char.ofNat n)) else none := by
    decide +kernel
  by_cases hc : c.toNat < 128
  · have hvalue := hshort c.toNat hc
    rwa [Char.ofNat_toNat] at hvalue
  · -- out there are no digits and no capital letters
    have habove : ∀ d : Char, d.toNat < 128 → ¬c ≤ d := by
      intro d hd hle
      have hle : c.toNat ≤ d.toNat := hle
      omega
    have hlower : c.toLower = c := by
      unfold Char.toLower
      exact dif_neg fun hcapital => habove 'Z' (by decide) hcapital.2
    have hdigit : ¬IsHexDigit c := by
      unfold IsHexDigit
      rw [hlower]
      intro hmem
      have hall : digitChars.all (fun d => decide (d.toNat < 128)) = true := by decide
      exact hc (of_decide_eq_true (List.all_eq_true.1 hall c hmem))
    unfold hexValue?
    rw [if_neg hdigit, if_neg fun h => habove '9' (by decide) h.2,
      if_neg fun h => habove 'f' (by decide) h.2, if_neg fun h => habove 'F' (by decide) h.2]

theorem hexValue?_of_digit {c : Char} (h : IsHexDigit c) : hexValue? c = some (hexIndex c) := by
  rw [hexValue?_eq, if_pos h]

theorem isSome_hexValue?_iff (c : Char) : (hexValue? c).isSome = true ↔ IsHexDigit c := by
  rw [hexValue?_eq]
  split
  · simp only [Option.isSome_some, *]
  · simp only [Option.isSome_none, Bool.false_eq_true, *]

/-- **The number that hexadecimal digits spell**, the first one highest. -/
def hexNumber (digits : List Char) : Nat := ofDigits 16 (digits.map hexIndex)

/-- It is the number of the digits from the last one on. -/
theorem hexNumber_eq (digits : List Char) :
    hexNumber digits = Nat.ofDigits 16 (digits.reverse.map hexIndex) := by
  unfold hexNumber ofDigits
  rw [Nat.ofDigits_eq_foldr, List.map_reverse, List.foldr_reverse]
  refine congrFun (congrFun (congrArg List.foldl ?_) 0) _
  funext n d
  rw [Nat.cast_id, Nat.mul_comm, Nat.add_comm]

section Numbers

variable {digits : List Char}

theorem lt_of_mem_hexIndices (h : ∀ c ∈ digits, IsHexDigit c) :
    ∀ d ∈ digits.map hexIndex, d < 16 := by
  intro d hd
  obtain ⟨c, hc, rfl⟩ := List.mem_map.1 hd
  exact hexIndex_lt (h c hc)

theorem hexNumber_lt (h : ∀ c ∈ digits, IsHexDigit c) : hexNumber digits < 16 ^ digits.length := by
  have hlt := Nat.ofDigits_lt_base_pow_length (by decide : 1 < 16)
    (lt_of_mem_hexIndices fun c hc => h c (List.mem_reverse.1 hc))
  rw [List.length_map, List.length_reverse] at hlt
  rwa [hexNumber_eq]

/-- **The digits before the last `i`** spell the number divided. -/
theorem hexNumber_div (h : ∀ c ∈ digits, IsHexDigit c) (i : Nat) :
    hexNumber digits / 16 ^ i = hexNumber (digits.reverse.drop i).reverse := by
  have hlt := lt_of_mem_hexIndices fun c hc => h c (List.mem_reverse.1 hc)
  rw [hexNumber_eq, hexNumber_eq, Nat.ofDigits_div_pow_eq_ofDigits_drop i (by decide) _ hlt,
    List.reverse_reverse, List.map_drop]

/-- **The last `j` digits** spell the remainder. -/
theorem hexNumber_mod (h : ∀ c ∈ digits, IsHexDigit c) (j : Nat) :
    hexNumber digits % 16 ^ j = hexNumber (digits.reverse.take j).reverse := by
  have hlt := lt_of_mem_hexIndices fun c hc => h c (List.mem_reverse.1 hc)
  rw [hexNumber_eq, hexNumber_eq, Nat.ofDigits_mod_pow_eq_ofDigits_take j (by decide) _ hlt,
    List.reverse_reverse, List.map_take]

/-- **The `j` digits before the last `i`** spell what a cut comes to. -/
theorem hexNumber_cut (h : ∀ c ∈ digits, IsHexDigit c) (i j : Nat) :
    hexNumber digits / 16 ^ i % 16 ^ j =
      hexNumber ((digits.reverse.drop i).take j).reverse := by
  have hfront : ∀ c ∈ (digits.reverse.drop i).reverse, IsHexDigit c := fun c hc =>
    h c (List.mem_reverse.1 (List.mem_of_mem_drop (List.mem_reverse.1 hc)))
  rw [hexNumber_div h, hexNumber_mod hfront, List.reverse_reverse]

end Numbers

/-- Characters that are the same but for the case of letters. -/
def SameLetters (digits others : List Char) : Prop :=
  digits.map Char.toLower = others.map Char.toLower

theorem SameLetters.hexDigits {digits others : List Char} (h : SameLetters digits others)
    (hdigits : ∀ c ∈ others, IsHexDigit c) : ∀ c ∈ digits, IsHexDigit c := by
  intro c hc
  have hmem : c.toLower ∈ others.map Char.toLower := h ▸ List.mem_map_of_mem hc
  obtain ⟨d, hd, heq⟩ := List.mem_map.1 hmem
  have hdigit : d.toLower ∈ digitChars := hdigits d hd
  rwa [heq] at hdigit

/-- The case of a letter has no part in what a digit is worth. -/
theorem SameLetters.hexIndices {digits others : List Char} (h : SameLetters digits others) :
    digits.map hexIndex = others.map hexIndex := by
  have hfactor : ∀ l : List Char,
      l.map hexIndex = (l.map Char.toLower).map digitChars.idxOf := by
    intro l
    rw [List.map_map]
    rfl
  rw [hfactor, hfactor, h]

end Text

namespace Color

open Text (IsHexDigit hexIndex hexNumber SameLetters hexIndex_lt)

variable {digits others : List Char} {word : UInt32}

/-! ## Words -/

/-- **A digit pushed into a word**: the number that the word stands for, up
to 32 bits, gets one more digit. -/
theorem pushDigit?_of_digit {n : Nat} {c : Char} (hword : word.toNat = n % 2 ^ 32)
    (hc : IsHexDigit c) : ∃ pushed, pushDigit? word c = some pushed ∧
      pushed.toNat = (n * 16 + hexIndex c) % 2 ^ 32 := by
  have hlt := hexIndex_lt hc
  have hshift : (word <<< 4).toNat = (n <<< 4) % 2 ^ 32 := by
    rw [UInt32.toNat_shiftLeft, hword, Nat.shiftLeft_eq, Nat.shiftLeft_eq]
    show n % 2 ^ 32 * 2 ^ 4 % 2 ^ 32 = n * 2 ^ 4 % 2 ^ 32
    omega
  refine ⟨word <<< 4 ||| UInt32.ofNat (hexIndex c), ?_, ?_⟩
  · unfold pushDigit?
    rw [Text.hexValue?_of_digit hc, Option.map_some]
  · rw [UInt32.toNat_or, hshift, UInt32.toNat_ofNat', ← Nat.or_mod_two_pow,
      ← Nat.shiftLeft_add_eq_or_of_lt (show hexIndex c < 2 ^ 4 by omega), Nat.shiftLeft_eq]

/-- **The word of digits** is the number they stand for, but for what is lost
at its left end. -/
theorem hexWord?_of_digits (h : ∀ c ∈ digits, IsHexDigit c) : ∃ word,
    hexWord? digits = some word ∧
      word.toNat = hexNumber digits % 2 ^ 32 := by
  -- from any word on, since the first digit is pushed first
  have hrun : ∀ (word : UInt32) (n : Nat), word.toNat = n % 2 ^ 32 →
      ∃ packed, digits.foldlM pushDigit? word = some packed ∧
        packed.toNat = (digits.map hexIndex).foldl (fun n d => n * 16 + d) n % 2 ^ 32 := by
    induction digits with
    | nil => exact fun word n hword => ⟨word, rfl, hword⟩
    | cons c rest ih =>
      intro word n hword
      obtain ⟨pushed, hpush, hpushed⟩ := pushDigit?_of_digit hword (h c List.mem_cons_self)
      rw [List.foldlM_cons, hpush]
      exact ih (fun d hd => h d (List.mem_cons_of_mem _ hd)) pushed _ hpushed
  exact hrun 0 0 rfl

/-- No digit is lost of eight or fewer. -/
theorem hexWord?_of_short (h : ∀ c ∈ digits, IsHexDigit c) (hshort : digits.length ≤ 8) :
    ∃ word, hexWord? digits = some word ∧ word.toNat = hexNumber digits := by
  obtain ⟨word, hword, hvalue⟩ := hexWord?_of_digits h
  refine ⟨word, hword, hvalue.trans (Nat.mod_eq_of_lt ?_)⟩
  calc hexNumber digits < 16 ^ digits.length := Text.hexNumber_lt h
    _ ≤ 16 ^ 8 := Nat.pow_le_pow_right (by decide) hshort

theorem toNat_shifted {k : UInt32} (hk : k.toNat < 32) :
    (word >>> k).toNat = word.toNat / 2 ^ k.toNat := by
  rw [UInt32.toNat_shiftRight, Nat.mod_eq_of_lt hk, Nat.shiftRight_eq_div_pow]

theorem toNat_masked {mask : UInt32} {n : Nat} (hmask : mask.toNat = 2 ^ n - 1) :
    (word &&& mask).toNat = word.toNat % 2 ^ n := by
  rw [UInt32.toNat_and, hmask, Nat.and_two_pow_sub_one_eq_mod]

/-- **Digits cut out of a word**: the `j` before the last `i`. -/
theorem toNat_cut (h : ∀ c ∈ digits, IsHexDigit c) (hword : word.toNat = hexNumber digits)
    (i j : Nat) {k mask : UInt32} (hi : i < 8) (hk : k.toNat = 4 * i)
    (hmask : mask.toNat = 2 ^ (4 * j) - 1) :
    (word >>> k &&& mask).toNat = hexNumber ((digits.reverse.drop i).take j).reverse := by
  rw [toNat_masked hmask, toNat_shifted (by omega), hword, hk, Nat.pow_mul, Nat.pow_mul]
  exact Text.hexNumber_cut h i j

/-- The digits before the last `i`, in a word that has no others. -/
theorem toNat_front (h : ∀ c ∈ digits, IsHexDigit c) (hword : word.toNat = hexNumber digits)
    (i : Nat) {k : UInt32} (hi : i < 8) (hk : k.toNat = 4 * i) :
    (word >>> k).toNat = hexNumber (digits.reverse.drop i).reverse := by
  rw [toNat_shifted (by omega), hword, hk, Nat.pow_mul]
  exact Text.hexNumber_div h i

/-- The last `j` digits. -/
theorem toNat_back (h : ∀ c ∈ digits, IsHexDigit c) (hword : word.toNat = hexNumber digits)
    (j : Nat) {mask : UInt32} (hmask : mask.toNat = 2 ^ (4 * j) - 1) :
    (word &&& mask).toNat = hexNumber (digits.reverse.take j).reverse := by
  rw [toNat_masked hmask, hword, Nat.pow_mul]
  exact Text.hexNumber_mod h j

/-! ## The three forms -/

section Forms

variable {a₁ a₀ r₁ r₀ g₁ g₀ b₁ b₀ r g b : Char}

/-- **Eight digits are four bytes**, alpha first. -/
theorem ofHexDigits_eight (h : ∀ c ∈ [a₁, a₀, r₁, r₀, g₁, g₀, b₁, b₀], IsHexDigit c) :
    ofHexDigits [a₁, a₀, r₁, r₀, g₁, g₀, b₁, b₀] =
      ⟨channel (hexNumber [r₁, r₀]), channel (hexNumber [g₁, g₀]), channel (hexNumber [b₁, b₀]),
        channel (hexNumber [a₁, a₀])⟩ := by
  obtain ⟨word, hword, hvalue⟩ := hexWord?_of_short h (Nat.le_refl 8)
  have halpha : (word >>> 24).toNat = hexNumber [a₁, a₀] :=
    toNat_front h hvalue 6 (by decide) rfl
  have hred : (word >>> 16 &&& 0xFF).toNat = hexNumber [r₁, r₀] :=
    toNat_cut h hvalue 4 2 (by decide) rfl rfl
  have hgreen : (word >>> 8 &&& 0xFF).toNat = hexNumber [g₁, g₀] :=
    toNat_cut h hvalue 2 2 (by decide) rfl rfl
  have hblue : (word &&& 0xFF).toNat = hexNumber [b₁, b₀] := toNat_back h hvalue 2 rfl
  unfold ofHexDigits
  rw [hword]
  show ofBytes _ _ _ _ = _
  unfold ofBytes
  rw [halpha, hred, hgreen, hblue]

/-- **Six digits are three bytes**, and alpha is full. -/
theorem ofHexDigits_six (h : ∀ c ∈ [r₁, r₀, g₁, g₀, b₁, b₀], IsHexDigit c) :
    ofHexDigits [r₁, r₀, g₁, g₀, b₁, b₀] =
      ⟨channel (hexNumber [r₁, r₀]), channel (hexNumber [g₁, g₀]), channel (hexNumber [b₁, b₀]),
        channel 255⟩ := by
  obtain ⟨word, hword, hvalue⟩ := hexWord?_of_short h (show 6 ≤ 8 by decide)
  have hred : (word >>> 16).toNat = hexNumber [r₁, r₀] := toNat_front h hvalue 4 (by decide) rfl
  have hgreen : (word >>> 8 &&& 0xFF).toNat = hexNumber [g₁, g₀] :=
    toNat_cut h hvalue 2 2 (by decide) rfl rfl
  have hblue : (word &&& 0xFF).toNat = hexNumber [b₁, b₀] := toNat_back h hvalue 2 rfl
  unfold ofHexDigits
  rw [hword]
  show ofBytes _ _ _ _ = _
  unfold ofBytes
  rw [hred, hgreen, hblue]
  rfl

/-- A digit times seventeen is the digit twice. -/
theorem toNat_doubled {c : Char} (hc : IsHexDigit c) (hword : word.toNat = hexNumber [c]) :
    (word * 17).toNat = hexNumber [c, c] := by
  have hlt := hexIndex_lt hc
  have hone : hexNumber [c] = hexIndex c := Nat.zero_add _
  have htwo : hexNumber [c, c] = hexNumber [c] * 16 + hexIndex c := rfl
  rw [UInt32.toNat_mul, hword, htwo, hone]
  show hexIndex c * 17 % 2 ^ 32 = _
  omega

/-- **Three digits are three bytes of one digit twice**, and alpha is full. -/
theorem ofHexDigits_three (h : ∀ c ∈ [r, g, b], IsHexDigit c) :
    ofHexDigits [r, g, b] =
      ⟨channel (hexNumber [r, r]), channel (hexNumber [g, g]), channel (hexNumber [b, b]),
        channel 255⟩ := by
  obtain ⟨word, hword, hvalue⟩ := hexWord?_of_short h (show 3 ≤ 8 by decide)
  have hred : (word >>> 8).toNat = hexNumber [r] := toNat_front h hvalue 2 (by decide) rfl
  have hgreen : (word >>> 4 &&& 0xF).toNat = hexNumber [g] :=
    toNat_cut h hvalue 1 1 (by decide) rfl rfl
  have hblue : (word &&& 0xF).toNat = hexNumber [b] := toNat_back h hvalue 1 rfl
  simp only [List.forall_mem_cons] at h
  obtain ⟨hr, hg, hb, -⟩ := h
  unfold ofHexDigits
  rw [hword]
  show ofBytes _ _ _ _ = _
  unfold ofBytes
  rw [toNat_doubled hr hred, toNat_doubled hg hgreen, toNat_doubled hb hblue]
  rfl

end Forms

/-- **Any other count** is no colour at all, however long the text is. -/
theorem ofHexDigits_eq_clear (h₃ : digits.length ≠ 3) (h₆ : digits.length ≠ 6)
    (h₈ : digits.length ≠ 8) : ofHexDigits digits = clear := by
  unfold ofHexDigits
  split
  · exact absurd ‹_› h₃
  · exact absurd ‹_› h₆
  · exact absurd ‹_› h₈
  · rfl

/-- The case of letters has no part in a colour. -/
theorem ofHexDigits_of_sameLetters (h : SameLetters digits others)
    (hothers : ∀ c ∈ others, IsHexDigit c) : ofHexDigits digits = ofHexDigits others := by
  obtain ⟨word, hword, hvalue⟩ := hexWord?_of_digits (h.hexDigits hothers)
  obtain ⟨word', hword', hvalue'⟩ := hexWord?_of_digits hothers
  have hsame : word = word' := by
    refine UInt32.toNat.inj (hvalue.trans (Eq.trans ?_ hvalue'.symm))
    unfold hexNumber
    rw [h.hexIndices]
  have hlength : digits.length = others.length := by
    have hlengths := congrArg List.length h
    rwa [List.length_map, List.length_map] at hlengths
  unfold ofHexDigits
  rw [hword, hword', hsame, hlength]

/-! ## Texts -/

/-- The text of digits behind a hash sign. -/
def hashed (digits : List Char) : String := String.ofList ('#' :: digits)

/-- The names of colours. -/
theorem isSome_ofName?_iff (name : String) : (ofName? name).isSome = true ↔
    name ∈ ["black", "white", "green", "brown", "blue", "red"] := by
  have hnames : named.map (·.1) = ["black", "white", "green", "brown", "blue", "red"] := rfl
  rw [ofName?, List.lookup_isSome_iff, ← hnames, List.mem_map]
  exact exists_congr fun entry => and_congr_right fun _ => by rw [beq_iff_eq, eq_comm]

theorem ofHex_hashed (digits : List Char) : ofHex (hashed digits) = ofHexDigits digits := by
  unfold ofHex hashed
  rw [String.toList_ofList]
  rfl

/-- **Digits need no hash sign.** -/
theorem ofHex_ofList (h : ∀ c ∈ digits, IsHexDigit c) :
    ofHex (String.ofList digits) = ofHexDigits digits := by
  unfold ofHex
  rw [String.toList_ofList]
  split
  · exact absurd (h '#' List.mem_cons_self) (by decide)
  · rfl

/-- **A text with a hash sign in front** is a colour if digits follow. -/
theorem parse?_hashed (hne : digits ≠ []) (h : ∀ c ∈ digits, IsHexDigit c) :
    parse? (hashed digits) = some (ofHexDigits digits) := by
  have hdigits : (!digits.isEmpty && digits.all fun c => (Text.hexValue? c).isSome) = true := by
    rw [Bool.and_eq_true, Bool.not_eq_true', List.isEmpty_eq_false_iff, List.all_eq_true]
    exact ⟨hne, fun c hc => (Text.isSome_hexValue?_iff c).2 (h c hc)⟩
  unfold parse? hashed
  rw [String.toList_ofList]
  show (if _ then _ else _) = _
  rw [if_pos hdigits, ofHex_ofList h]

/-- And only then. -/
theorem digits_of_parse?_hashed (h : (parse? (hashed digits)).isSome = true) :
    digits ≠ [] ∧ ∀ c ∈ digits, IsHexDigit c := by
  unfold parse? hashed at h
  rw [String.toList_ofList] at h
  simp only at h
  split at h
  · rename_i hdigits
    rw [Bool.and_eq_true, Bool.not_eq_true', List.isEmpty_eq_false_iff, List.all_eq_true] at hdigits
    exact ⟨hdigits.1, fun c hc => (Text.isSome_hexValue?_iff c).1 (hdigits.2 c hc)⟩
  · cases h

/-- A text without a hash sign in front is a colour by its name. -/
theorem parse?_of_not_hashed {text : String} (h : ∀ digits, text ≠ hashed digits) :
    parse? text = ofName? text := by
  unfold parse?
  split
  · rename_i digits htext
    exact absurd (String.toList_inj.1 (htext.trans (String.toList_ofList).symm)) (h digits)
  · rfl

/-- **The texts that are colours.** -/
theorem isSome_parse?_iff (text : String) : (parse? text).isSome = true ↔
    text ∈ ["black", "white", "green", "brown", "blue", "red"] ∨
      ∃ digits, digits ≠ [] ∧ (∀ c ∈ digits, IsHexDigit c) ∧ text = hashed digits := by
  by_cases hhash : ∃ digits, text = hashed digits
  · obtain ⟨digits, rfl⟩ := hhash
    have hname : hashed digits ∉ ["black", "white", "green", "brown", "blue", "red"] := by
      intro hmem
      have hheads : ∀ name ∈ ["black", "white", "green", "brown", "blue", "red"],
          name.toList.head? ≠ some '#' := by
        decide
      refine hheads _ hmem ?_
      unfold hashed
      rw [String.toList_ofList, List.head?_cons]
    constructor
    · intro hsome
      obtain ⟨hne, hdigits⟩ := digits_of_parse?_hashed hsome
      exact .inr ⟨digits, hne, hdigits, rfl⟩
    · rintro (hmem | ⟨others, hne, hothers, heq⟩)
      · exact absurd hmem hname
      · obtain rfl : digits = others := (List.cons.inj (String.ofList_injective heq)).2
        rw [parse?_hashed hne hothers, Option.isSome_some]
  · have hplain : ∀ digits, text ≠ hashed digits := fun digits heq => hhash ⟨digits, heq⟩
    rw [parse?_of_not_hashed hplain, isSome_ofName?_iff]
    constructor
    · exact .inl
    · rintro (hmem | ⟨digits, -, -, heq⟩)
      · exact hmem
      · exact absurd heq (hplain digits)

/-- **What the texts of colours mean.** A text is a colour exactly if it is
one of six names, or a hash sign and one or more hexadecimal digits. Of
digits, eight spell the bytes of alpha, red, green and blue, each over 255; six
are the last six of eight that start with `FF`; three are six with each digit
twice; and any other count is no colour at all. The case of letters has no part
in it, and neither has the hash sign where digits are expected. -/
theorem colors_of_texts :
    (∀ text, (parse? text).isSome = true ↔
      text ∈ ["black", "white", "green", "brown", "blue", "red"] ∨
        ∃ digits, digits ≠ [] ∧ (∀ c ∈ digits, IsHexDigit c) ∧ text = hashed digits) ∧
    ∀ digits, digits ≠ [] → (∀ c ∈ digits, IsHexDigit c) →
      (∀ a₁ a₀ r₁ r₀ g₁ g₀ b₁ b₀, digits = [a₁, a₀, r₁, r₀, g₁, g₀, b₁, b₀] →
        parse? (hashed digits) = some
          { alpha := .ofRatio false (hexNumber [a₁, a₀]) 255
            red := .ofRatio false (hexNumber [r₁, r₀]) 255
            green := .ofRatio false (hexNumber [g₁, g₀]) 255
            blue := .ofRatio false (hexNumber [b₁, b₀]) 255 }) ∧
      (digits.length = 6 → parse? (hashed digits) = parse? (hashed ('F' :: 'F' :: digits))) ∧
      (digits.length = 3 →
        parse? (hashed digits) = parse? (hashed (digits.flatMap fun c => [c, c]))) ∧
      (digits.length ∉ [3, 6, 8] → parse? (hashed digits) = some clear) ∧
      (∀ others, SameLetters others digits →
        parse? (hashed others) = parse? (hashed digits)) ∧
      parse? (hashed digits) = some (ofHex (hashed digits)) ∧
      parse? (hashed digits) = some (ofHex (String.ofList digits)) := by
  refine ⟨isSome_parse?_iff, fun digits hne h => ?_⟩
  refine ⟨?_, fun hsix => ?_, fun hthree => ?_, fun hcount => ?_, fun others hsame => ?_, ?_, ?_⟩
  · rintro a₁ a₀ r₁ r₀ g₁ g₀ b₁ b₀ rfl
    rw [parse?_hashed hne h, ofHexDigits_eight h]
    rfl
  · obtain ⟨r₁, r₀, g₁, g₀, b₁, b₀, rfl⟩ : ∃ r₁ r₀ g₁ g₀ b₁ b₀,
        digits = [r₁, r₀, g₁, g₀, b₁, b₀] :=
      match digits, hsix with
      | [r₁, r₀, g₁, g₀, b₁, b₀], _ => ⟨r₁, r₀, g₁, g₀, b₁, b₀, rfl⟩
    have hfull : ∀ c ∈ ['F', 'F', r₁, r₀, g₁, g₀, b₁, b₀], IsHexDigit c :=
      List.forall_mem_cons.2 ⟨by decide, List.forall_mem_cons.2 ⟨by decide, h⟩⟩
    rw [parse?_hashed hne h, parse?_hashed (List.cons_ne_nil _ _) hfull, ofHexDigits_six h,
      ofHexDigits_eight hfull]
    rfl
  · obtain ⟨r, g, b, rfl⟩ := List.length_eq_three.1 hthree
    have hdoubled : ∀ c ∈ [r, r, g, g, b, b], IsHexDigit c := by
      simp only [List.forall_mem_cons] at h ⊢
      obtain ⟨hr, hg, hb, hnil⟩ := h
      exact ⟨hr, hr, hg, hg, hb, hb, hnil⟩
    have hmap : ([r, g, b].flatMap fun c => [c, c]) = [r, r, g, g, b, b] := rfl
    rw [hmap, parse?_hashed hne h, parse?_hashed (List.cons_ne_nil _ _) hdoubled, ofHexDigits_three h,
      ofHexDigits_six hdoubled]
  · simp only [List.mem_cons, List.not_mem_nil, or_false, not_or] at hcount
    rw [parse?_hashed hne h, ofHexDigits_eq_clear hcount.1 hcount.2.1 hcount.2.2]
  · have hothers := hsame.hexDigits h
    have hne' : others ≠ [] := by
      rintro rfl
      exact hne (List.map_eq_nil_iff.1 hsame.symm)
    rw [parse?_hashed hne' hothers, parse?_hashed hne h, ofHexDigits_of_sameLetters hsame h]
  · rw [parse?_hashed hne h, ofHex_hashed]
  · rw [parse?_hashed hne h, ofHex_ofList h]

/-- Half a red, in letters of both cases. -/
theorem colors_of_texts_half_red :
    ['8', '0', 'f', 'F', '0', '0', '0', '0'] ≠ [] ∧
      (∀ c ∈ ['8', '0', 'f', 'F', '0', '0', '0', '0'], IsHexDigit c) ∧
      parse? (hashed ['8', '0', 'f', 'F', '0', '0', '0', '0']) = some
        { alpha := .ofRatio false 128 255
          red := .ofRatio false 255 255
          green := .ofRatio false 0 255
          blue := .ofRatio false 0 255 } := by
  have hne : ['8', '0', 'f', 'F', '0', '0', '0', '0'] ≠ [] := List.cons_ne_nil _ _
  have hall : ['8', '0', 'f', 'F', '0', '0', '0', '0'].all (fun c => decide (IsHexDigit c)) =
      true := by decide
  have hdigits : ∀ c ∈ ['8', '0', 'f', 'F', '0', '0', '0', '0'], IsHexDigit c :=
    fun c hc => of_decide_eq_true (List.all_eq_true.1 hall c hc)
  have hparsed := (colors_of_texts.2 _ hne hdigits).1 _ _ _ _ _ _ _ _ rfl
  exact ⟨hne, hdigits, hparsed⟩

end Color

end LiveLayout
