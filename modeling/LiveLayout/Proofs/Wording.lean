import LiveLayout.Expression
import LiveLayout.Proofs.Rounding
/-!
# The wording of references

A reference in text is put together from parts that carry their own
conditions: a target, perhaps a field, and perhaps a shift, which is a sign
and a numeral (`Wording`). The scanners of an expression are inverse to
writing such parts, one by one, so a text is read as a relative expression
exactly if it is the wording of one (`readRelative?_eq_some_iff`), and by
no two wordings (`Wording.write_injective`).

The classes of characters overlap, but no part goes on into the next: a
target ends at a parenthesis and a field at a blank, which neither of them
contains, and digits end with the text.
-/

namespace LiveLayout

/-! ## Numbers in free text -/

/-- **The number a text is**, if it is a numeral and nothing else; one that
is too large is infinite. -/
def Numeral.read? (cs : List Char) : Option Binary64 :=
  let (numeral, rest) := scan cs
  if rest.isEmpty && numeral.isFree then
    some (numeral.decimal.toBinary numeral.isNegative)
  else none

/-- Free text is read so without the blanks at its ends, and what is not
finite is refused. -/
theorem readNumber?_eq (text : String) :
    readNumber? text =
      (Numeral.read? (Text.trim text.toList)).filter fun x => x.isFinite := by
  unfold readNumber? Numeral.read?
  simp only
  split
  · rfl
  · rfl

namespace Numeral

variable {cs rest : List Char} {digits : List Nat}

/-- What has a value as a digit is the character of that digit. -/
theorem digitChar_of_decimalValue? {c : Char} {d : Nat} (h : Text.decimalValue? c = some d) :
    d < 10 ∧ Text.digitChar d = c := by
  have hchar : ∀ d < 10, (Text.digitChar d).toNat = '0'.toNat + d := by decide
  unfold Text.decimalValue? at h
  split at h
  · rename_i hc
    have hlow : '0'.toNat ≤ c.toNat := hc.1
    have hhigh : c.toNat ≤ '0'.toNat + 9 := hc.2
    cases h
    have hlt : c.toNat - '0'.toNat < 10 := by omega
    refine ⟨hlt, Char.toNat_inj.1 ?_⟩
    rw [hchar _ hlt]
    omega
  · cases h

/-- What is scanned as digits was written so. -/
theorem scanDigits_sound (h : scanDigits cs = (digits, rest)) :
    AreDigits digits ∧ cs = writeDigits digits ++ rest := by
  induction cs generalizing digits with
  | nil =>
    cases h
    exact ⟨fun _ hd => (nomatch hd), rfl⟩
  | cons c cs ih =>
    unfold scanDigits at h
    split at h
    · rename_i d hd
      cases h
      obtain ⟨hlt, rfl⟩ := digitChar_of_decimalValue? hd
      obtain ⟨hdigits, hcs⟩ := ih rfl
      refine ⟨fun d' hd' => ?_, ?_⟩
      · rcases List.mem_cons.1 hd' with rfl | hmem
        · exact hlt
        · exact hdigits _ hmem
      · exact congrArg _ hcs
    · cases h
      exact ⟨fun _ hd => (nomatch hd), rfl⟩

theorem scanDigits_writeDigits (h : AreDigits digits) :
    scanDigits (writeDigits digits) = (digits, []) := by
  have hend : EndsDigits [] := fun _ hc => nomatch hc
  have hscan := scanDigits_write h hend
  rwa [List.append_nil] at hscan

/-- No digit is a blank. -/
theorem trim_writeDigits (h : AreDigits digits) :
    Text.trim (writeDigits digits) = writeDigits digits := by
  have hblank : ∀ d < 10, ¬Text.isBlank (Text.digitChar d) = true := by decide
  have hkept : ∀ digits, AreDigits digits →
      (writeDigits digits).dropWhile Text.isBlank = writeDigits digits := by
    intro digits h
    cases digits with
    | nil => rfl
    | cons d digits => exact List.dropWhile_cons_of_neg (hblank d (h d List.mem_cons_self))
  have hreverse : (writeDigits digits).reverse = writeDigits digits.reverse := by
    unfold writeDigits
    rw [List.map_reverse]
  unfold Text.trim
  rw [hkept digits h, hreverse, hkept _ fun d hd => h d (List.mem_reverse.1 hd), ← hreverse,
    List.reverse_reverse]

/-- **Digits alone** are read as the natural they spell. -/
theorem read?_writeDigits (h : AreDigits digits) (hne : digits ≠ []) :
    read? (writeDigits digits) =
      some ((Decimal.mk (Text.ofDigits 10 digits) 0).toBinary false) := by
  have hscan : scan (writeDigits digits) = (⟨none, digits, none, none⟩, []) := by
    have hwell : (Numeral.mk none digits none none).WellFormed :=
      ⟨isSign_none, h, fun _ h => (nomatch h), no_exponent⟩
    have hwritten : (Numeral.mk none digits none none).write ++ [] = writeDigits digits := by
      rw [List.append_nil]
      exact List.append_nil _
    rw [← hwritten]
    exact scan_write hwell ⟨fun _ hc => (nomatch hc), fun _ hc => (nomatch hc)⟩
  have hfree : (Numeral.mk none digits none none).isFree = true := by
    cases digits with
    | nil => exact absurd rfl hne
    | cons d digits => rfl
  have hdecimal : (Numeral.mk none digits none none).decimal =
      ⟨Text.ofDigits 10 digits, 0⟩ := by
    unfold decimal
    simp only [Option.getD_none, List.append_nil]
    rfl
  unfold read?
  rw [hscan]
  simp only [List.isEmpty_nil, hfree, Bool.and_self, if_true, hdecimal]
  rfl

end Numeral

/-! ## The parts of a reference -/

/-- **A word of a class of characters**: some characters, all of that
class. -/
@[ext]
structure Word (p : Char → Bool) where
  chars : List Char
  nonempty : chars ≠ []
  all : ∀ c ∈ chars, p c = true

/-- A word as a text. -/
def Word.text {p : Char → Bool} (word : Word p) : String := String.ofList word.chars

theorem Word.toList_text {p : Char → Bool} (word : Word p) : word.text.toList = word.chars :=
  String.toList_ofList

/-- **A shift**: a sign and the digits of a numeral, the first of them not
zero. -/
@[ext]
structure Shift where
  negative : Bool
  digits : List Nat
  areDigits : Numeral.AreDigits digits
  nonempty : digits ≠ []
  leading : digits.head? ≠ some 0

namespace Shift

/-- The numeral of a shift. -/
def numeral (shift : Shift) : List Char := Numeral.writeDigits shift.digits

/-- The natural the numeral spells. -/
def magnitude (shift : Shift) : Nat := Text.ofDigits 10 shift.digits

/-- **A shift as it is written**: a blank, the sign, a blank and the
numeral. -/
def write (shift : Shift) : List Char :=
  ' ' :: (if shift.negative then '-' else '+') :: ' ' :: shift.numeral

/-- **The offset a shift gives**: the number its numeral is read as, with
the sign. -/
def offset? (shift : Shift) : Option Binary64 :=
  (Numeral.read? shift.numeral).map fun x => if shift.negative then x.neg else x

/-- Every shift gives one. -/
theorem offset?_eq (shift : Shift) :
    shift.offset? = some (Expression.signedOffset shift.negative shift.digits) := by
  unfold offset? numeral Expression.signedOffset
  rw [Numeral.read?_writeDigits shift.areDigits shift.nonempty, Option.map_some]
  cases shift.negative
  · rfl
  · exact congrArg some (Decimal.neg_toBinary _)

/-- **It is finite** unless the natural is too large. -/
theorem isFinite_signedOffset_iff (shift : Shift) :
    (Expression.signedOffset shift.negative shift.digits).isFinite = true ↔
      shift.magnitude < Format.excess :=
  Decimal.isFinite_toBinary_iff _ _

end Shift

/-- **A reference in words.** -/
@[ext]
structure Wording where
  target : Word Expression.isTargetChar
  field : Option (Word Expression.isLetter)
  shift : Option Shift

namespace Wording

/-- The field as it is written. -/
def writeField (field : Option (Word Expression.isLetter)) : List Char :=
  field.elim [] fun name => '.' :: name.chars

/-- The shift as it is written. -/
def writeShift (shift : Option Shift) : List Char :=
  shift.elim [] Shift.write

/-- The characters of a reference. -/
def chars (w : Wording) : List Char :=
  '$' :: '(' :: (w.target.chars ++ ')' :: (writeField w.field ++ writeShift w.shift))

/-- **A reference as it is written.** -/
def write (w : Wording) : String := String.ofList w.chars

/-- Put together from texts. -/
theorem write_eq (w : Wording) :
    w.write = "$(" ++ w.target.text ++ ")" ++ (w.field.elim "" fun name => "." ++ name.text) ++
      w.shift.elim "" fun shift =>
        (if shift.negative then " - " else " + ") ++ String.ofList shift.numeral := by
  have hopen : "$(".toList = ['$', '('] := rfl
  have hclose : ")".toList = [')'] := rfl
  have hfield : (w.field.elim "" fun name => "." ++ name.text).toList = writeField w.field := by
    cases w.field with
    | none => rfl
    | some name => exact (String.toList_append ..).trans (congrArg _ name.toList_text)
  have hshift : (w.shift.elim "" fun shift =>
      (if shift.negative then " - " else " + ") ++ String.ofList shift.numeral).toList =
      writeShift w.shift := by
    cases w.shift with
    | none => rfl
    | some shift =>
      show (_ ++ String.ofList shift.numeral).toList = shift.write
      rw [String.toList_append, String.toList_ofList]
      unfold Shift.write
      cases shift.negative <;> rfl
  refine String.toList_inj.1 ?_
  simp only [String.toList_append, hopen, hclose, hfield, hshift, write, chars, Word.toList_text,
    String.toList_ofList, List.cons_append, List.nil_append, List.append_assoc]

/-- The offset of a reference: none is zero. -/
def offset? (w : Wording) : Option Binary64 :=
  w.shift.elim (some .zero) Shift.offset?

/-- The offset the digits give. -/
def offset (w : Wording) : Binary64 :=
  w.shift.elim .zero fun shift => Expression.signedOffset shift.negative shift.digits

theorem offset?_eq (w : Wording) : w.offset? = some w.offset := by
  unfold offset? offset
  cases w.shift with
  | none => rfl
  | some shift => exact shift.offset?_eq

/-- **The expression a reference stands for.** -/
def expression (w : Wording) : Expression :=
  .relative w.target.text (w.field.map Word.text) w.offset

/-- What a reference ends with starts with a blank, if there is anything. -/
theorem head?_writeShift (shift : Option Shift) :
    ∀ c ∈ (writeShift shift).head?, c = ' ' := by
  cases shift with
  | none => exact fun _ hc => nomatch hc
  | some shift => exact fun _ hc => (Option.some.inj hc).symm

end Wording

/-! ## Scanning the parts -/

namespace Expression

variable {p : Char → Bool} {cs rest target : List Char}

/-- A run of a class ends where a character is not of it. -/
theorem takeWhile_append_of_head? (hcs : ∀ c ∈ cs, p c = true)
    (hrest : ∀ c ∈ rest.head?, p c = false) :
    (cs ++ rest).takeWhile p = cs ∧ (cs ++ rest).dropWhile p = rest := by
  rw [List.takeWhile_append_of_pos hcs, List.dropWhile_append_of_pos hcs]
  cases rest with
  | nil => exact ⟨List.append_nil cs, rfl⟩
  | cons c rest =>
    have hc : ¬p c = true := by
      rw [hrest c rfl]
      exact Bool.false_ne_true
    rw [List.takeWhile_cons_of_neg hc, List.dropWhile_cons_of_neg hc]
    exact ⟨List.append_nil cs, rfl⟩

/-- **The target is scanned** as it was written. -/
theorem scanTarget_eq_some_iff :
    scanTarget cs = some (target, rest) ↔
      (∃ word : Word isTargetChar, word.chars = target) ∧
        cs = '$' :: '(' :: (target ++ ')' :: rest) := by
  constructor
  · intro h
    unfold scanTarget at h
    split at h
    · rename_i cs
      split at h
      · rename_i c name behind htake hdrop
        cases h
        have hall : ∀ d ∈ c :: name, isTargetChar d = true := by
          rw [← htake]
          exact List.all_eq_true.1 List.all_takeWhile
        refine ⟨⟨⟨c :: name, List.cons_ne_nil _ _, hall⟩, rfl⟩, ?_⟩
        rw [← htake, ← hdrop, List.takeWhile_append_dropWhile]
      · cases h
    · cases h
  · rintro ⟨⟨word, rfl⟩, rfl⟩
    have hrest : ∀ c ∈ (')' :: rest).head?, isTargetChar c = false := by
      intro c hc
      cases hc
      decide
    obtain ⟨htake, hdrop⟩ := takeWhile_append_of_head? word.all hrest
    obtain ⟨c, name, hchars⟩ := List.exists_cons_of_ne_nil word.nonempty
    unfold scanTarget
    simp only [htake, hdrop]
    simp only [hchars]

/-- **The field is scanned** as it was written, where what follows starts
with a blank. -/
theorem scanField_writeField (field : Option (Word isLetter))
    (hrest : ∀ c ∈ rest.head?, c = ' ') :
    scanField (Wording.writeField field ++ rest) =
      (field.map fun word : Word isLetter => word.chars, rest) := by
  cases field with
  | none =>
    cases rest with
    | nil => rfl
    | cons c rest =>
      obtain rfl := hrest c rfl
      rfl
  | some word =>
    have hletter : ∀ c ∈ rest.head?, isLetter c = false := by
      intro c hc
      rw [hrest c hc]
      decide
    obtain ⟨htake, hdrop⟩ := takeWhile_append_of_head? word.all hletter
    obtain ⟨c, name, hchars⟩ := List.exists_cons_of_ne_nil word.nonempty
    show scanField ('.' :: (word.chars ++ rest)) = (some word.chars, rest)
    unfold scanField
    simp only [htake, hdrop]
    simp only [hchars]

/-- What is scanned as a field was written so. -/
theorem scanField_sound {name : Option (List Char)} (h : scanField cs = (name, rest)) :
    ∃ field : Option (Word isLetter),
      field.map (fun word : Word isLetter => word.chars) = name ∧
        Wording.writeField field ++ rest = cs := by
  unfold scanField at h
  split at h
  · rename_i cs
    split at h
    · cases h
      exact ⟨none, rfl, rfl⟩
    · rename_i c name htake
      cases h
      have hall : ∀ d ∈ c :: name, isLetter d = true := by
        rw [← htake]
        exact List.all_eq_true.1 List.all_takeWhile
      refine ⟨some ⟨c :: name, List.cons_ne_nil _ _, hall⟩, rfl, ?_⟩
      show '.' :: (c :: name ++ cs.dropWhile isLetter) = '.' :: cs
      rw [← htake, List.takeWhile_append_dropWhile]
  · cases h
    exact ⟨none, rfl, rfl⟩

/-- The offset of a shift, if there is one. -/
def shiftOffset (shift : Option Shift) : Option Binary64 :=
  shift.map fun shift => signedOffset shift.negative shift.digits

/-- **The offset is read** as it was written. -/
theorem readOffset?_writeShift (shift : Option Shift) :
    readOffset? (Wording.writeShift shift) = some (shiftOffset shift) := by
  cases shift with
  | none => rfl
  | some shift =>
    obtain ⟨d, digits, hdigits⟩ := List.exists_cons_of_ne_nil shift.nonempty
    have hd : d ≠ 0 := by
      rintro rfl
      exact shift.leading (by rw [hdigits]; rfl)
    have hscan := Numeral.scanDigits_writeDigits shift.areDigits
    show readOffset? (' ' :: (if shift.negative then '-' else '+') :: ' ' :: shift.numeral) =
      some (some (signedOffset shift.negative shift.digits))
    rw [hdigits] at hscan
    unfold readOffset? Shift.numeral
    rw [hdigits]
    cases shift.negative <;> simp [hscan, hd]

/-- What is read as an offset was written so. -/
theorem readOffset?_sound {offset : Option Binary64} (h : readOffset? cs = some offset) :
    ∃ shift : Option Shift, Wording.writeShift shift = cs ∧ shiftOffset shift = offset := by
  unfold readOffset? at h
  split at h
  · cases h
    exact ⟨none, rfl, rfl⟩
  · rename_i sign cs
    split at h
    · rename_i hsign
      split at h
      · rename_i d digits hscan
        split at h
        · cases h
        · rename_i hd
          cases h
          obtain ⟨hdigits, hcs⟩ := Numeral.scanDigits_sound hscan
          have hleading : (d :: digits).head? ≠ some 0 := fun hzero => hd (Option.some.inj hzero)
          refine ⟨some ⟨sign = '-', d :: digits, hdigits, List.cons_ne_nil _ _, hleading⟩, ?_, rfl⟩
          rw [hcs, List.append_nil]
          rcases hsign with rfl | rfl <;> rfl
      · cases h
    · cases h
  · cases h

/-! ## Reading references -/

/-- **A text is read as a relative expression** exactly if it is the wording
of one. -/
theorem readRelative?_eq_some_iff {e : Expression} :
    readRelative? cs = some e ↔ ∃ w : Wording, w.chars = cs ∧ w.expression = e := by
  constructor
  · intro h
    unfold readRelative? at h
    split at h
    · cases h
    · rename_i target rest htarget
      obtain ⟨⟨target, rfl⟩, rfl⟩ := scanTarget_eq_some_iff.1 htarget
      cases hscan : scanField rest with
      | mk name behind =>
        obtain ⟨field, rfl, rfl⟩ := scanField_sound hscan
        rw [hscan] at h
        obtain ⟨offset, hoffset, rfl⟩ := Option.map_eq_some_iff.1 h
        obtain ⟨shift, rfl, rfl⟩ := readOffset?_sound hoffset
        refine ⟨⟨target, field, shift⟩, rfl, ?_⟩
        rw [Option.map_map]
        cases shift <;> rfl
  · rintro ⟨w, rfl, rfl⟩
    have htarget : scanTarget w.chars =
        some (w.target.chars, Wording.writeField w.field ++ Wording.writeShift w.shift) :=
      scanTarget_eq_some_iff.2 ⟨⟨w.target, rfl⟩, rfl⟩
    unfold readRelative?
    rw [htarget]
    simp only [scanField_writeField w.field (Wording.head?_writeShift w.shift),
      readOffset?_writeShift, Option.map_some, Option.map_map]
    unfold Wording.expression Wording.offset
    cases w.shift <;> rfl

variable {text : String}

theorem toList_write (w : Wording) : w.write.toList = w.chars := String.toList_ofList

/-- **A reference is read as it was written.** -/
theorem parse_write (w : Wording) : parse w.write = .ok w.expression := by
  unfold parse
  rw [toList_write, readRelative?_eq_some_iff.2 ⟨w, rfl, rfl⟩]

/-- **What is no wording** is read as a number. -/
theorem parse_of_unworded (h : ¬∃ w : Wording, w.write = text) :
    parse text = (parseNumber text).map .literal := by
  unfold parse
  cases hread : readRelative? text.toList with
  | none => rfl
  | some e =>
    obtain ⟨w, hw, -⟩ := readRelative?_eq_some_iff.1 hread
    exact absurd ⟨w, String.toList_inj.1 ((toList_write w).trans hw)⟩ h

/-- A text is a number, or the error holds the text. -/
theorem parseNumber_cases (text : String) :
    (∃ x, parseNumber text = .ok x) ∨ parseNumber text = .error (.notANumber text) := by
  unfold parseNumber
  cases readNumber? text with
  | none => exact .inr rfl
  | some x => exact .inl ⟨x, rfl⟩

/-- **What a text is read as**: the reference it is the wording of, or else
what its number is. -/
theorem parse_cases (text : String) :
    (∃ w : Wording, w.write = text ∧ parse text = .ok w.expression) ∨
      (¬∃ w : Wording, w.write = text) ∧
        ((∃ x, parseNumber text = .ok x ∧ parse text = .ok (.literal x)) ∨
          parseNumber text = .error (.notANumber text) ∧
            parse text = .error (.notANumber text)) := by
  by_cases h : ∃ w : Wording, w.write = text
  · obtain ⟨w, rfl⟩ := h
    exact .inl ⟨w, rfl, parse_write w⟩
  · refine .inr ⟨h, ?_⟩
    have hparse := parse_of_unworded h
    rcases parseNumber_cases text with ⟨x, hx⟩ | herror
    · rw [hx] at hparse
      exact .inl ⟨x, hx, hparse⟩
    · rw [herror] at hparse
      exact .inr ⟨herror, hparse⟩

end Expression

namespace Wording

/-- The shifts of two wordings are told apart. -/
theorem writeShift_injective {shift other : Option Shift}
    (h : writeShift shift = writeShift other) : shift = other := by
  cases shift with
  | none =>
    cases other with
    | none => rfl
    | some other => cases h
  | some shift =>
    cases other with
    | none => cases h
    | some other =>
      obtain ⟨hsign, hnumeral⟩ :
          (if shift.negative then '-' else '+') = (if other.negative then '-' else '+') ∧
            shift.numeral = other.numeral := by
        simpa [writeShift, Shift.write] using h
      have hdigits : shift.digits = other.digits := by
        have hscan := Numeral.scanDigits_writeDigits shift.areDigits
        have hother := Numeral.scanDigits_writeDigits other.areDigits
        unfold Shift.numeral at hnumeral
        rw [hnumeral, hother] at hscan
        exact (congrArg Prod.fst hscan).symm
      have hnegative : shift.negative = other.negative := by
        revert hsign
        cases shift.negative <;> cases other.negative <;> decide
      exact congrArg some (Shift.ext hnegative hdigits)

/-- **No text is the wording of two references.** Each part is what its
scanner finds. -/
theorem write_injective : Function.Injective write := by
  intro v w h
  have hchars : v.chars = w.chars := by
    rw [← Expression.toList_write, ← Expression.toList_write, h]
  have hscan (u : Wording) : Expression.scanTarget u.chars =
      some (u.target.chars, writeField u.field ++ writeShift u.shift) :=
    Expression.scanTarget_eq_some_iff.2 ⟨⟨u.target, rfl⟩, rfl⟩
  have htarget := hscan v
  rw [hchars, hscan w] at htarget
  obtain ⟨htarget, hbehind⟩ := Prod.mk.inj (Option.some.inj htarget)
  have hfield := Expression.scanField_writeField v.field (head?_writeShift v.shift)
  rw [← hbehind, Expression.scanField_writeField w.field (head?_writeShift w.shift)] at hfield
  obtain ⟨hfield, hshift⟩ := Prod.mk.inj hfield
  refine Wording.ext (Word.ext htarget.symm) ?_ (writeShift_injective hshift.symm)
  exact (Option.map_injective (fun _ _ => Word.ext) hfield).symm

end Wording

namespace Expression

/-- **The grammar of expressions.** Wordings are told apart by their texts,
and each is read as the reference that it is, with the number its numeral
is read as for an offset. A text has a target exactly if it is such a
wording, and any other text is the literal that its number is, or refused
as it stands. -/
theorem parse_grammar :
    Function.Injective Wording.write ∧
      (∀ w : Wording, ∃ offset, w.offset? = some offset ∧
        parse w.write = .ok (.relative w.target.text (w.field.map Word.text) offset)) ∧
      ∀ text,
        ((∃ e target, parse text = .ok e ∧ e.target? = some target ∧ target ≠ "") ↔
          ∃ w : Wording, w.write = text) ∧
        ((∃ w : Wording, w.write = text) ∨
          (∃ x, parseNumber text = .ok x ∧ parse text = .ok (.literal x)) ∨
          parseNumber text = .error (.notANumber text) ∧
            parse text = .error (.notANumber text)) := by
  refine ⟨Wording.write_injective, fun w => ⟨w.offset, w.offset?_eq, parse_write w⟩,
    fun text => ?_⟩
  rcases parse_cases text with ⟨w, rfl, hparse⟩ | ⟨hnone, hnumber⟩
  · refine ⟨iff_of_true ⟨w.expression, w.target.text, hparse, rfl, fun hempty => ?_⟩ ⟨w, rfl⟩,
      .inl ⟨w, rfl⟩⟩
    have hchars := congrArg String.toList hempty
    rw [Word.toList_text] at hchars
    exact w.target.nonempty hchars
  · refine ⟨iff_of_false ?_ hnone, .inr hnumber⟩
    rintro ⟨e, target, hparse, htarget, -⟩
    rcases hnumber with ⟨x, -, hliteral⟩ | ⟨-, herror⟩
    · rw [hliteral] at hparse
      cases hparse
      cases htarget
    · rw [herror] at hparse
      cases hparse

end Expression

end LiveLayout
