import LiveLayout.Json.Numeral
/-!
# Tokens of JSON text

A text is cut into punctuation, strings and other scalars. A string whose
escapes name half a character is well formed and invalid, so that it fails
only where it is read.
-/

namespace LiveLayout

namespace Json

/-- A token. Strings are kept apart from other scalars, since only they can
be keys. -/
inductive Token where
  | openList
  | closeList
  | openRecord
  | closeRecord
  | comma
  | colon
  | string (d : Datum)
  | scalar (d : Datum)

/-- A part of a string as it is written: a character, or sixteen bits by
their number. -/
inductive Piece where
  | char (c : Char)
  | unit (n : Nat)

/-- The character an escape of one letter stands for. -/
def escaped? (c : Char) : Option Char :=
  if c = '"' ∨ c = '\\' ∨ c = '/' then some c
  else if c = 'b' then some '\x08'
  else if c = 'f' then some '\x0c'
  else if c = 'n' then some '\n'
  else if c = 'r' then some '\r'
  else if c = 't' then some '\t'
  else none

/-- The number that four hexadecimal digits spell. -/
def unit? (a b c d : Char) : Option Nat :=
  match Text.hexValue? a, Text.hexValue? b, Text.hexValue? c, Text.hexValue? d with
  | some a, some b, some c, some d => some (Text.ofDigits 16 [a, b, c, d])
  | _, _, _, _ => none

/-- The pieces of a string up to its closing mark, and the rest behind it.
A control character, an unknown escape and a missing mark are refused. -/
def scanPieces : List Char → Option (List Piece × List Char)
  | [] => none
  | '\\' :: 'u' :: a :: b :: c :: d :: rest =>
    match unit? a b c d, scanPieces rest with
    | some n, some (pieces, rest) => some (.unit n :: pieces, rest)
    | _, _ => none
  | '\\' :: e :: rest =>
    match escaped? e, scanPieces rest with
    | some c, some (pieces, rest) => some (.char c :: pieces, rest)
    | _, _ => none
  | c :: rest =>
    if c = '"' then some ([], rest)
    else if c = '\\' ∨ c.toNat < 0x20 then none
    else
      match scanPieces rest with
      | some (pieces, rest) => some (.char c :: pieces, rest)
      | none => none

/-- **The characters of a string.** Two units in the two surrogate ranges
make one character together; a unit of either range alone makes none. -/
def assemble? : List Piece → Option (List Char)
  | [] => some []
  | .char c :: rest => (assemble? rest).map (c :: ·)
  | .unit n :: rest =>
    if n < 0xD800 ∨ 0xDFFF < n then
      (assemble? rest).map (Char.ofNat n :: ·)
    else
      match rest with
      | .unit m :: rest =>
        if n < 0xDC00 ∧ 0xDC00 ≤ m ∧ m ≤ 0xDFFF then
          (assemble? rest).map (Char.ofNat (0x10000 + (n - 0xD800) * 0x400 + (m - 0xDC00)) :: ·)
        else none
      | _ => none

/-- A string as a datum. -/
def stringDatum (pieces : List Piece) : Datum :=
  match assemble? pieces with
  | some cs => .text (String.ofList cs)
  | none => .invalid

/-- White space between tokens. -/
def isSpace (c : Char) : Bool := c = ' ' || c = '\t' || c = '\n' || c = '\r'

/-- The token a single character is. -/
def punctuation? (c : Char) : Option Token :=
  if c = '[' then some .openList
  else if c = ']' then some .closeList
  else if c = '{' then some .openRecord
  else if c = '}' then some .closeRecord
  else if c = ',' then some .comma
  else if c = ':' then some .colon
  else none

/-- The rest of a text that starts with the given characters. -/
def dropWord? : List Char → List Char → Option (List Char)
  | [], cs => some cs
  | _ :: _, [] => none
  | w :: ws, c :: cs => if w = c then dropWord? ws cs else none

/-- The words that are values. -/
def words : List (List Char × Datum) :=
  [(['n', 'u', 'l', 'l'], .null), (['t', 'r', 'u', 'e'], .bool true),
    (['f', 'a', 'l', 's', 'e'], .bool false)]

/-- The value a word stands for, and the rest behind the word. -/
def scanWord (cs : List Char) : Option (Datum × List Char) :=
  words.findSome? fun word => (dropWord? word.1 cs).map fun rest => (word.2, rest)

/-- The token that starts with `c`, and the rest behind it. -/
def scanToken (c : Char) (cs : List Char) : Option (Token × List Char) :=
  match punctuation? c with
  | some token => some (token, cs)
  | none =>
    if c = '"' then
      (scanPieces cs).map fun scanned => (.string (stringDatum scanned.1), scanned.2)
    else if c = '-' ∨ (Text.decimalValue? c).isSome then
      let (numeral, rest) := Numeral.scan (c :: cs)
      if numeral.isStrict then some (.scalar numeral.toDatum, rest) else none
    else
      (scanWord (c :: cs)).map fun scanned => (.scalar scanned.1, scanned.2)

/-! ## Every token takes a character -/

theorem length_scanPieces {cs rest : List Char} {pieces : List Piece}
    (h : scanPieces cs = some (pieces, rest)) : rest.length < cs.length := by
  fun_induction scanPieces cs generalizing pieces rest with
  | case1 => simp at h
  | case2 a b c d tail n ps r hr _ ih =>
    simp only [Option.some.injEq, Prod.mk.injEq] at h
    obtain ⟨-, rfl⟩ := h
    have := ih hr
    simp only [List.length_cons]
    omega
  | case3 => simp at h
  | case4 e tail _ c ps r hr _ ih =>
    simp only [Option.some.injEq, Prod.mk.injEq] at h
    obtain ⟨-, rfl⟩ := h
    have := ih hr
    simp only [List.length_cons]
    omega
  | case5 => simp at h
  | case6 =>
    simp only [Option.some.injEq, Prod.mk.injEq] at h
    obtain ⟨-, rfl⟩ := h
    simp
  | case7 => simp at h
  | case8 c tail _ _ _ _ ps r hr ih =>
    simp only [Option.some.injEq, Prod.mk.injEq] at h
    obtain ⟨-, rfl⟩ := h
    have := ih hr
    simp only [List.length_cons]
    omega
  | case9 => simp at h

theorem length_scanDigits (cs : List Char) :
    (Numeral.scanDigits cs).2.length + (Numeral.scanDigits cs).1.length = cs.length := by
  fun_induction Numeral.scanDigits cs with
  | case1 => rfl
  | case2 c cs d _ ih => simp only [List.length_cons]; omega
  | case3 => simp

theorem length_scanSign (cs : List Char) : (Numeral.scanSign cs).2.length ≤ cs.length := by
  fun_cases Numeral.scanSign cs <;> simp

theorem length_scanFraction (cs : List Char) : (Numeral.scanFraction cs).2.length ≤ cs.length := by
  fun_cases Numeral.scanFraction cs with
  | case1 => simp
  | case2 cs =>
    have := length_scanDigits cs
    simp only [List.length_cons]
    omega
  | case3 => simp

theorem length_scanExponent (cs : List Char) : (Numeral.scanExponent cs).2.length ≤ cs.length := by
  fun_cases Numeral.scanExponent cs with
  | case1 => simp
  | case2 c cs _ sign digits h =>
    have hsign := length_scanSign cs
    have hdigits := length_scanDigits digits
    rw [h] at hsign
    simp only [List.length_cons] at hsign ⊢
    omega
  | case3 => simp

theorem length_scan {cs : List Char} (h : (Numeral.scan cs).1.whole ≠ []) :
    (Numeral.scan cs).2.length < cs.length := by
  simp only [Numeral.scan] at h ⊢
  have hsign := length_scanSign cs
  have hwhole := length_scanDigits (Numeral.scanSign cs).2
  have hfraction := length_scanFraction (Numeral.scanDigits (Numeral.scanSign cs).2).2
  have hexponent := length_scanExponent
    (Numeral.scanFraction (Numeral.scanDigits (Numeral.scanSign cs).2).2).2
  have hpos : 0 < (Numeral.scanDigits (Numeral.scanSign cs).2).1.length :=
    List.length_pos_iff.2 h
  omega

theorem length_dropWord {word cs rest : List Char} (h : dropWord? word cs = some rest) :
    rest.length + word.length = cs.length := by
  fun_induction dropWord? word cs with
  | case1 cs => simp_all
  | case2 => simp at h
  | case3 ws c cs ih => simp [← ih h]; omega
  | case4 => simp at h

theorem length_scanWord {cs rest : List Char} {d : Datum} (h : scanWord cs = some (d, rest)) :
    rest.length < cs.length := by
  obtain ⟨word, hmem, hword⟩ := List.exists_of_findSome?_eq_some h
  obtain ⟨tail, hdrop, heq⟩ := Option.map_eq_some_iff.1 hword
  obtain ⟨-, rfl⟩ := Prod.mk.inj heq
  have hlength := length_dropWord hdrop
  -- No word is empty.
  have hpos : 0 < word.1.length := by
    simp only [words, List.mem_cons, List.not_mem_nil, or_false] at hmem
    rcases hmem with rfl | rfl | rfl <;> decide
  omega

theorem length_scanToken {c : Char} {cs rest : List Char} {token : Token}
    (h : scanToken c cs = some (token, rest)) : rest.length < (c :: cs).length := by
  unfold scanToken at h
  split at h
  · simp only [Option.some.injEq, Prod.mk.injEq] at h
    obtain ⟨-, rfl⟩ := h
    simp
  · split at h
    · obtain ⟨scanned, hs, heq⟩ := Option.map_eq_some_iff.1 h
      obtain ⟨-, rfl⟩ := Prod.mk.inj heq
      have := length_scanPieces hs
      simp only [List.length_cons]
      omega
    · split at h
      · simp only at h
        split at h
        · rename_i hstrict
          simp only [Option.some.injEq, Prod.mk.injEq] at h
          obtain ⟨-, rfl⟩ := h
          apply length_scan
          intro hw
          simp [Numeral.isStrict, hw] at hstrict
        · simp at h
      · obtain ⟨scanned, hs, heq⟩ := Option.map_eq_some_iff.1 h
        obtain ⟨-, rfl⟩ := Prod.mk.inj heq
        exact length_scanWord hs

/-- **The tokens of a text**, unless some part of it is none. -/
def tokens? : List Char → Option (List Token)
  | [] => some []
  | c :: cs =>
    if isSpace c then tokens? cs
    else
      match _scanned : scanToken c cs with
      | some (token, rest) => (tokens? rest).map (token :: ·)
      | none => none
termination_by cs => cs.length
decreasing_by
  · simp
  · exact length_scanToken ‹_›

end Json

end LiveLayout
