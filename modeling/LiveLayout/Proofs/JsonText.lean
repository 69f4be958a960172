import LiveLayout.Json.Printer
import LiveLayout.Json.Reader
import LiveLayout.Proofs.Numerals
/-!
# JSON text read back

What the printer writes, the reader reads (`Printable.read?_render`), up to
what text cannot say: an integer from zero upwards is a natural number, a
number that is not finite is null, and any other is what its numeral is
read as (`Datum.retold`). The reader is followed token by token
(`Json.run`), and its position carries the induction: a datum takes any
position that awaits a value to the one behind it (`Datum.Told`).
-/

namespace LiveLayout

-- Powers of naturals are the ones of the core library, whatever else is imported.
attribute [local instance (high)] instPowNat

namespace Json

variable {rest cs : List Char}

/-! ## Strings -/

/-- The piece of a string that a character is written as. -/
def piece (c : Char) : Piece :=
  if c.toNat < 0x20 ∧ c ∉ ['\x08', '\x0c', '\n', '\r', '\t'] then .unit c.toNat else .char c

/-- A control character is written by its number, in four digits. -/
theorem unit?_escape {c : Char} (h : c.toNat < 0x20) :
    ∃ a b, (Text.paddedHexadecimal 4 c.toNat).toList = ['0', '0', a, b] ∧
      unit? '0' '0' a b = some c.toNat := by
  have hall : ∀ n < 0x20, (Text.paddedHexadecimal 4 n).toList =
        ['0', '0', Text.digitChar (n / 16), Text.digitChar (n % 16)] ∧
      unit? '0' '0' (Text.digitChar (n / 16)) (Text.digitChar (n % 16)) = some n := by
    decide +kernel
  exact ⟨_, _, hall c.toNat h⟩

theorem scanPieces_unit {a b c d : Char} {n : Nat} (h : unit? a b c d = some n) :
    scanPieces ('\\' :: 'u' :: a :: b :: c :: d :: cs) =
      (scanPieces cs).map fun scanned => (.unit n :: scanned.1, scanned.2) := by
  rw [scanPieces, h]
  cases scanPieces cs <;> rfl

theorem scanPieces_escaped {e c : Char} (hu : e ≠ 'u') (h : escaped? e = some c) :
    scanPieces ('\\' :: e :: cs) =
      (scanPieces cs).map fun scanned => (.char c :: scanned.1, scanned.2) := by
  rw [scanPieces, h]
  · cases scanPieces cs <;> rfl
  · exact fun _ _ _ _ _ heq _ => hu heq

theorem scanPieces_plain {c : Char} (hmark : c ≠ '"') (hback : c ≠ '\\') (h : ¬ c.toNat < 0x20) :
    scanPieces (c :: cs) =
      (scanPieces cs).map fun scanned => (.char c :: scanned.1, scanned.2) := by
  rw [scanPieces, if_neg hmark, if_neg (not_or.2 ⟨hback, h⟩)]
  · cases scanPieces cs <;> rfl
  · exact fun _ _ _ _ _ heq _ => hback heq
  · exact fun _ _ heq _ => hback heq

/-- **A character is scanned as it was escaped.** -/
theorem scanPieces_escape (c : Char) (cs : List Char) :
    scanPieces ((escape c).toList ++ cs) =
      (scanPieces cs).map fun scanned => (piece c :: scanned.1, scanned.2) := by
  unfold escape
  split
  · subst c
    exact scanPieces_escaped (by decide) rfl
  split
  · subst c
    exact scanPieces_escaped (by decide) rfl
  split
  · subst c
    exact scanPieces_escaped (by decide) rfl
  split
  · subst c
    exact scanPieces_escaped (by decide) rfl
  split
  · subst c
    exact scanPieces_escaped (by decide) rfl
  split
  · subst c
    exact scanPieces_escaped (by decide) rfl
  split
  · subst c
    exact scanPieces_escaped (by decide) rfl
  rename_i hmark hback hb hf hn hr ht
  split
  · -- any other control character goes by its number
    rename_i hcontrol
    obtain ⟨a, b, hdigits, hunit⟩ := unit?_escape hcontrol
    have hpiece : piece c = .unit c.toNat := by
      refine if_pos ⟨hcontrol, ?_⟩
      simp only [List.mem_cons, List.not_mem_nil, hb, hf, hn, hr, ht, or_self, not_false_eq_true]
    rw [String.toList_append, hdigits, hpiece]
    exact scanPieces_unit hunit
  · rename_i hplain
    have hpiece : piece c = .char c := if_neg fun h => hplain h.1
    rw [hpiece, Char.toString_eq_singleton, String.toList_singleton]
    exact scanPieces_plain hmark hback hplain

theorem assemble?_piece (c : Char) (pieces : List Piece) :
    assemble? (piece c :: pieces) = (assemble? pieces).map (c :: ·) := by
  unfold piece
  split
  · rename_i h
    have hlow : c.toNat < 0xD800 ∨ 0xDFFF < c.toNat := .inl (Nat.lt_trans h.1 (by decide))
    rw [assemble?.eq_def]
    simp only [if_pos hlow, Char.ofNat_toNat]
  · rfl

/-- **A string is scanned as it was written**, up to its closing mark. -/
theorem scanPieces_string (s : List Char) (rest : List Char) :
    scanPieces ((s.flatMap fun c => (escape c).toList) ++ '"' :: rest) =
      some (s.map piece, rest) := by
  induction s with
  | nil => rfl
  | cons c s ih =>
    rw [List.flatMap_cons, List.append_assoc, scanPieces_escape, ih]
    rfl

theorem stringDatum_piece (s : List Char) :
    stringDatum (s.map piece) = .text (String.ofList s) := by
  have hassembled : assemble? (s.map piece) = some s := by
    induction s with
    | nil => rfl
    | cons c s ih =>
      rw [List.map_cons, assemble?_piece, ih]
      rfl
  unfold stringDatum
  rw [hassembled]

theorem toList_renderString (s : String) :
    (renderString s).toList = '"' :: ((s.toList.flatMap fun c => (escape c).toList) ++ ['"']) := by
  unfold renderString
  rw [String.toList_append, String.toList_append, String.toList_join, List.flatMap_map]
  rfl

/-! ## Token by token -/

/-- **A text read on** from a position of the grammar, to its end. -/
def run (p : Reading) (cs : List Char) : Option Datum :=
  (tokens? cs).bind fun tokens => (tokens.foldlM Reading.step? p).bind Reading.whole?

theorem read?_eq_run (text : String) : read? text = run (.value []) text.toList := rfl

theorem run_nil (d : Datum) : run (.after d []) [] = some d := by
  unfold run
  rw [tokens?]
  rfl

/-- **One token read**, and then the rest. -/
theorem run_token {c : Char} {token : Token} (p : Reading) (hspace : isSpace c = false)
    (h : scanToken c cs = some (token, rest)) :
    run p (c :: cs) = (p.step? token).bind fun p => run p rest := by
  have htokens : tokens? (c :: cs) = (tokens? rest).map (token :: ·) := by
    rw [tokens?, hspace]
    simp only [Bool.false_eq_true, if_false]
    split
    · rename_i heq
      rw [h] at heq
      cases heq
      rfl
    · rename_i heq
      rw [h] at heq
      cases heq
  unfold run
  rw [htokens]
  cases tokens? rest with
  | none => cases p.step? token <;> rfl
  | some tokens =>
    show ((token :: tokens).foldlM Reading.step? p).bind Reading.whole? = _
    rw [List.foldlM_cons]
    cases p.step? token <;> rfl

/-- A punctuation mark read. -/
theorem run_punctuation {c : Char} {token : Token} (p : Reading)
    (h : punctuation? c = some token) (hspace : isSpace c = false) :
    run p (c :: rest) = (p.step? token).bind fun p => run p rest := by
  refine run_token p hspace ?_
  unfold scanToken
  rw [h]

/-- A string read. -/
theorem run_string (p : Reading) (s : String) (rest : List Char) :
    run p ((renderString s).toList ++ rest) =
      (p.step? (.string (.text s))).bind fun p => run p rest := by
  rw [toList_renderString, List.cons_append, List.append_assoc]
  refine run_token p rfl ?_
  show (scanPieces _).map _ = _
  rw [List.singleton_append, scanPieces_string, Option.map_some, stringDatum_piece,
    String.ofList_toList]

/-- The first character of a numeral that documents allow. -/
theorem head_write {n : Numeral} (hwell : n.WellFormed) (hstrict : n.isStrict = true) :
    ∃ c cs, n.write = c :: cs ∧ (c = '-' ∨ ∃ d < 10, c = Text.digitChar d) := by
  unfold Numeral.isStrict at hstrict
  simp only [Bool.and_eq_true, Bool.not_eq_true', bne_iff_ne, List.isEmpty_eq_false_iff] at hstrict
  obtain ⟨⟨⟨⟨hplus, hwhole⟩, -⟩, -⟩, -⟩ := hstrict
  unfold Numeral.write
  cases hsign : n.sign with
  | some c =>
    refine ⟨c, _, rfl, .inl ?_⟩
    rcases hwell.sign c hsign with rfl | rfl
    · exact absurd hsign hplus
    · rfl
  | none =>
    cases hdigits : n.whole with
    | nil => exact absurd hdigits hwhole
    | cons d digits =>
      refine ⟨Text.digitChar d, _, rfl, .inr ⟨d, hwell.whole d ?_, rfl⟩⟩
      rw [hdigits]
      exact List.mem_cons_self

/-- **A numeral read**, where a number ends behind it. -/
theorem run_numeral (p : Reading) {n : Numeral} (hwell : n.WellFormed)
    (hstrict : n.isStrict = true) (hrest : Numeral.Ends rest) :
    run p (n.write ++ rest) = (p.step? (.scalar n.toDatum)).bind fun p => run p rest := by
  obtain ⟨c, cs, hwrite, hc⟩ := head_write hwell hstrict
  have hall : ∀ d < 10, isSpace (Text.digitChar d) = false ∧
      (punctuation? (Text.digitChar d)).isNone = true ∧ Text.digitChar d ≠ '"' ∧
      (Text.decimalValue? (Text.digitChar d)).isSome = true := by decide
  have hfirst : isSpace c = false ∧ (punctuation? c).isNone = true ∧ c ≠ '"' ∧
      (c = '-' ∨ (Text.decimalValue? c).isSome = true) := by
    rcases hc with rfl | ⟨d, hd, rfl⟩
    · decide
    · obtain ⟨hspace, hnone, hmark, hdigit⟩ := hall d hd
      exact ⟨hspace, hnone, hmark, .inr hdigit⟩
  obtain ⟨hspace, hnone, hmark, hnumber⟩ := hfirst
  have hscan := Numeral.scan_write hwell hrest
  rw [hwrite, List.cons_append] at hscan ⊢
  refine run_token p hspace ?_
  unfold scanToken
  simp only [Option.isNone_iff_eq_none.1 hnone, if_neg hmark, if_pos hnumber, hscan, if_pos hstrict]

/-- **A position that takes a value** next, inside these frames. The first
item of a list may also be its end. -/
def Reading.Awaits (p : Reading) (frames : List Frame) : Prop :=
  ∀ token, token ≠ .closeList → p.step? token = begin? frames token

theorem awaits_value (frames : List Frame) : (Reading.value frames).Awaits frames := fun _ _ => rfl

theorem awaits_firstItem (frames : List Frame) :
    (Reading.firstItem frames).Awaits (.list [] :: frames) := by
  intro token htoken
  cases token with
  | closeList => exact absurd rfl htoken
  | _ => rfl

end Json

/-! ## Data -/

namespace Datum

open Json

/-- What the text of a number is read as. -/
def retoldNumber {f : Format} (layout : Layout) (x : Binary f) : Datum :=
  match x.numeral? layout with
  | some n => n.toDatum
  | none => .null

mutual

/-- **What the text of a datum is read as.** -/
def retold : Datum → Datum
  | .integer i => .ofSigned i
  | .single x => retoldNumber .single x
  | .double x => retoldNumber .double x
  | .list items => .list (retoldItems items)
  | .record members => .record (retoldMembers members)
  | d => d

/-- What the items of a list are read as. -/
def retoldItems : List Datum → List Datum
  | [] => []
  | item :: rest => retold item :: retoldItems rest

/-- What the members of a record are read as. -/
def retoldMembers : List (Datum × Datum) → List (Datum × Datum)
  | [] => []
  | (key, value) :: rest => (retold key, retold value) :: retoldMembers rest

end

theorem retoldItems_eq_map (items : List Datum) : retoldItems items = items.map retold := by
  induction items with
  | nil => rfl
  | cons item rest ih => rw [retoldItems, ih, List.map_cons]

theorem retoldMembers_eq_map (members : List (Datum × Datum)) :
    retoldMembers members = members.map fun m => (m.1.retold, m.2.retold) := by
  induction members with
  | nil => rfl
  | cons m rest ih => rw [retoldMembers, ih, List.map_cons]

/-- **Data that text can carry**, nested at most so deep: keys are texts, and
byte strings and what is invalid are left out. -/
inductive Printable : Nat → Datum → Prop
  | null {levels : Nat} : Printable levels .null
  | bool {levels : Nat} (b : Bool) : Printable levels (.bool b)
  | natural {levels : Nat} (n : UInt64) : Printable levels (.natural n)
  | integer {levels : Nat} (i : Int64) : Printable levels (.integer i)
  | single {levels : Nat} (x : Binary32) : Printable levels (.single x)
  | double {levels : Nat} (x : Binary64) : Printable levels (.double x)
  | text {levels : Nat} (s : String) : Printable levels (.text s)
  | list {levels : Nat} {items : List Datum} :
      (∀ d ∈ items, Printable levels d) → Printable (levels + 1) (.list items)
  | record {levels : Nat} {members : List (String × Datum)} :
      (∀ m ∈ members, Printable levels m.2) → Printable (levels + 1) (.named members)

/-! ### Numbers -/

theorem run_null (p : Reading) (rest : List Char) :
    run p ("null".toList ++ rest) = (p.step? (.scalar .null)).bind fun p => run p rest :=
  run_token p rfl rfl

theorem run_natural (p : Reading) (n : UInt64) {rest : List Char} (hrest : Numeral.Ends rest) :
    run p ((Text.decimal n.toNat).toList ++ rest) =
      (p.step? (.scalar (.natural n))).bind fun p => run p rest := by
  have h := run_numeral p (Numeral.wellFormed_integer Numeral.isSign_none n.toNat)
    (Numeral.isStrict_integer (.inl rfl) _) hrest
  rw [Numeral.write_integer, Numeral.toDatum_natural] at h
  exact h

theorem run_integer (p : Reading) (i : Int64) {rest : List Char} (hrest : Numeral.Ends rest) :
    run p ((Text.signedDecimal i.toInt).toList ++ rest) =
      (p.step? (.scalar (.ofSigned i))).bind fun p => run p rest := by
  unfold Text.signedDecimal ofSigned
  by_cases hneg : i.toInt < 0
  · have h := run_numeral p
      (Numeral.wellFormed_integer (fun c hc => .inr (Option.some.inj hc).symm) _)
      (Numeral.isStrict_integer (.inr rfl) i.toInt.natAbs) hrest
    rw [Numeral.write_integer, Numeral.toDatum_negative hneg] at h
    rw [if_pos hneg, if_neg (by omega), String.toList_append]
    exact h
  · have hnat : (UInt64.ofNat i.toInt.toNat).toNat = i.toInt.natAbs := by
      have hlt := i.toInt_lt
      rw [UInt64.toNat_ofNat_of_lt' (Nat.lt_trans (by omega) (by decide : 2 ^ 63 < UInt64.size))]
      omega
    rw [if_neg hneg, if_pos (by omega), ← hnat]
    exact run_natural p _ hrest

/-- A number read: as its numeral, or as null if it has none. -/
theorem run_number {f : Format} (p : Reading) (layout : Layout) (x : Binary f) {rest : List Char}
    (hrest : Numeral.Ends rest) :
    run p (((layout.number? x).getD "null").toList ++ rest) =
      (p.step? (.scalar (retoldNumber layout x))).bind fun p => run p rest := by
  unfold retoldNumber
  rw [Binary.number?_eq]
  cases hn : x.numeral? layout with
  | none => exact run_null p rest
  | some n =>
    obtain ⟨hwell, hstrict, -⟩ := Binary.numeral?_spec hn
    show run p ((String.ofList n.write).toList ++ rest) = _
    rw [String.toList_ofList]
    exact run_numeral p hwell hstrict hrest

/-! ### Lists and records -/

/-- What is joined by commas: the first text, and the others with a comma in
front of each. -/
theorem toList_intercalate (s : String) (others : List String) :
    (",".intercalate (s :: others)).toList =
      s.toList ++ others.flatMap fun t => ',' :: t.toList := by
  induction others generalizing s with
  | nil => exact (List.append_nil _).symm
  | cons t others ih =>
    rw [String.intercalate_cons_of_ne_nil (List.cons_ne_nil _ _), String.toList_append,
      String.toList_append, ih, List.append_assoc]
    rfl

theorem ends_nil : Numeral.Ends [] := ⟨fun _ hc => (nomatch hc), fun _ hc => (nomatch hc)⟩

theorem ends_cons {c : Char} (hc : c ∈ [',', ']', '\x7d']) (rest : List Char) :
    Numeral.Ends (c :: rest) := by
  have hall : (Text.decimalValue? c = none ∧ c ≠ '+' ∧ c ≠ '-') ∧
      c ≠ '.' ∧ c ≠ 'e' ∧ c ≠ 'E' := by
    simp only [List.mem_cons, List.not_mem_nil, or_false] at hc
    rcases hc with rfl | rfl | rfl <;> decide
  refine ⟨fun c' hc' => ?_, fun c' hc' => ?_⟩
  · cases Option.some.inj hc'
    exact hall.1
  · cases Option.some.inj hc'
    exact hall.2

/-- A number in front of separated texts ends where it should. -/
theorem ends_separated {α : Type} (l : List α) (text : α → List Char) {c : Char}
    (hc : c ∈ [',', ']', '\x7d']) (rest : List Char) :
    Numeral.Ends ((l.flatMap fun a => ',' :: text a) ++ c :: rest) := by
  cases l with
  | nil => exact ends_cons hc rest
  | cons a l => exact ends_cons (by decide) _

/-- A list or record that is not too deep is closed as it is. -/
theorem closed_eq {frames : List Json.Frame} (d : Datum)
    (hdepth : frames.length < nestingLimit) : Reading.closed d frames = .after d frames := by
  have hnone : frames.drop (nestingLimit - 1) = [] :=
    List.drop_eq_nil_of_le (Nat.le_sub_one_of_lt hdepth)
  unfold Reading.closed
  rw [hnone]
  rfl

/-- **A datum is read as retold** wherever a value is awaited, with so many
levels to spare. -/
def Told (levels : Nat) (d : Datum) : Prop :=
  ∀ (p : Reading) (frames : List Json.Frame) (rest : List Char), p.Awaits frames →
    Numeral.Ends rest → frames.length + levels ≤ nestingLimit →
    run p (d.render.toList ++ rest) = run (.after d.retold frames) rest

variable {levels : Nat} {frames : List Json.Frame} {rest : List Char}

/-- The items of a list after the first, up to its end. -/
theorem run_items {items : List Datum} (h : ∀ d ∈ items, Told levels d)
    (hdepth : frames.length + (levels + 1) ≤ nestingLimit) (before : List Datum) (x : Datum) :
    run (.after x (.list before :: frames))
        ((items.flatMap fun d => ',' :: d.render.toList) ++ ']' :: rest) =
      run (.after (.list ((x :: before).reverse ++ items.map retold)) frames) rest := by
  induction items generalizing before x with
  | nil =>
    rw [List.flatMap_nil, List.nil_append, run_punctuation _ rfl rfl, List.map_nil,
      List.append_nil]
    show run (Reading.closed _ frames) rest = _
    rw [closed_eq _ (by omega)]
  | cons d items ih =>
    have hnext : Numeral.Ends ((items.flatMap fun d => ',' :: d.render.toList) ++ ']' :: rest) :=
      ends_separated _ _ (by decide) _
    have hinside : (Json.Frame.list (x :: before) :: frames).length + levels ≤ nestingLimit := by
      rw [List.length_cons]
      omega
    rw [List.flatMap_cons, List.cons_append, List.cons_append, List.append_assoc,
      run_punctuation _ rfl rfl]
    show run (.value (.list (x :: before) :: frames)) _ = _
    rw [h d List.mem_cons_self _ _ _ (awaits_value _) hnext hinside,
      ih fun d hd => h d (List.mem_cons_of_mem _ hd)]
    simp only [List.reverse_cons, List.map_cons, List.append_assoc, List.cons_append,
      List.nil_append]

/-- The text of a record's member. -/
def memberText (m : String × Datum) : List Char :=
  (renderString m.1).toList ++ ':' :: m.2.render.toList

/-- A member read where a key is awaited. -/
theorem run_member {q : Reading} {m : String × Datum} (h : Told levels m.2)
    {before : List (Datum × Datum)}
    (hkey : q.step? (.string (.text m.1)) = some (.colon before (.text m.1) frames))
    (hrest : Numeral.Ends rest) (hdepth : frames.length + (levels + 1) ≤ nestingLimit) :
    run q (memberText m ++ rest) =
      run (.after m.2.retold (.record before (.text m.1) :: frames)) rest := by
  have hinside : (Json.Frame.record before (.text m.1) :: frames).length + levels ≤
      nestingLimit := by
    rw [List.length_cons]
    omega
  unfold memberText
  rw [List.append_assoc, run_string, hkey, Option.bind_some, List.cons_append,
    run_punctuation _ rfl rfl]
  show run (.value (.record before (.text m.1) :: frames)) _ = _
  exact h _ _ _ (awaits_value _) hrest hinside

/-- The members of a record after the first, up to its end. -/
theorem run_members {members : List (String × Datum)} (h : ∀ m ∈ members, Told levels m.2)
    (hdepth : frames.length + (levels + 1) ≤ nestingLimit) (before : List (Datum × Datum))
    (name x : Datum) :
    run (.after x (.record before name :: frames))
        ((members.flatMap fun m => ',' :: memberText m) ++ '\x7d' :: rest) =
      run (.after (.record (((name, x) :: before).reverse ++
        members.map fun m => (.text m.1, m.2.retold))) frames) rest := by
  induction members generalizing before name x with
  | nil =>
    rw [List.flatMap_nil, List.nil_append, run_punctuation _ rfl rfl, List.map_nil,
      List.append_nil]
    show run (Reading.closed _ frames) rest = _
    rw [closed_eq _ (by omega)]
  | cons m members ih =>
    have hnext : Numeral.Ends
        ((members.flatMap fun m => ',' :: memberText m) ++ '\x7d' :: rest) :=
      ends_separated _ _ (by decide) _
    rw [List.flatMap_cons, List.cons_append, List.cons_append, List.append_assoc,
      run_punctuation _ rfl rfl]
    show run (.key ((name, x) :: before) frames) _ = _
    rw [run_member (h m List.mem_cons_self) rfl hnext hdepth,
      ih fun m hm => h m (List.mem_cons_of_mem _ hm)]
    simp only [List.reverse_cons, List.map_cons, List.append_assoc, List.cons_append,
      List.nil_append]

theorem renderItems_eq_map (items : List Datum) : renderItems items = items.map render := by
  induction items with
  | nil => rfl
  | cons item rest ih => rw [renderItems, ih, List.map_cons]

theorem renderMembers_named (members : List (String × Datum)) :
    renderMembers (members.map fun m => (.text m.1, m.2)) =
      members.map fun m => String.ofList (memberText m) := by
  induction members with
  | nil => rfl
  | cons m rest ih =>
    have hmember : (render (.text m.1) ++ ":" ++ render m.2).toList = memberText m := by
      unfold memberText
      rw [render, String.toList_append, String.toList_append, List.append_assoc]
      rfl
    rw [List.map_cons, renderMembers, ih, List.map_cons, ← hmember, String.ofList_toList]

/-- **A list is read** item by item. -/
theorem Told.list {items : List Datum} (h : ∀ d ∈ items, Told levels d) :
    Told (levels + 1) (.list items) := by
  intro p frames rest hp hrest hdepth
  have hopen : p.step? .openList = some (.firstItem frames) := hp _ Token.noConfusion
  have htext : (Datum.list items).render.toList =
      '[' :: ((",".intercalate (items.map render)).toList ++ [']']) := by
    rw [render, renderItems_eq_map, String.toList_append, String.toList_append, List.append_assoc]
    rfl
  rw [htext, List.cons_append, run_punctuation p rfl rfl, hopen, Option.bind_some,
    List.append_assoc, List.singleton_append, retold, retoldItems_eq_map]
  cases items with
  | nil =>
    show run (.firstItem frames) (']' :: rest) = _
    rw [run_punctuation _ rfl rfl]
    show run (Reading.closed _ frames) rest = _
    rw [closed_eq _ (by omega)]
    rfl
  | cons d items =>
    have hnext : Numeral.Ends ((items.flatMap fun d => ',' :: d.render.toList) ++ ']' :: rest) :=
      ends_separated _ _ (by decide) _
    have hinside : (Json.Frame.list [] :: frames).length + levels ≤ nestingLimit := by
      rw [List.length_cons]
      omega
    rw [List.map_cons, toList_intercalate, List.flatMap_map, List.append_assoc,
      h d List.mem_cons_self _ _ _ (awaits_firstItem frames) hnext hinside,
      run_items (fun d hd => h d (List.mem_cons_of_mem _ hd)) hdepth]
    rfl

/-- **A record is read** member by member. -/
theorem Told.named {members : List (String × Datum)} (h : ∀ m ∈ members, Told levels m.2) :
    Told (levels + 1) (.named members) := by
  intro p frames rest hp hrest hdepth
  have hopen : p.step? .openRecord = some (.firstKey frames) := hp _ Token.noConfusion
  have htext : (Datum.named members).render.toList =
      '\x7b' :: ((",".intercalate (members.map fun m => String.ofList (memberText m))).toList ++
        ['\x7d']) := by
    rw [Datum.named, render, renderMembers_named, String.toList_append, String.toList_append,
      List.append_assoc]
    rfl
  have hretold : (Datum.named members).retold =
      .record (members.map fun m => (.text m.1, m.2.retold)) := by
    rw [Datum.named, retold, retoldMembers_eq_map, List.map_map]
    rfl
  rw [htext, List.cons_append, run_punctuation p rfl rfl, hopen, Option.bind_some,
    List.append_assoc, List.singleton_append, hretold]
  cases members with
  | nil =>
    show run (.firstKey frames) ('\x7d' :: rest) = _
    rw [run_punctuation _ rfl rfl]
    show run (Reading.closed _ frames) rest = _
    rw [closed_eq _ (by omega)]
    rfl
  | cons m members =>
    have hnext : Numeral.Ends
        ((members.flatMap fun m => ',' :: memberText m) ++ '\x7d' :: rest) :=
      ends_separated _ _ (by decide) _
    rw [List.map_cons, toList_intercalate, List.flatMap_map, String.toList_ofList,
      List.append_assoc]
    simp only [String.toList_ofList]
    rw [run_member (h m List.mem_cons_self) rfl hnext hdepth,
      run_members (fun m hm => h m (List.mem_cons_of_mem _ hm)) hdepth]
    rfl

/-- A datum that is one token is read at once. -/
theorem Told.of_token {d : Datum} (token : Token) (htoken : token ≠ .closeList)
    (hbegin : ∀ frames, Reading.begin? frames token = some (.after d.retold frames))
    (h : ∀ p rest, Numeral.Ends rest →
      run p (d.render.toList ++ rest) = (p.step? token).bind fun p => run p rest) :
    Told levels d := by
  intro p frames rest hp hrest _
  rw [h p rest hrest, hp token htoken, hbegin]
  rfl

/-- **What is printed is read as retold**, by induction on the data. -/
theorem Printable.told {d : Datum} (h : Printable levels d) : Told levels d := by
  induction h with
  | null =>
    exact .of_token (.scalar .null) Token.noConfusion (fun _ => rfl) fun p rest _ =>
      run_null p rest
  | bool b =>
    refine .of_token (.scalar (.bool b)) Token.noConfusion (fun _ => rfl) fun p rest _ => ?_
    cases b with
    | true => exact run_token p rfl rfl
    | false => exact run_token p rfl rfl
  | natural n =>
    exact .of_token (.scalar (.natural n)) Token.noConfusion (fun _ => rfl)
      fun p _ hrest => run_natural p n hrest
  | integer i =>
    exact .of_token (.scalar (.ofSigned i)) Token.noConfusion (fun _ => rfl)
      fun p _ hrest => run_integer p i hrest
  | single x =>
    exact .of_token (.scalar (retoldNumber .single x)) Token.noConfusion (fun _ => rfl)
      fun p _ hrest => run_number p .single x hrest
  | double x =>
    exact .of_token (.scalar (retoldNumber .double x)) Token.noConfusion (fun _ => rfl)
      fun p _ hrest => run_number p .double x hrest
  | text s =>
    exact .of_token (.string (.text s)) Token.noConfusion (fun _ => rfl)
      fun p rest _ => run_string p s rest
  | list _ ih => exact .list ih
  | record _ ih => exact .named ih

/-- **A document read back**: its text spells the retold data. -/
theorem Printable.read?_render {d : Datum} (h : Printable nestingLimit d) :
    Json.read? d.render = some d.retold := by
  have hread := h.told (.value []) [] [] (awaits_value []) ends_nil (Nat.le_of_eq (Nat.zero_add _))
  rw [List.append_nil] at hread
  rw [read?_eq_run, hread, run_nil]

end Datum

end LiveLayout
