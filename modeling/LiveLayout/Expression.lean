import LiveLayout.Decimal.Numeral
import LiveLayout.Text.Quoted
/-!
# Expressions

An expression gives one attribute or one frame field of a node its value:
a number, or a reference to a node with an optional field and an optional
offset.

* `$(target)` — the same field of the target
* `$(target).field` — another field of it
* `$(target) + 12`, `$(target).field - 3` — the same, moved

The reference form admits no other blanks and no leading zeros. A text that
is not of this form has to be a number.
-/

namespace LiveLayout

/-- The node a reference is to. -/
inductive Reference where
  /-- The node the expression is given for. -/
  | self
  /-- That node's parent. -/
  | superview
  /-- A node looked up by its identifier. -/
  | id (name : String)
deriving DecidableEq

/-- The reference a target stands for. -/
def Reference.ofTarget (target : String) : Reference :=
  if target = "self" then self
  else if target = "superview" then superview
  else id target

/-- A value for one attribute or frame field. -/
inductive Expression where
  | literal (value : Binary64)
  | relative (target : String) (field : Option String) (offset : Binary64)
deriving DecidableEq

/-- Why a text is no expression. -/
inductive ExpressionError where
  | notANumber (text : String)
deriving DecidableEq

/-- What is said about a text that is no expression. -/
def ExpressionError.message : ExpressionError → String
  | notANumber text => "expression " ++ Text.quote text ++ " is neither a reference nor a number"

namespace Expression

/-- The target of a relative expression; a literal has none. -/
def target? : Expression → Option String
  | literal _ => none
  | relative target _ _ => some target

/-- The node a relative expression refers to. -/
def reference? (e : Expression) : Option Reference :=
  e.target?.map Reference.ofTarget

/-- The field an expression names. -/
def field? : Expression → Option String
  | literal _ => none
  | relative _ field _ => field

/-- The field an expression names, or else the one it is given for. -/
def fieldOr (e : Expression) (own : String) : String :=
  e.field?.getD own

/-- The number of a literal, the offset of a relative expression. -/
def offset : Expression → Binary64
  | literal value => value
  | relative _ _ offset => offset

/-! ## The reference form -/

/-- An ASCII letter. -/
def isLetter (c : Char) : Bool := ('a' ≤ c && c ≤ 'z') || ('A' ≤ c && c ≤ 'Z')

/-- A character of a target: a letter, a digit, or one of `+`, `/`, `=`. -/
def isTargetChar (c : Char) : Bool :=
  isLetter c || ('0' ≤ c && c ≤ '9') || c == '+' || c == '/' || c == '='

/-- These are the letters of ASCII. -/
theorem isLetter_iff {c : Char} : isLetter c = true ↔ c.isAlpha = true := by
  have hupper : c.isUpper = decide ('A' ≤ c ∧ c ≤ 'Z') := rfl
  have hlower : c.isLower = (decide ('a' ≤ c) && decide (c ≤ 'z')) := rfl
  have halpha : c.isAlpha = (c.isUpper || c.isLower) := rfl
  simp only [isLetter, halpha, hupper, hlower, Bool.or_eq_true, Bool.and_eq_true,
    decide_eq_true_eq]
  exact or_comm

/-- **The alphabet of targets** is that of base 64, with its padding. -/
theorem isTargetChar_iff {c : Char} :
    isTargetChar c = true ↔ c.isAlphanum = true ∨ c ∈ ['+', '/', '='] := by
  have hdigit : c.isDigit = (decide ('0' ≤ c) && decide (c ≤ '9')) := rfl
  have halphanum : c.isAlphanum = (c.isAlpha || c.isDigit) := rfl
  simp only [isTargetChar, halphanum, hdigit, Bool.or_eq_true, isLetter_iff, beq_iff_eq,
    List.mem_cons, List.not_mem_nil, or_false, or_assoc]

/-- The target between `$(` and `)`, and the rest behind it. -/
def scanTarget : List Char → Option (List Char × List Char)
  | '$' :: '(' :: cs =>
    match cs.takeWhile isTargetChar, cs.dropWhile isTargetChar with
    | c :: target, ')' :: rest => some (c :: target, rest)
    | _, _ => none
  | _ => none

/-- The field behind a point, if a text starts with one, and the rest. -/
def scanField : List Char → Option (List Char) × List Char
  | '.' :: cs =>
    match cs.takeWhile isLetter with
    | [] => (none, '.' :: cs)
    | c :: name => (some (c :: name), cs.dropWhile isLetter)
  | cs => (none, cs)

/-- The number nearest to a run of digits, with a sign. -/
def signedOffset (negative : Bool) (digits : List Nat) : Binary64 :=
  (Decimal.mk (Text.ofDigits 10 digits) 0).toBinary negative

/-- **The offset**, which takes up the whole rest of the text: a blank, a
sign, a blank and digits that do not start with zero. No rest is no
offset. -/
def readOffset? : List Char → Option (Option Binary64)
  | [] => some none
  | ' ' :: sign :: ' ' :: cs =>
    if sign = '+' ∨ sign = '-' then
      match Numeral.scanDigits cs with
      | (d :: digits, []) =>
        if d = 0 then none else some (some (signedOffset (sign = '-') (d :: digits)))
      | _ => none
    else none
  | _ => none

/-- The relative expression a text is, if it is of that form. -/
def readRelative? (cs : List Char) : Option Expression :=
  match scanTarget cs with
  | none => none
  | some (target, cs) =>
    let (field, cs) := scanField cs
    (readOffset? cs).map fun offset =>
      .relative (String.ofList target) (field.map String.ofList) (offset.getD .zero)

/-- A number, or why a text is none. -/
def parseNumber (text : String) : Except ExpressionError Binary64 :=
  match readNumber? text with
  | some x => .ok x
  | none => .error (.notANumber text)

/-- **The expression a text is.** What is not of the reference form is read
as a number. -/
def parse (text : String) : Except ExpressionError Expression :=
  match readRelative? text.toList with
  | some e => .ok e
  | none => (parseNumber text).map .literal

end Expression

end LiveLayout
