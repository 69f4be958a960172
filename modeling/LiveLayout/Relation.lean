import LiveLayout.Symbol
/-!
# Relations

How the first anchor of a constraint stands to the second.
-/

namespace LiveLayout

/-- At most, equal, or at least. -/
inductive Relation where
  | lessThanOrEqual
  | equal
  | greaterThanOrEqual
deriving DecidableEq

namespace Relation

/-- The sign a relation is written with. -/
def sign : Relation → String
  | lessThanOrEqual => "<"
  | equal => "="
  | greaterThanOrEqual => ">"

/-- The code of a relation. -/
def code : Relation → Int
  | lessThanOrEqual => -1
  | equal => 0
  | greaterThanOrEqual => 1

/-- The relation with a sign. -/
def ofSign? (sign : String) : Option Relation :=
  if sign = "<" then some lessThanOrEqual
  else if sign = "=" then some equal
  else if sign = ">" then some greaterThanOrEqual
  else none

/-- The relation with a code. -/
def ofCode? (code : Int) : Option Relation :=
  if code = -1 then some lessThanOrEqual
  else if code = 0 then some equal
  else if code = 1 then some greaterThanOrEqual
  else none

/-- The relation a symbol names. -/
def ofSymbol? : Symbol → Option Relation
  | .name sign => ofSign? sign
  | .code code => ofCode? code.toInt

@[simp] theorem ofSign?_sign (r : Relation) : ofSign? r.sign = some r := by cases r <;> decide

@[simp] theorem ofCode?_code (r : Relation) : ofCode? r.code = some r := by cases r <;> rfl

end Relation

end LiveLayout
