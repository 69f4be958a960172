import LiveLayout.Json.Printer
/-!
# Identifiers

A node is known by an identifier, a text that a design tool chooses. Which
identifiers were ever given out is kept apart from the tree
(`KnownIdentifiers`): a node that was refused is reported under its
identifier only if that was known before.
-/

namespace LiveLayout

/-- The identifier of a node. -/
abbrev Identifier := String

namespace Identifier

/-- The identifier of the root node every tree starts with. -/
def root : Identifier := "root"

/-- The identifier of a part of a node, such as `button_label`. -/
def suffixed (id : Identifier) (suffix : String) : Identifier :=
  id ++ "_" ++ suffix

/-- An identifier marked as one. -/
def marked (id : Identifier) : String :=
  "@" ++ id

end Identifier

/-- The identifiers given out so far. -/
structure KnownIdentifiers where
  ids : List Identifier

namespace KnownIdentifiers

/-- No identifier is known. -/
def empty : KnownIdentifiers := ⟨[]⟩

/-- The identifier was given out. -/
def contains (known : KnownIdentifiers) (id : Identifier) : Bool :=
  known.ids.contains id

/-- An identifier given out; once is enough. -/
def insert (known : KnownIdentifiers) (id : Identifier) : KnownIdentifiers :=
  if known.contains id then known else ⟨known.ids ++ [id]⟩

/-- The identifier, if it was given out. -/
def find? (known : KnownIdentifiers) (id : Identifier) : Option Identifier :=
  if known.contains id then some id else none

@[simp] theorem contains_insert (known : KnownIdentifiers) (id other : Identifier) :
    (known.insert id).contains other = (known.contains other || other == id) := by
  unfold insert
  split
  · rename_i h
    by_cases ho : other = id
    · subst ho
      simp [h]
    · simp [ho]
  · by_cases ho : other = id <;> simp [contains, ho]

end KnownIdentifiers

end LiveLayout
