import LiveLayout.Json.Token
import LiveLayout.Json.Value
/-!
# Reading JSON text

A text is read into a datum token by token, with the lists and records that
are still open on a stack. Each token takes one position of the grammar to
the next (`Reading.step?`), so reading is a fold over the tokens, and a
text is refused where the fold has no step or ends before a value is whole.

Nesting is limited: a list or record inside 127 others is invalid. What a
decoder passes over may nest deeper.
-/

namespace LiveLayout

namespace Json

/-- A list or record that is still open, with what stands before the
present position, the latest first. -/
inductive Frame where
  | list (before : List Datum)
  | record (before : List (Datum × Datum)) (key : Datum)

/-- A position of the grammar, inside the frames that are open. -/
inductive Reading where
  | value (frames : List Frame)
  | firstItem (frames : List Frame)
  | firstKey (frames : List Frame)
  | key (before : List (Datum × Datum)) (frames : List Frame)
  | colon (before : List (Datum × Datum)) (key : Datum) (frames : List Frame)
  | after (d : Datum) (frames : List Frame)

/-- How many lists and records a value may be inside of. -/
def nestingLimit : Nat := 127

/-- The position behind a list or record that has just been closed. Only as
many frames are looked at as the limit allows. -/
def Reading.closed (d : Datum) (frames : List Frame) : Reading :=
  .after (if (frames.drop (nestingLimit - 1)).isEmpty then d else .invalid) frames

/-- The position behind the first token of a value. -/
def Reading.begin? (frames : List Frame) : Token → Option Reading
  | .openList => some (.firstItem frames)
  | .openRecord => some (.firstKey frames)
  | .string d => some (.after d frames)
  | .scalar d => some (.after d frames)
  | _ => none

/-- **One token further.** -/
def Reading.step? : Reading → Token → Option Reading
  | value frames, token => begin? frames token
  | firstItem frames, .closeList => some (closed (.list []) frames)
  | firstItem frames, token => begin? (.list [] :: frames) token
  | firstKey frames, .closeRecord => some (closed (.record []) frames)
  | firstKey frames, .string d => some (.colon [] d frames)
  | key before frames, .string d => some (.colon before d frames)
  | colon before d frames, .colon => some (.value (.record before d :: frames))
  | after d (.list before :: frames), .comma => some (.value (.list (d :: before) :: frames))
  | after d (.list before :: frames), .closeList =>
    some (closed (.list (d :: before).reverse) frames)
  | after d (.record before name :: frames), .comma => some (.key ((name, d) :: before) frames)
  | after d (.record before name :: frames), .closeRecord =>
    some (closed (.record ((name, d) :: before).reverse) frames)
  | _, _ => none

/-- The datum that is whole at a position with nothing left open. -/
def Reading.whole? : Reading → Option Datum
  | after d [] => some d
  | _ => none

/-- **The datum a text spells.** -/
def read? (text : String) : Option Datum :=
  (tokens? text.toList).bind fun tokens =>
    (tokens.foldlM Reading.step? (.value [])).bind Reading.whole?

/-- The value a text spells, if no part of it is invalid. -/
def parse? (text : String) : Option Json :=
  (read? text).bind ofDatum?

end Json

end LiveLayout
