import LiveLayout.Binary.Format
/-!
# Frames

The rectangle of a node in its parent, with its four fields by name.
-/

namespace LiveLayout

/-- A rectangle: a corner and a size. -/
structure Frame where
  x : Binary64
  y : Binary64
  width : Binary64
  height : Binary64
deriving DecidableEq

namespace Frame

/-- The empty rectangle in the corner. -/
def zero : Frame := ⟨.zero, .zero, .zero, .zero⟩

/-- A field by its name. -/
def get? (frame : Frame) (field : String) : Option Binary64 :=
  if field = "x" then some frame.x
  else if field = "y" then some frame.y
  else if field = "width" then some frame.width
  else if field = "height" then some frame.height
  else none

/-- The frame with a field set, or none if there is no such field. -/
def set? (frame : Frame) (field : String) (value : Binary64) : Option Frame :=
  if field = "x" then some { frame with x := value }
  else if field = "y" then some { frame with y := value }
  else if field = "width" then some { frame with width := value }
  else if field = "height" then some { frame with height := value }
  else none

/-- Setting a field changes that field alone. -/
theorem get?_set? {frame changed : Frame} {field other : String} {value : Binary64}
    (h : frame.set? field value = some changed) :
    changed.get? other = if other = field then some value else frame.get? other := by
  unfold set? at h
  split at h
  · rename_i hf
    subst hf
    obtain rfl := Option.some.inj h
    by_cases ho : other = "x" <;> simp [get?, ho]
  · split at h
    · rename_i hf
      subst hf
      obtain rfl := Option.some.inj h
      by_cases ho : other = "y" <;> simp [get?, ho]
    · split at h
      · rename_i hf
        subst hf
        obtain rfl := Option.some.inj h
        by_cases ho : other = "width" <;> simp [get?, ho]
      · split at h
        · rename_i hf
          subst hf
          obtain rfl := Option.some.inj h
          by_cases ho : other = "height" <;> simp [get?, ho]
        · cases h

/-- A field can be set exactly if it can be read. -/
theorem isSome_set? (frame : Frame) (field : String) (value : Binary64) :
    (frame.set? field value).isSome = (frame.get? field).isSome := by
  unfold set? get?
  split
  · rfl
  · split
    · rfl
    · split
      · rfl
      · split <;> rfl

end Frame

end LiveLayout
