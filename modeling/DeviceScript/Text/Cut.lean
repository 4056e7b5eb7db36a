/-
Cutting a piece out of a text.
-/

namespace DeviceScript
namespace Text

/-- The text without the leftmost occurrence of `piece`.  Without an occurrence, and
for an empty piece, nothing is removed. -/
def eraseFirst (piece : List Char) : List Char → List Char
  | [] => []
  | c :: s =>
    if piece.isPrefixOf (c :: s) then (c :: s).drop piece.length else c :: eraseFirst piece s

@[simp] theorem eraseFirst_empty (s : List Char) : eraseFirst [] s = s := by
  cases s <;> simp [eraseFirst]

/-- A piece in front is the one that goes. -/
theorem eraseFirst_append (piece s : List Char) : eraseFirst piece (piece ++ s) = s := by
  cases piece with
  | nil => simp
  | cons c piece => simp [eraseFirst]

end Text
end DeviceScript
