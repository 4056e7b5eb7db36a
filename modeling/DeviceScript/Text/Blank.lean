/-
Blank characters, and trimming.

A character is blank if Unicode gives it the property White_Space.  That is wider
than the spaces and line ends of plain text, and narrower than what looks empty:
the zero-width characters are not blank.
-/

namespace DeviceScript
namespace Text

/-- The characters with the property White_Space. -/
def isBlank (c : Char) : Bool :=
  let n := c.toNat
  (0x09 ≤ n && n ≤ 0x0D) || n == 0x20 || n == 0x85 || n == 0xA0 || n == 0x1680 ||
    (0x2000 ≤ n && n ≤ 0x200A) || n == 0x2028 || n == 0x2029 || n == 0x202F || n == 0x205F ||
    n == 0x3000

/-- Every blank that core knows is blank here. -/
theorem isBlank_of_isWhitespace {c : Char} (h : c.isWhitespace = true) : isBlank c = true := by
  simp only [Char.isWhitespace, Bool.or_eq_true, decide_eq_true_eq] at h
  rcases h with ((h | h) | h) | h <;> subst h <;> rfl

/-- The text without the blanks at its two ends. -/
def trim (s : List Char) : List Char :=
  ((s.dropWhile isBlank).reverse.dropWhile isBlank).reverse

/-- A text that neither starts nor ends with a blank is its own trimming. -/
theorem trim_eq_self {s : List Char} (hh : ∀ c, s.head? = some c → isBlank c = false)
    (hl : ∀ c, s.getLast? = some c → isBlank c = false) : trim s = s := by
  have keep : ∀ (l : List Char), (∀ c, l.head? = some c → isBlank c = false) →
      l.dropWhile isBlank = l := by
    intro l hl
    cases l with
    | nil => rfl
    | cons c r => simp [hl c rfl]
  unfold trim
  rw [keep s hh, keep s.reverse (by simpa using hl), List.reverse_reverse]

end Text
end DeviceScript
