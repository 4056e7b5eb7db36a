/-
The characters of YAML documents.

A document is read with every line break as one character.  A line feed, a carriage
return with or without a line feed behind it, and the next-line control all count as
a line feed; the line separator and the paragraph separator stand for themselves.
-/

namespace DeviceScript
namespace Yaml

/-- The characters that a document may hold. -/
def isPrintable (c : Char) : Bool :=
  let n := c.toNat
  n == 0x09 || n == 0x0A || n == 0x0D || (0x20 ≤ n && n ≤ 0x7E) || n == 0x85 ||
    (0xA0 ≤ n && n ≤ 0xFFFD) || 0x10000 ≤ n

/-- A text with each of its line breaks as one character. -/
def unifyBreaks : List Char → List Char
  | [] => []
  | '\r' :: '\n' :: rest => '\n' :: unifyBreaks rest
  | c :: rest => (if c = '\r' || c = '\u0085' then '\n' else c) :: unifyBreaks rest

/-- The line breaks of a unified text. -/
def isBreak (c : Char) : Bool := c == '\n' || c == '\u2028' || c == '\u2029'

def byteOrderMark : Char := '\ufeff'

def isSpace (c : Char) : Bool := c == ' ' || c == '\t'

/-- What stands between two words: blanks and line breaks. -/
def isGap (c : Char) : Bool := isSpace c || isBreak c

/-- The characters of names. -/
def isWord (c : Char) : Bool := c.isAlphanum || c == '_' || c == '-'

/-- The characters that divide a flow collection. -/
def isFlowMark (c : Char) : Bool := [',', '[', ']', '\x7b', '\x7d'].contains c

/-- Whether a text starts with a blank or a line break, or is at its end. -/
def atGap : List Char → Bool
  | [] => true
  | c :: _ => isGap c

/-- Whether a text starts with a given character. -/
def startsWith (c : Char) (s : List Char) : Bool := s.head? == some c

/-- Whether a text starts with a character three times and then a gap. -/
def startsTriple (c : Char) (s : List Char) : Bool :=
  s.take 3 == [c, c, c] && atGap (s.drop 3)

/-- Whether the start of a line divides documents. -/
def dividesDocuments (line : List Char) : Bool := startsTriple '-' line || startsTriple '.' line

/-- The characters from a comment to the end of its line. -/
def commentLength (s : List Char) : Nat :=
  if startsWith '#' s then (s.takeWhile fun c => !isBreak c).length else 0

/-- The rest of a line with its break, if it holds only blanks and a comment. -/
def lineEnd? (s : List Char) : Option Nat :=
  let blanks := (s.takeWhile isSpace).length
  let comment := commentLength (s.drop blanks)
  match s.drop (blanks + comment) with
  | [] => some (blanks + comment)
  | c :: _ => if isBreak c then some (blanks + comment + 1) else none

/-- The value of a digit in a base up to sixteen. -/
def digitValue? (base : Nat) (c : Char) : Option Nat :=
  let n := c.toNat
  let value :=
    if 48 ≤ n ∧ n ≤ 57 then n - 48
    else if 97 ≤ n ∧ n ≤ 102 then n - 87
    else if 65 ≤ n ∧ n ≤ 70 then n - 55
    else 16
  if value < base then some value else none

/-- The value of a digit string that is not empty. -/
def digits? (base : Nat) (s : List Char) : Option Nat :=
  if s = [] then none
  else s.foldlM (fun n c => (digitValue? base c).map fun d => base * n + d) 0

end Yaml
end DeviceScript
