/-
Splitting the text of a token into pieces again.

The text of a `run` token holds its arguments, and they are found by splitting it.
How that is done is a parameter of the compiler, a function from texts to lists of
texts; two such functions are given here.
-/
import DeviceScript.Text.Blank

namespace DeviceScript

/-- A way to split a text into pieces. -/
abbrev Relexer := String → List String

namespace Lexeme

/-- Adds a piece to the front, unless it is empty. -/
def prepend (piece : List Char) (pieces : List (List Char)) : List (List Char) :=
  if piece = [] then pieces else piece :: pieces

/-- The words of a text, where `word` is the start of the first one and `quoted`
says whether a quotation is open.  Blanks inside a quotation do not separate, and
the quotes stay in the word. -/
def wordsFrom (quoted : Bool) (word : List Char) : List Char → List (List Char)
  | [] => prepend word []
  | c :: rest =>
    if c = '"' then wordsFrom (!quoted) (word ++ [c]) rest
    else if Text.isBlank c && !quoted then prepend word (wordsFrom quoted [] rest)
    else wordsFrom quoted (word ++ [c]) rest

/-- The words of a text between blanks, quotations kept whole. -/
def words : Relexer := fun s => (wordsFrom false [] s.toList).map String.ofList

/-- The fields of a text between commas, each trimmed; empty fields are kept. -/
def fields : Relexer := fun s =>
  (s.toList.splitOn ',').map fun field => String.ofList (Text.trim field)

end Lexeme
end DeviceScript
