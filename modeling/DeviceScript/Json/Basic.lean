/-
JSON documents.

A document is a tree.  Fields of an object are a list, in the order and with the
repetitions of the text.  Between the tree and the text stand the symbols of the
text, and `symbols` writes a tree as symbols.
-/
import DeviceScript.Json.Glyph
import DeviceScript.Json.Number

namespace DeviceScript

inductive Json where
  | null
  | bool (value : Bool)
  | number (value : Json.Number)
  | string (value : List Json.Glyph)
  | array (elements : List Json)
  | object (fields : List (List Json.Glyph × Json))

namespace Json

/-- The symbols of the text of a document. -/
inductive Symbol where
  | openBrace
  | closeBrace
  | openBracket
  | closeBracket
  | colon
  | comma
  | null
  | bool (value : Bool)
  | number (value : Number)
  | string (value : List Glyph)
deriving DecidableEq

mutual

def symbols : Json → List Symbol
  | .null => [.null]
  | .bool b => [.bool b]
  | .number n => [.number n]
  | .string s => [.string s]
  | .array l => .openBracket :: elementSymbols l
  | .object l => .openBrace :: fieldSymbols l

/-- The elements of an array and its end. -/
def elementSymbols : List Json → List Symbol
  | [] => [.closeBracket]
  | j :: rest => j.symbols ++ moreElements rest

/-- The elements after the first, each behind a comma. -/
def moreElements : List Json → List Symbol
  | [] => [.closeBracket]
  | j :: rest => .comma :: (j.symbols ++ moreElements rest)

/-- The fields of an object and its end. -/
def fieldSymbols : List (List Glyph × Json) → List Symbol
  | [] => [.closeBrace]
  | (k, j) :: rest => .string k :: .colon :: (j.symbols ++ moreFields rest)

/-- The fields after the first, each behind a comma. -/
def moreFields : List (List Glyph × Json) → List Symbol
  | [] => [.closeBrace]
  | (k, j) :: rest => .comma :: .string k :: .colon :: (j.symbols ++ moreFields rest)

end

namespace Symbol

def chars : Symbol → List Char
  | .openBrace => ['\x7b']
  | .closeBrace => ['\x7d']
  | .openBracket => ['[']
  | .closeBracket => [']']
  | .colon => [':']
  | .comma => [',']
  | .null => ['n', 'u', 'l', 'l']
  | .bool true => ['t', 'r', 'u', 'e']
  | .bool false => ['f', 'a', 'l', 's', 'e']
  | .number n => n.chars
  | .string s => '"' :: (s.flatMap Glyph.chars ++ ['"'])

end Symbol

/-- The text of a document, without blanks. -/
def chars (j : Json) : List Char := j.symbols.flatMap Symbol.chars

def text (j : Json) : String := String.ofList j.chars

end Json
end DeviceScript
