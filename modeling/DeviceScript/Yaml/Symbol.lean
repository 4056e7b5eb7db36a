/-
The symbols of YAML documents, and where they stand.
-/
import DeviceScript.Yaml.Character

namespace DeviceScript
namespace Yaml

/-- How a scalar is written. -/
inductive Style where
  | plain
  | quoted
  | literal
  | folded
deriving DecidableEq

inductive Symbol where
  /-- The start of a block sequence, before its first dash. -/
  | blockSequence
  /-- The start of a block mapping, before its first key. -/
  | blockMapping
  /-- The end of a block collection. -/
  | blockEnd
  /-- The dash before an element of a block sequence. -/
  | entry
  /-- What a key starts with, be it written or not. -/
  | key
  /-- The colon between a key and its value. -/
  | value
  | openBracket
  | closeBracket
  | openBrace
  | closeBrace
  | comma
  /-- Stands for the node with the anchor of its number. -/
  | alias (number : Nat)
  | anchor (number : Nat)
  /-- A tag that is written with a handle. -/
  | tag (handle suffix : String)
  | scalar (style : Style) (text : String)
  | version (major minor : Nat)
  /-- What a handle stands for in the tags of a document. -/
  | handle (name meaning : String)
  | documentStart
  | documentEnd
deriving DecidableEq

structure Position where
  line : Nat
  column : Nat

/-- The position behind some characters. -/
def Position.advance (p : Position) (s : List Char) : Position :=
  s.foldl (fun q c => if isBreak c then ⟨q.line + 1, 0⟩ else ⟨q.line, q.column + 1⟩) p

end Yaml
end DeviceScript
