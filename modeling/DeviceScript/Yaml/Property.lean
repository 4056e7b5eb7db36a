/-
Names of anchors, tags and directives of YAML documents.

Each reader starts behind the character that announces the thing, and says how many
characters it takes.
-/
import DeviceScript.Yaml.Symbol

namespace DeviceScript
namespace Yaml

/-- The name of an anchor or of an alias. -/
def anchorName? (s : List Char) : Option (String × Nat) :=
  let name := s.takeWhile isWord
  let rest := s.drop name.length
  if !name.isEmpty &&
      (atGap rest || rest.head?.any fun c => ['?', ':', ',', ']', '\x7d', '%', '@', '\x60'].contains c) then
    some (String.ofList name, name.length)
  else none

/-! ## Tags -/

/-- The characters of a tag that stand for themselves.  Those that divide flow
collections are among them only if the tag has an end of its own. -/
def isTagCharacter (enclosed : Bool) (c : Char) : Bool :=
  isWord c ||
    [';', '/', '?', ':', '@', '&', '=', '+', '$', '.', '!', '~', '*', '\x27', '(', ')'].contains c ||
    (enclosed && [',', '[', ']'].contains c)

/-- How many octets follow the first one of a character in UTF-8. -/
def octetsBehind? (first : Nat) : Option Nat :=
  if first < 0x80 then some 0
  else if first < 0xC0 then none
  else if first < 0xE0 then some 1
  else if first < 0xF0 then some 2
  else if first < 0xF8 then some 3
  else none

/-- The characters of a tag, and how many they take.  A percent sign with two digits
is an octet, and `pending` octets are missing from the last character. -/
def tagText? (enclosed : Bool) (pending : Nat) : List Char → Option (List Char × Nat)
  | '%' :: a :: b :: rest => do
    let octet ← digits? 16 [a, b]
    let missing ←
      if pending = 0 then octetsBehind? octet
      else if 0x80 ≤ octet && octet < 0xC0 then some (pending - 1)
      else none
    let (text, n) ← tagText? enclosed missing rest
    return (Char.ofNat octet :: text, n + 3)
  | c :: rest =>
    if c = '%' || 0 < pending then none
    else if isTagCharacter enclosed c then do
      let (text, n) ← tagText? enclosed 0 rest
      return (c :: text, n + 1)
    else some ([], 0)
  | [] => if pending = 0 then some ([], 0) else none

/-- The characters of a tag, of which there has to be one. -/
def tagTextSome? (enclosed : Bool) (s : List Char) : Option (List Char × Nat) := do
  let (text, n) ← tagText? enclosed 0 s
  if n = 0 then none else return (text, n)

/-- The tag behind an exclamation mark: one between angle brackets, one with a handle
that ends with a second exclamation mark, or one with the exclamation mark as its
handle.  The mark alone is a tag too. -/
def tag? (flow : Bool) (s : List Char) : Option (Symbol × Nat) := do
  let name := s.takeWhile isWord
  let behind := s.drop name.length
  let (symbol, n) ←
    if startsWith '<' s then do
      let (text, n) ← tagTextSome? true (s.drop 1)
      if startsWith '>' (s.drop (n + 1)) then
        some (Symbol.tag "" (String.ofList text), n + 2)
      else none
    else if startsWith '!' behind then do
      let (text, n) ← tagTextSome? false (behind.drop 1)
      some (Symbol.tag (String.ofList ('!' :: name ++ ['!'])) (String.ofList text), name.length + 1 + n)
    else do
      let (text, n) ← tagText? false 0 s
      some (if n = 0 then Symbol.tag "" "!" else Symbol.tag "!" (String.ofList text), n)
  let rest := s.drop n
  if atGap rest || (flow && startsWith ',' rest) then return (symbol, n) else none

/-! ## Directives -/

/-- A number of at most nine digits. -/
def versionNumber? (s : List Char) : Option (Nat × Nat) := do
  let digits := s.takeWhile fun c => (digitValue? 10 c).isSome
  let n ← digits? 10 digits
  if digits.length ≤ 9 then return (n, digits.length) else none

def version? (s : List Char) : Option (Symbol × Nat) := do
  let (major, n) ← versionNumber? s
  if startsWith '.' (s.drop n) then do
    let (minor, m) ← versionNumber? (s.drop (n + 1))
    return (.version major minor, n + 1 + m)
  else none

/-- A handle between exclamation marks, or one exclamation mark. -/
def handleLength? (s : List Char) : Option Nat :=
  if startsWith '!' s then
    let name := ((s.drop 1).takeWhile isWord).length
    if startsWith '!' (s.drop (name + 1)) then some (name + 2)
    else if name = 0 then some 1
    else none
  else none

def handle? (s : List Char) : Option (Symbol × Nat) := do
  let n ← handleLength? s
  let blanks := ((s.drop n).takeWhile isSpace).length
  let (text, m) ← tagTextSome? true (s.drop (n + blanks))
  if 0 < blanks && atGap (s.drop (n + blanks + m)) then
    return (.handle (String.ofList (s.take n)) (String.ofList text), n + blanks + m)
  else none

/-- The directive behind a percent sign, up to the end of its line. -/
def directive? (s : List Char) : Option (Symbol × Nat) := do
  let name := s.takeWhile isWord
  let blanks := ((s.drop name.length).takeWhile isSpace).length
  let start := name.length + blanks
  let (symbol, n) ←
    if !atGap (s.drop name.length) then none
    else if name = "YAML".toList then version? (s.drop start)
    else if name = "TAG".toList then handle? (s.drop start)
    else none
  let ending ← lineEnd? (s.drop (start + n))
  return (symbol, start + n + ending)

end Yaml
end DeviceScript
