/-
Cutting a YAML document into symbols.

Most symbols are characters of the text.  Those that open and close block
collections are not: the scanner keeps the columns of the open collections, opens
one where a line is indented further and closes those that a line is not indented
to.  That a scalar is a key shows only at the colon behind it, so the scanner
remembers where the last candidate for a key started and inserts the symbols there.
-/
import DeviceScript.Yaml.BlockScalar
import DeviceScript.Yaml.Property
import DeviceScript.Yaml.Scalar

namespace DeviceScript
namespace Yaml

/-- The place of a node that is a key if a colon follows. -/
structure Candidate where
  /-- How many symbols there are before it. -/
  index : Nat
  position : Position
  /-- Whether it stands in the column of a block mapping, where it has to be a key. -/
  required : Bool

/-- Whether a candidate is too far away to be the key of a colon at `p`.  A key is on
one line, and has at most 1024 characters. -/
def Candidate.isStale (k : Candidate) (p : Position) : Bool :=
  decide (k.position.line < p.line) || decide (k.position.column + 1024 < p.column)

/-- What the scanner knows at a character. -/
structure Scanner where
  position : Position := ⟨0, 0⟩
  /-- The symbols so far. -/
  symbols : Array Symbol := #[]
  /-- The columns of the open block collections, innermost first. -/
  columns : List Nat := []
  /-- The candidate for a key in the innermost flow collection. -/
  candidate : Option Candidate := none
  /-- The candidates around each open flow collection, innermost first. -/
  outer : List (Option Candidate) := []
  /-- Whether a key or a dash may stand here. -/
  keyAllowed : Bool := true
  /-- The names of anchors so far, each with the number of its last anchor. -/
  names : List (String × Nat) := []

namespace Scanner

def inFlow (s : Scanner) : Bool := !s.outer.isEmpty

/-- The first column that is inside of the innermost block collection. -/
def least (s : Scanner) : Nat :=
  match s.columns with
  | [] => 0
  | column :: _ => column + 1

/-- Passes over some characters. -/
def skip (s : Scanner) (text : List Char) : Scanner :=
  { s with position := s.position.advance text }

def emit (s : Scanner) (symbol : Symbol) : Scanner :=
  { s with symbols := s.symbols.push symbol }

def insert (s : Scanner) (index : Nat) (symbol : Symbol) : Scanner :=
  { s with symbols := s.symbols.insertIdxIfInBounds index symbol }

/-- Opens a block collection in a column, unless one is open there already. -/
def openBlock (s : Scanner) (column index : Nat) (symbol : Symbol) : Scanner :=
  if !s.inFlow && s.least ≤ column then
    { s.insert index symbol with columns := column :: s.columns }
  else s

/-- Closes the innermost block collections. -/
def closeBlocks (s : Scanner) (count : Nat) : Scanner :=
  if s.inFlow then s
  else { s with
    symbols := s.symbols ++ Array.replicate count .blockEnd
    columns := s.columns.drop count }

/-- Closes the block collections to the right of the position. -/
def closeInner (s : Scanner) : Scanner :=
  s.closeBlocks (s.columns.takeWhile (s.position.column < ·)).length

def closeAll (s : Scanner) : Scanner := s.closeBlocks s.columns.length

/-! ## Candidates for keys -/

/-- What is left of a candidate at `p`, where one that has to be a key may not be lost. -/
def keep? (p : Position) : Option Candidate → Option (Option Candidate)
  | none => some none
  | some k => if !k.isStale p then some (some k) else if k.required then none else some none

/-- Forgets the candidates that are too far away. -/
def forgetStale? (s : Scanner) : Option Scanner := do
  let candidate ← keep? s.position s.candidate
  let outer ← s.outer.mapM (keep? s.position)
  return { s with candidate := candidate, outer := outer }

/-- Forgets the candidate of the innermost flow collection. -/
def forget? (s : Scanner) : Option Scanner :=
  if s.candidate.any Candidate.required then none else some { s with candidate := none }

/-- Remembers the position as a candidate, if a key may stand here. -/
def remember? (s : Scanner) : Option Scanner :=
  if s.keyAllowed then do
    let t ← s.forget?
    return { t with
      candidate := some ⟨s.symbols.size, s.position, !s.inFlow && s.least == s.position.column + 1⟩ }
  else some s

/-! ## Symbols

Each of the following reads one symbol that starts with the character `c`, and says
how many characters behind `c` belong to it. -/

/-- Ends the scanning of a symbol that takes `n` characters behind `c`. -/
def finish (s : Scanner) (symbol : Symbol) (keyAllowed : Bool) (c : Char) (rest : List Char)
    (n : Nat) : Scanner × Nat :=
  ({ (s.emit symbol).skip (c :: rest.take n) with keyAllowed := keyAllowed }, n)

/-- A directive, or a line that divides documents. -/
def document? (s : Scanner) (c : Char) (rest : List Char) : Option (Scanner × Nat) := do
  let t ← s.closeAll.forget?
  if c = '%' then do
    let (symbol, n) ← directive? rest
    return t.finish symbol false c rest n
  else return t.finish (if c = '-' then .documentStart else .documentEnd) false c rest 2

def openFlow? (s : Scanner) (c : Char) (rest : List Char) : Option (Scanner × Nat) := do
  let t ← s.remember?
  let inner : Scanner := { t with candidate := none, outer := t.candidate :: t.outer }
  return inner.finish (if c = '[' then .openBracket else .openBrace) true c rest 0

def closeFlow? (s : Scanner) (c : Char) (rest : List Char) : Option (Scanner × Nat) := do
  let t ← s.forget?
  let around : Scanner := match t.outer with
    | [] => t
    | candidate :: outer => { t with candidate := candidate, outer := outer }
  return around.finish (if c = ']' then .closeBracket else .closeBrace) false c rest 0

/-- A dash or a question mark, which may open a block collection. -/
def block? (s : Scanner) (c : Char) (rest : List Char) : Option (Scanner × Nat) :=
  if s.inFlow || s.keyAllowed then do
    let opening := if c = '-' then Symbol.blockSequence else .blockMapping
    let t ← (s.openBlock s.position.column s.symbols.size opening).forget?
    if c = '-' then return t.finish .entry true c rest 0
    else return t.finish .key (!s.inFlow) c rest 0
  else none

/-- A colon, behind a candidate or behind a key that was announced. -/
def value? (s : Scanner) (c : Char) (rest : List Char) : Option (Scanner × Nat) :=
  match s.candidate with
  | some k =>
    let t := (s.insert k.index .key).openBlock k.position.column k.index .blockMapping
    some ({ t with candidate := none }.finish .value false c rest 0)
  | none =>
    if s.inFlow || s.keyAllowed then
      let t := s.openBlock s.position.column s.symbols.size .blockMapping
      some (t.finish .value (!s.inFlow) c rest 0)
    else none

/-- An anchor, whose number is how many names there are so far. -/
def anchor? (s : Scanner) (c : Char) (rest : List Char) : Option (Scanner × Nat) := do
  let t ← s.remember?
  let (name, n) ← anchorName? rest
  let number := s.names.length
  let known := s.names.filter fun p => p.1 != name
  return { t with names := (name, number) :: known }.finish (.anchor number) false c rest n

/-- An alias, before which there has to be an anchor of its name. -/
def alias? (s : Scanner) (c : Char) (rest : List Char) : Option (Scanner × Nat) := do
  let t ← s.remember?
  let (name, n) ← anchorName? rest
  let number ← s.names.lookup name
  return t.finish (.alias number) false c rest n

def tag? (s : Scanner) (c : Char) (rest : List Char) : Option (Scanner × Nat) := do
  let t ← s.remember?
  let (symbol, n) ← Yaml.tag? s.inFlow rest
  return t.finish symbol false c rest n

def blockScalar? (s : Scanner) (c : Char) (rest : List Char) : Option (Scanner × Nat) := do
  let t ← s.forget?
  let literal := c == '|'
  let (text, n) ← Yaml.blockScalar? literal s.least rest
  return t.finish (.scalar (if literal then .literal else .folded) (String.ofList text)) true c rest n

def quotedScalar? (s : Scanner) (c : Char) (rest : List Char) : Option (Scanner × Nat) := do
  let t ← s.remember?
  let (text, n) ← if c = '"' then doubleQuoted? rest else singleQuoted? rest
  return t.finish (.scalar .quoted (String.ofList text)) false c rest n

def plainScalar? (s : Scanner) (c : Char) (rest : List Char) : Option (Scanner × Nat) := do
  let t ← s.remember?
  let p ← plain? s.inFlow s.least (c :: rest)
  return t.finish (.scalar .plain (String.ofList p.text)) p.broken c rest (p.taken - 1)

/-- The symbol that starts with `c`. -/
def symbol? (s : Scanner) (c : Char) (rest : List Char) : Option (Scanner × Nat) :=
  if s.position.column = 0 && (c = '%' || dividesDocuments (c :: rest)) then s.document? c rest
  else if c = '[' || c = '\x7b' then s.openFlow? c rest
  else if c = ']' || c = '\x7d' then s.closeFlow? c rest
  else if c = ',' then s.forget?.map fun t => t.finish .comma true c rest 0
  else if c = '-' && atGap rest then s.block? c rest
  else if c = '?' && (s.inFlow || atGap rest) then s.block? c rest
  else if c = ':' && (s.inFlow || atGap rest) then s.value? c rest
  else if c = '*' then s.alias? c rest
  else if c = '&' then s.anchor? c rest
  else if c = '!' then s.tag? c rest
  else if (c = '|' || c = '>') && !s.inFlow then s.blockScalar? c rest
  else if c = '"' || c = '\x27' then s.quotedScalar? c rest
  else if startsPlain s.inFlow c rest then s.plainScalar? c rest
  else none

/-- The symbols of a text up to its end.  A tab may not stand where a key may, for
there the columns count.  A mark of the byte order at the start of a line is passed
over, and takes a column. -/
def run? (s : Scanner) (text : List Char) : Option (List Symbol) :=
  match text with
  | [] => do
    let t ← s.forgetStale?
    let u ← t.closeAll.forget?
    return u.symbols.toList
  | c :: rest =>
    if c = ' ' || (c = '\t' && (s.inFlow || !s.keyAllowed)) ||
        (c = byteOrderMark && s.position.column = 0) then
      (s.skip [c]).run? rest
    else if c = '#' then
      let n := commentLength (c :: rest) - 1
      (s.skip (c :: rest.take n)).run? (rest.drop n)
    else if isBreak c then
      { s.skip [c] with keyAllowed := s.keyAllowed || !s.inFlow }.run? rest
    else
      match s.forgetStale?.bind fun t => t.closeInner.symbol? c rest with
      | none => none
      | some (next, n) => next.run? (rest.drop n)
termination_by text.length
decreasing_by
  all_goals simp only [List.length_cons, List.length_drop]; omega

end Scanner

/-- The symbols of a text. -/
def symbols? (text : List Char) : Option (List Symbol) :=
  if text.all isPrintable then Scanner.run? {} (unifyBreaks text) else none

end Yaml
end DeviceScript
