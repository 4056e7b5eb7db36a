/-
Plain and quoted scalars of YAML documents.

Each reader gives the text of a scalar and says how many characters it takes, so
what follows a scalar is always a part of the text behind its start.  A scalar may
stand on several lines; `foldGap` says what a gap between two of its words is read
as.
-/
import DeviceScript.Yaml.Character

namespace DeviceScript
namespace Yaml

/-! ## Gaps -/

/-- A gap as it is read.  Without line breaks it is kept.  Otherwise its blanks are
lost, and so is a line feed at the front, in place of which a space is read if it is
the only break. -/
def foldGap (gap : List Char) : List Char :=
  match gap.filter isBreak with
  | [] => gap
  | ['\n'] => [' ']
  | '\n' :: breaks => breaks
  | breaks => breaks

/-- How many blanks stand behind the last line break of a gap. -/
def indentation (gap : List Char) : Nat := (gap.reverse.takeWhile isSpace).length

/-- Whether a gap leads to the start of a line that divides documents. -/
def endsDocument (gap rest : List Char) : Bool :=
  gap.getLast?.any isBreak && dividesDocuments rest

/-- Prepends characters to a scalar of which `taken` more characters are used up. -/
def prepend (text : List Char) (taken : Nat) (scalar : List Char × Nat) : List Char × Nat :=
  (text ++ scalar.1, taken + scalar.2)

/-! ## Single quotes -/

/-- The text up to a closing single quote, and how many characters it takes with the
quote.  A quote is written twice. -/
def singleQuoted? (s : List Char) : Option (List Char × Nat) :=
  match s with
  | [] => none
  | '\x27' :: '\x27' :: rest => (singleQuoted? rest).map (prepend ['\x27'] 2)
  | '\x27' :: _ => some ([], 1)
  | c :: rest =>
    if isGap c then
      let more := (rest.takeWhile isGap).length
      let gap := c :: rest.take more
      if endsDocument gap (rest.drop more) then none
      else (singleQuoted? (rest.drop more)).map (prepend (foldGap gap) (more + 1))
    else (singleQuoted? rest).map (prepend [c] 1)
termination_by s.length
decreasing_by
  all_goals simp only [List.length_cons, List.length_drop]; omega

/-! ## Double quotes -/

/-- The character that a letter behind a backslash stands for. -/
def escaped? (c : Char) : Option Char :=
  match c with
  | '0' => some '\x00'
  | 'a' => some '\x07'
  | 'b' => some '\x08'
  | 't' => some '\t'
  | '\t' => some '\t'
  | 'n' => some '\n'
  | 'v' => some '\x0b'
  | 'f' => some '\x0c'
  | 'r' => some '\r'
  | 'e' => some '\x1b'
  | ' ' => some ' '
  | '"' => some '"'
  | '/' => some '/'
  | '\\' => some '\\'
  | 'N' => some '\u0085'
  | '_' => some '\u00a0'
  | 'L' => some '\u2028'
  | 'P' => some '\u2029'
  | _ => none

/-- How many hexadecimal digits follow a letter behind a backslash. -/
def codeLength? (c : Char) : Option Nat :=
  match c with
  | 'x' => some 2
  | 'u' => some 4
  | 'U' => some 8
  | _ => none

def codePoint? (digits : List Char) : Option Char := do
  let n ← digits? 16 digits
  if n.isValidChar then return Char.ofNat n else none

/-- The text up to a closing double quote, and how many characters it takes with the
quote.  A line break behind a backslash is lost with the blanks behind it, while the
empty lines after it are kept. -/
def doubleQuoted? (s : List Char) : Option (List Char × Nat) :=
  match s with
  | [] => none
  | '"' :: _ => some ([], 1)
  | '\\' :: c :: rest =>
    if isBreak c then
      let more := (rest.takeWhile isGap).length
      let gap := rest.take more
      if endsDocument (c :: gap) (rest.drop more) then none
      else (doubleQuoted? (rest.drop more)).map (prepend (gap.filter isBreak) (more + 2))
    else
      match codeLength? c with
      | some n =>
        match codePoint? (rest.take n) with
        | some d =>
          if n ≤ rest.length then (doubleQuoted? (rest.drop n)).map (prepend [d] (n + 2)) else none
        | none => none
      | none =>
        match escaped? c with
        | some d => (doubleQuoted? rest).map (prepend [d] 2)
        | none => none
  | c :: rest =>
    if isGap c then
      let more := (rest.takeWhile isGap).length
      let gap := c :: rest.take more
      if endsDocument gap (rest.drop more) then none
      else (doubleQuoted? (rest.drop more)).map (prepend (foldGap gap) (more + 1))
    else (doubleQuoted? rest).map (prepend [c] 1)
termination_by s.length
decreasing_by
  all_goals simp only [List.length_cons, List.length_drop]; omega

/-! ## Plain scalars -/

/-- Whether a plain scalar can start with `c` before `rest`. -/
def startsPlain (flow : Bool) (c : Char) (rest : List Char) : Bool :=
  if c = '-' then !atGap rest
  else if c = '?' || c = ':' then !flow && !atGap rest
  else !(isFlowMark c || isGap c ||
    ['#', '&', '*', '!', '|', '>', '\x27', '"', '%', '@', '\x60'].contains c)

/-- How many characters the word of a plain scalar has.  It ends before a gap, before
a colon that has a gap behind it, and in a flow collection before the marks of the
collection; a colon right before such a mark is an error. -/
def plainWord? (flow : Bool) : List Char → Option Nat
  | [] => some 0
  | c :: rest =>
    if isGap c || (flow && isFlowMark c) || (c = ':' && atGap rest) then some 0
    else if c = ':' && flow && rest.head?.any (fun d => isFlowMark d || d == '?') then none
    else (plainWord? flow rest).map (· + 1)

/-- Whether a tab indents a line of a gap to less than the column `least`.  The
column of the next character is known once a line has started. -/
def tabIndents (least : Nat) : Option Nat → List Char → Bool
  | _, [] => false
  | column, c :: rest =>
    if isBreak c then tabIndents least (some 0) rest
    else (c == '\t' && column.any (· < least)) || tabIndents least (column.map (· + 1)) rest

/-- Whether a plain scalar cannot go on behind a gap: a comment or another document
starts there, or the line is not indented to the column `least`, which only matters
outside of flow collections. -/
def plainStops (flow : Bool) (least : Nat) (gap rest : List Char) : Bool :=
  startsWith '#' rest || endsDocument gap rest ||
    (!flow && gap.any isBreak && decide (indentation gap < least))

/-- What a reader of plain scalars finds. -/
structure PlainScalar where
  text : List Char
  /-- How many characters are used up, with the gap at the end. -/
  taken : Nat
  /-- Whether there is a line break in the gap at the end. -/
  broken : Bool

/-- The plain scalar at the start of a text whose lines are indented to the column
`least`. -/
def plain? (flow : Bool) (least : Nat) (s : List Char) : Option PlainScalar :=
  match plainWord? flow s with
  | none => none
  | some n =>
    match _h : s.drop n with
    | [] => some ⟨s.take n, n, false⟩
    | c :: rest =>
      if isGap c then
        let more := (rest.takeWhile isGap).length
        let gap := c :: rest.take more
        let behind : PlainScalar := ⟨s.take n, n + gap.length, gap.any isBreak⟩
        if tabIndents least none gap then none
        else if plainStops flow least gap (rest.drop more) then some behind
        else
          (plain? flow least (rest.drop more)).map fun p =>
            if p.text = [] then behind
            else ⟨behind.text ++ foldGap gap ++ p.text, behind.taken + p.taken, p.broken⟩
      else some ⟨s.take n, n, false⟩
termination_by s.length
decreasing_by
  have h := congrArg List.length _h
  simp only [List.length_cons, List.length_drop] at h ⊢
  omega

end Yaml
end DeviceScript
