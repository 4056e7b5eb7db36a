/-
Block scalars of YAML documents: texts that stand on lines of their own.

A block scalar has a header and then the lines that are indented far enough.  A
literal one keeps its line breaks, and a folded one joins lines as a plain scalar
does, except next to lines that start with a blank.
-/
import DeviceScript.Yaml.Character

namespace DeviceScript
namespace Yaml

/-- What becomes of the line breaks at the end of a block scalar. -/
inductive Chomping where
  /-- All are lost. -/
  | strip
  /-- The first one is kept. -/
  | clip
  /-- All are kept. -/
  | keep
deriving DecidableEq

def Chomping.ofChar? (c : Char) : Option Chomping :=
  if c = '+' then some .keep else if c = '-' then some .strip else none

structure BlockHeader where
  chomping : Chomping := .clip
  /-- How much further than what is around it the scalar is indented, if it says so. -/
  increment : Option Nat := none

/-- The marks of a header in either order, and how many there are. -/
def BlockHeader.read? (s : List Char) : Option (BlockHeader × Nat) :=
  let chomping := s.head?.bind Chomping.ofChar?
  let digit := (s.drop (if chomping.isSome then 1 else 0)).head?.bind (digitValue? 10)
  let late := if chomping.isNone && digit.isSome then (s.drop 1).head?.bind Chomping.ofChar? else none
  if digit = some 0 then none
  else some (⟨((chomping.or late).getD .clip), digit⟩,
    (if (chomping.or late).isSome then 1 else 0) + (if digit.isSome then 1 else 0))

/-- The empty lines before a line, and its indentation. -/
structure Margin where
  breaks : List Char
  /-- The widest indentation among these lines. -/
  widest : Nat
  /-- The indentation of the line behind the empty ones. -/
  column : Nat
  taken : Nat

/-- Reads empty lines and an indentation of at most `indent`, if that is known.  A tab
is no indentation. -/
def margin? (indent : Option Nat) (s : List Char) : Option Margin :=
  let spaces := (s.takeWhile (· == ' ')).length
  let n := (indent.map (min spaces)).getD spaces
  match _h : s.drop n with
  | [] => some ⟨[], n, n, n⟩
  | c :: rest =>
    if c = '\t' && indent.all (n < ·) then none
    else if isBreak c then
      (margin? indent rest).map fun m => ⟨c :: m.breaks, max n m.widest, m.column, n + 1 + m.taken⟩
    else some ⟨[], n, n, n⟩
termination_by s.length
decreasing_by
  have h := congrArg List.length _h
  simp only [List.length_cons, List.length_drop] at h
  omega

/-- How the lines of a block scalar are put together. -/
structure BlockStyle where
  literal : Bool
  chomping : Chomping
  indent : Nat

/-- The lines of a block scalar behind the margin `m`.  The break that ended the line
before is `held`, and `spaced` says whether that line started with a blank. -/
def blockLines? (style : BlockStyle) (held : List Char) (spaced : Bool) (m : Margin)
    (s : List Char) : Option (List Char × Nat) :=
  if m.column = style.indent && !s.isEmpty then
    let blank := s.head?.any isSpace
    let joint :=
      if style.literal || spaced || blank || held != ['\n'] then held
      else if m.breaks = [] then [' ']
      else []
    let line := s.takeWhile fun c => !isBreak c
    match _h : s.drop line.length with
    | [] => some (joint ++ m.breaks ++ line, line.length)
    | c :: rest => do
      let next ← margin? (some style.indent) rest
      let (text, taken) ← blockLines? style [c] blank next (rest.drop next.taken)
      return (joint ++ m.breaks ++ line ++ text, line.length + 1 + next.taken + taken)
  else
    some ((if style.chomping = .strip then [] else held) ++
      (if style.chomping = .keep then m.breaks else []), 0)
termination_by s.length
decreasing_by
  have h := congrArg List.length _h
  simp only [List.length_cons, List.length_drop] at h ⊢
  omega

/-- The block scalar behind its mark, where the lines around it are indented to less
than the column `least`.  Unless the header says otherwise, the widest of the first
lines up to one that is not empty gives the indentation. -/
def blockScalar? (literal : Bool) (least : Nat) (s : List Char) : Option (List Char × Nat) := do
  let (header, marks) ← BlockHeader.read? s
  let ending ← lineEnd? (s.drop marks)
  let body := s.drop (marks + ending)
  let told := header.increment.map (least - 1 + ·)
  let m ← margin? told body
  let indent := told.getD (max (max m.widest least) 1)
  let (text, taken) ← blockLines? ⟨literal, header.chomping, indent⟩ [] false m (body.drop m.taken)
  return (text, marks + ending + m.taken + taken)

end Yaml
end DeviceScript
