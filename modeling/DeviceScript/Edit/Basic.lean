/-
Work on a line of tokens in place.

An edit reads tokens at their indices and puts others in their place.  Each index and
each range is held against the line as it is at that moment, and an edit that reaches
outside of it has no result.  A loop whose cursor goes where the line takes it is given a
number of turns; if it is not done by then, it has no result either.  An edit that fails
leaves the line as far as it has come.
-/
import DeviceScript.Logged

namespace DeviceScript

/-- A line that is being worked on, and the log of the work. -/
structure Work where
  line : List Token
  events : List Event

abbrev Edit := ExceptT CompileError (StateT Work Option)

namespace Edit

variable {α : Type}

/-- There is no result. -/
def outside : Edit α := fun _ => none

def fail (e : CompileError) : Edit α := throw e

def emit (e : Event) : Edit Unit := modify fun w => { w with events := w.events ++ [e] }

/-- A computation that has nothing to do with the line. -/
def ofLogged (l : Logged α) : Edit α := do
  modify fun w => { w with events := w.events ++ l.events }
  match l.result with
  | .ok a => return a
  | .error e => throw e

def length : Edit Nat := return (← get).line.length

/-- The token at an index, if there is one. -/
def token? (index : Nat) : Edit (Option Token) := return (← get).line[index]?

/-- The token at an index, where there has to be one. -/
def token (index : Nat) : Edit Token := do
  match ← token? index with
  | some t => return t
  | none => outside

/-- The tokens from an index on; none past the end. -/
def rest (index : Nat) : Edit (List Token) := return (← get).line.drop index

/-- The tokens of a range, which has to lie inside of the line. -/
def slice (first last : Nat) : Edit (List Token) := do
  let line := (← get).line
  if first ≤ last ∧ last ≤ line.length then return (line.take last).drop first else outside

/-- Puts tokens in the place of a range, which has to lie inside of the line, and gives
those that stood there. -/
def splice (first last : Nat) (tokens : List Token) : Edit (List Token) := do
  let old ← slice first last
  modify fun w => { w with line := w.line.take first ++ tokens ++ w.line.drop last }
  return old

/-- Puts a token in front of an index, or at the end. -/
def insert (index : Nat) (t : Token) : Edit Unit := do
  let _ ← splice index index [t]

/-- Takes away the token at an index, where there has to be one. -/
def remove (index : Nat) : Edit Token := do
  let t ← token index
  let _ ← splice index (index + 1) []
  return t

/-- The first index, from the given one on, at which there is no such token. -/
def skipIn (test : Token → Bool) (tokens : List Token) (index : Nat) : Nat :=
  if h : index < tokens.length then
    if test tokens[index] then skipIn test tokens (index + 1) else index
  else index
termination_by tokens.length - index

def skip (test : Token → Bool) (index : Nat) : Edit Nat := return skipIn test (← get).line index

end Edit

/-- A pass that works in place. -/
structure Editor where
  /-- Whether the pass makes a step at this token. -/
  starts : Token → Bool
  /-- The step at an index: the index at which the pass goes on. -/
  convertNext : (index : Nat) → Edit Nat

namespace Editor

/-- The rest of a pass, from a cursor on. -/
def processFrom (e : Editor) : (turns cursor : Nat) → Edit Unit
  | 0, _ => Edit.outside
  | turns + 1, cursor => do
    if cursor < (← Edit.length) then
      if e.starts (← Edit.token cursor) then
        let next ← e.convertNext cursor
        e.processFrom turns next
      else e.processFrom turns (cursor + 1)

def process (e : Editor) (turns : Nat) : Edit Unit := e.processFrom turns 0

end Editor
end DeviceScript
