/-
The condition pass in place.

First the block runs become conditions where they stand, and the negations and
parentheses around them are passed over.  Then what is around the conditions is taken
into them, one operand after the other, until a single one is left behind the start.
Each of the loops goes on from an index in the line as it has become by then.
-/
import DeviceScript.Edit.Basic
import DeviceScript.Pass.Condition

namespace DeviceScript
namespace Edit

/-! ## Block runs -/

/-- The run at an index becomes its condition. -/
def parseBlock (registry : Registry) (index : Nat) : Edit Unit := do
  let (run, count) := scan ConditionRun.take {} (← rest index)
  let condition ← ofLogged (run.condition registry index count)
  let _ ← splice index (index + count) [.condition condition]

/-- The next run becomes its condition: the index behind it and its parentheses. -/
def parseOperand (registry : Registry) (index : Nat) : Edit Nat := do
  let first ← skip (fun t => (Piece.opening? t).isSome) index
  parseBlock registry first
  skip (fun t => (Piece.closing? t).isSome) (first + 1)

/-- All runs of the condition at an index become conditions. -/
def parse (registry : Registry) : (turns index : Nat) → Edit Unit
  | 0, _ => outside
  | turns + 1, index => do
    let next ← parseOperand registry index
    match (← token? next).bind Piece.connective? with
    | some k =>
      if next + 1 < (← length) then
        emit (.conditionContinues k)
        parse registry turns (next + 1)
    | none => return

/-! ## Operators -/

/-- Takes away the condition at an index. -/
def removeCondition (index : Nat) : Edit Condition := do
  match ← remove index with
  | .condition c => return c
  | t => fail (.invalidConditionToken index t.name)

mutual

/-- The operand at an index becomes a single condition. -/
def resolveOperand (limit : Nat) (turns depth index : Nat) : Edit Unit :=
  match turns with
  | 0 => outside
  | turns + 1 => do
    if limit ≤ depth then fail (.conditionTooDeep limit)
    else
      match ← token? index with
      | some (.condition _) => return
      | some .not =>
        let _ ← remove index
        resolveOperand limit turns (depth + 1) index
        let inner ← removeCondition index
        insert index (.condition (.not inner))
      | some .openParen =>
        resolveChain limit turns (depth + 1) (index + 1)
        match ← token? (index + 2) with
        | some .closeParen =>
          let _ ← remove (index + 2)
          let _ ← remove index
        | _ => fail (.mismatchedParenthesis index)
      | some t => fail (.invalidConditionToken index t.name)
      | none => fail (.invalidConditionToken index "end of parameters")
termination_by 2 * turns

/-- The operand at an index and the chain behind it become a single condition. -/
def resolveChain (limit : Nat) (turns depth index : Nat) : Edit Unit := do
  resolveOperand limit turns depth index
  resolveLinks limit turns depth index
termination_by 2 * turns + 1

/-- The chain behind the condition at an index is joined to it. -/
def resolveLinks (limit : Nat) (turns depth index : Nat) : Edit Unit :=
  match turns with
  | 0 => outside
  | turns + 1 => do
    if index + 2 < (← length) then
      match Piece.connective? (← token (index + 1)) with
      | some k =>
        resolveOperand limit turns depth (index + 2)
        let right ← removeCondition (index + 2)
        let _ ← remove (index + 1)
        let left ← removeCondition index
        emit (.conditionsJoined k index)
        insert index (.condition (k.join left right))
        resolveLinks limit turns depth index
      | none => return
termination_by 2 * turns

end

end Edit

namespace Editor

open Edit

/-- All parentheses that are opened in the condition have been closed by then.  Each of the
loops is given the same number of turns. -/
def condition (registry : Registry) (limit turns : Nat) : Editor where
  starts := Pass.startsCondition
  convertNext index := do
    emit (.conditionStarted index)
    let start := index + 1
    parse registry turns start
    resolveChain limit turns 0 start
    match ← token? (start + 1) with
    | some .closeParen => fail (.mismatchedParenthesis (start + 1))
    | _ => return start + 1

end Editor
end DeviceScript
