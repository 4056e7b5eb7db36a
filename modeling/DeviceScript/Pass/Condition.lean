/-
The condition pass: what follows the start of a condition becomes its tree.

The pass reads in two stages.  The first walks over the tokens, makes a condition
of every block run, and keeps the negations, the parentheses and the connectives
around them as pieces; it goes on behind a connective as long as there is a token
to go on with.  The second folds the pieces.  Both connectives bind alike and to
the left, and a negation binds one operand.

A position counts tokens as they stand while the pass works: a run or an operand
that is folded already counts as one.
-/
import DeviceScript.Pass.Basic
import DeviceScript.Pass.ConditionRun
import DeviceScript.Pass.Scan

namespace DeviceScript

/-- A part of a condition whose block runs are conditions already. -/
inductive Piece where
  | not
  | openParen
  | closeParen
  | join (connective : Connective)
  | operand (condition : Condition)

namespace Piece

def name : Piece → String
  | .not => "Not"
  | .openParen => "OpenParen"
  | .closeParen => "CloseParen"
  | .join c => c.label
  | .operand _ => "Condition"

/-- The tokens that can stand in front of an operand. -/
def opening? : Token → Option Piece
  | .not => some .not
  | .openParen => some .openParen
  | _ => none

/-- The tokens that can stand behind an operand. -/
def closing? : Token → Option Piece
  | .closeParen => some .closeParen
  | _ => none

def connective? : Token → Option Connective
  | .and => some .and
  | .or => some .or
  | _ => none

/-- The pieces that a recogniser finds at the start of a list of tokens. -/
def leading (recognise : Token → Option Piece) : List Token → List Piece
  | [] => []
  | t :: rest =>
    match recognise t with
    | some p => p :: leading recognise rest
    | none => []

theorem length_leading_le (recognise : Token → Option Piece) (tokens : List Token) :
    (leading recognise tokens).length ≤ tokens.length := by
  induction tokens with
  | nil => simp [leading]
  | cons t rest ih =>
    rw [leading]
    split
    · simpa using ih
    · simp

/-- The pieces of one operand at the start of `tokens`, which stand at `position`, with
the parentheses on both sides, and how many tokens they were. -/
def readOperand (registry : Registry) (position : Nat) (tokens : List Token) :
    Logged (List Piece × Nat) := do
  let opened := leading opening? tokens
  let body := tokens.drop opened.length
  let (run, count) := scan ConditionRun.take {} body
  let condition ← run.condition registry (position + opened.length) count
  let closed := leading closing? (body.drop count)
  return (opened ++ .operand condition :: closed, opened.length + count + closed.length)

/-- The pieces of the condition at the start of `tokens`, which stand at `position`,
and how many tokens they were. -/
def read (registry : Registry) (position : Nat) (tokens : List Token) :
    Logged (List Piece × Nat) := do
  let (here, taken) ← readOperand registry position tokens
  match _h : tokens.drop taken with
  | t :: next :: rest =>
    match connective? t with
    | some c => do
      .emit (.conditionContinues c)
      let (pieces, n) ← read registry (position + here.length + 1) (next :: rest)
      return (here ++ .join c :: pieces, taken + 1 + n)
    | none => return (here, taken)
  | _ => return (here, taken)
termination_by tokens.length
decreasing_by
  have h := congrArg List.length _h
  simp only [List.length_drop, List.length_cons] at h ⊢
  omega

/-! ## Folding

Each function returns the condition it folded and how many pieces that took. -/

mutual

/-- One operand: a condition, a negated operand, or a chain in parentheses.  The
nesting is checked before the operand is looked at. -/
def foldOperand (limit depth position : Nat) (pieces : List Piece) :
    Logged (Condition × Nat) :=
  if limit ≤ depth then .fail (.conditionTooDeep limit)
  else
    match pieces with
    | [] => .fail (.invalidConditionToken position "end of parameters")
    | .operand c :: _ => return (c, 1)
    | .not :: rest => do
      let (c, n) ← foldOperand limit (depth + 1) position rest
      return (.not c, n + 1)
    | .openParen :: rest => do
      let (c, n) ← foldChain limit (depth + 1) (position + 1) rest
      match rest.drop n with
      | .closeParen :: _ => return (c, n + 2)
      | _ => .fail (.mismatchedParenthesis position)
    | p :: _ => .fail (.invalidConditionToken position p.name)
termination_by 3 * pieces.length

/-- A chain of operands with connectives between them. -/
def foldChain (limit depth position : Nat) (pieces : List Piece) :
    Logged (Condition × Nat) := do
  let (first, n) ← foldOperand limit depth position pieces
  let (c, m) ← foldLinks limit depth position first (pieces.drop n)
  return (c, n + m)
termination_by 3 * pieces.length + 2
decreasing_by
  · omega
  · rw [List.length_drop]
    omega

/-- The connectives and operands that follow `left` in a chain. -/
def foldLinks (limit depth position : Nat) (left : Condition) (pieces : List Piece) :
    Logged (Condition × Nat) :=
  match pieces with
  | .join c :: next :: rest => do
    let (right, n) ← foldOperand limit depth (position + 2) (next :: rest)
    .emit (.conditionsJoined c position)
    let (whole, m) ← foldLinks limit depth position (c.join left right) ((next :: rest).drop n)
    return (whole, n + m + 1)
  | _ => return (left, 0)
termination_by 3 * pieces.length + 1
decreasing_by
  · simp only [List.length_cons]
    omega
  · simp only [List.length_drop, List.length_cons]
    omega

end

end Piece

namespace Pass

def startsCondition : Token → Bool
  | .whether => true
  | _ => false

/-- Pieces left over after folding are closing parentheses without a partner. -/
def condition (registry : Registry) (limit : Nat) : Pass where
  starts := startsCondition
  step before t after := do
    .emit (.conditionStarted before.length)
    let start := before.length + 1
    let (pieces, count) ← Piece.read registry start after
    let (c, n) ← Piece.foldChain limit 0 start pieces
    match pieces.drop n with
    | [] => return { emit := [t, .condition c], skip := count }
    | _ :: _ => .fail (.mismatchedParenthesis (start + 1))

end Pass
end DeviceScript
