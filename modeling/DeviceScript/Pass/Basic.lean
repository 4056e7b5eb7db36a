/-
Passes over a line of tokens.

A pass goes through a line from left to right.  At a token where it may start it
makes a step, which sees the tokens before it, nearest first, and those after it,
and says what to put in place of what it read.  A step names how many tokens
before and after it is done with instead of handing out new lists, so no step can
alter a token it has not read, and the line ahead gets shorter with each one.
-/
import DeviceScript.Logged

namespace DeviceScript

/-- What a step at a token does to the line. -/
structure Step where
  /-- How many tokens right before are taken back. -/
  retract : Nat := 0
  /-- What stands in place of the token and of all that the step takes. -/
  emit : List Token
  /-- How many tokens after the token are taken with it. -/
  skip : Nat := 0

structure Pass where
  /-- Whether the pass makes a step at this token. -/
  starts : Token → Bool
  /-- The step at a token, between the tokens before it, nearest first, and those after
  it. -/
  step : (before : List Token) → (token : Token) → (after : List Token) → Logged Step

namespace Step

/-- The tokens behind the cursor after the step, nearest first. -/
def behind (s : Step) (before : List Token) : List Token :=
  s.emit.reverse ++ before.drop s.retract

/-- The tokens ahead of the cursor after the step. -/
def ahead (s : Step) (after : List Token) : List Token := after.drop s.skip

theorem length_ahead_le (s : Step) (after : List Token) :
    (s.ahead after).length ≤ after.length := by
  simp [ahead]

theorem ahead_append {s : Step} {x : List Token} (h : s.skip ≤ x.length) (y : List Token) :
    s.ahead (x ++ y) = s.ahead x ++ y := by
  rw [ahead, ahead, List.drop_append_of_le_length h]

end Step

namespace Pass

/-- The rest of a pass, from a cursor with `before` behind it, nearest first. -/
def runFrom (p : Pass) (before : List Token) : List Token → Logged (List Token)
  | [] => pure before.reverse
  | t :: after =>
    if p.starts t then do
      let s ← p.step before t after
      p.runFrom (s.behind before) (s.ahead after)
    else p.runFrom (t :: before) after
termination_by l => l.length
decreasing_by
  · exact Nat.lt_succ_of_le (s.length_ahead_le after)
  · exact Nat.lt_succ_self _

def run (p : Pass) (tokens : List Token) : Logged (List Token) := p.runFrom [] tokens

/-- One step at a token of the line, whether the pass would start there or not: the
index at which the pass goes on, and the line. -/
def stepWithin (p : Pass) (tokens : List Token) (index : Nat) (h : index < tokens.length) :
    Logged (Nat × List Token) := do
  let before := (tokens.take index).reverse
  let after := tokens.drop (index + 1)
  let s ← p.step before tokens[index] after
  return ((s.behind before).length, (s.behind before).reverse ++ s.ahead after)

/-- One step at a cursor that may have come to the end of the line: behind the last token no
step is made. -/
def stepAt (p : Pass) (tokens : List Token) (cursor : Nat) : Logged (Nat × List Token) :=
  if h : cursor < tokens.length then p.stepWithin tokens cursor h else pure (cursor, tokens)

theorem result_stepWithin (p : Pass) {tokens : List Token} {index : Nat}
    (h : index < tokens.length) :
    (p.stepWithin tokens index h).result =
      (p.step (tokens.take index).reverse tokens[index] (tokens.drop (index + 1))).result.map
        fun s => ((s.behind (tokens.take index).reverse).length,
          (s.behind (tokens.take index).reverse).reverse ++ s.ahead (tokens.drop (index + 1))) := by
  rw [stepWithin, Logged.result_bind]
  cases (p.step (tokens.take index).reverse tokens[index] (tokens.drop (index + 1))).result <;> rfl

end Pass
end DeviceScript
