/-
Why a line does not compile.

A position is an index into the list of tokens as it stood when the failing pass
came to the construct.
-/
import DeviceScript.Numeral.Integer
import DeviceScript.Primitive.Basic
import DeviceScript.Vocabulary

namespace DeviceScript

inductive CompileError where
  /-- A selector without a name. -/
  | selectorWithoutName (position : Nat)
  /-- A loop without a number in front of it. -/
  | loopWithoutNumber (position : Nat) (found : String)
  /-- A run of tokens that is no command. -/
  | unknownCommand (position : Nat)
  | conditionWithoutSelector (position : Nat)
  /-- A condition with neither a property nor a value, or one whose property needs a
  value that is not there. -/
  | conditionWithoutValue (position : Nat)
  | mismatchedParenthesis (position : Nat)
  /-- A token where a condition has to stand. -/
  | invalidConditionToken (position : Nat) (found : String)
  | conditionTooDeep (limit : Nat)
  /-- A device of which the registry knows nothing. -/
  | unknownDevice (device : Device)
  | value (error : ValueError)
deriving DecidableEq

open Numeral in
def CompileError.message : CompileError → String
  | .selectorWithoutName p =>
    "All selectors must have a string identifier (at parameter " ++ naturalText p ++ ")"
  | .loopWithoutNumber p found =>
    "Iteration must be preceded by a number (at parameter " ++ naturalText p ++ ", found " ++
      found ++ ")"
  | .unknownCommand p => "Unknown command reference type (at parameter " ++ naturalText p ++ ")"
  | .conditionWithoutSelector p =>
    "All conditions must have a selector (at parameter " ++ naturalText p ++ ")"
  | .conditionWithoutValue p =>
    "Condition at parameter " ++ naturalText p ++ " must have either a property or a value"
  | .mismatchedParenthesis p => "Mismatched parenthesis (at parameter " ++ naturalText p ++ ")"
  | .invalidConditionToken p found =>
    "Invalid token inside condition: " ++ found ++ " (at parameter " ++ naturalText p ++ ")"
  | .conditionTooDeep limit =>
    "Condition nesting exceeds the limit of " ++ naturalText limit
  | .unknownDevice device => "No block handler registered for " ++ Vocabulary.label device
  | .value error => error.message

end DeviceScript
