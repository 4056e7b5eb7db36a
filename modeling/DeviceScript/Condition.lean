/-
Condition trees.

A block condition compares one property of one device with a value.  An aggregate
takes a condition over all devices that a selector matches, and the connectives
join conditions.
-/
import DeviceScript.Numeral.Shortest
import DeviceScript.Selector

namespace DeviceScript

inductive Condition where
  | boolean (device : Device) (property : BooleanProperty) (comparison : Comparison)
      (value : Bool)
  | text (device : Device) (property : TextProperty) (comparison : Comparison)
      (value : String)
  | numeric (device : Device) (property : NumericProperty) (comparison : Comparison)
      (value : Single)
  | aggregate (mode : Aggregation) (condition : Condition) (selector : Selector)
  | not (condition : Condition)
  | and (left right : Condition)
  | or (left right : Condition)
deriving DecidableEq

namespace Condition

open Vocabulary in
/-- A condition as diagnostics show it.  The device of a block condition is shown
by the aggregate around it. -/
def render : Condition → String
  | .boolean _ property comparison value =>
    label property ++ " " ++ label comparison ++ " " ++ if value then "true" else "false"
  | .text _ property comparison value =>
    label property ++ " " ++ label comparison ++ " \"" ++ value ++ "\""
  | .numeric _ property comparison value =>
    label property ++ " " ++ label comparison ++ " " ++ value.text
  | .aggregate mode condition selector =>
    label mode ++ " " ++ selector.text ++ " [" ++ condition.render ++ "]"
  | .not condition => "NOT " ++ condition.render
  | .and left right => "(" ++ left.render ++ " AND " ++ right.render ++ ")"
  | .or left right => "(" ++ left.render ++ " OR " ++ right.render ++ ")"

end Condition
end DeviceScript
