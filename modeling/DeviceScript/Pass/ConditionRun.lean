/-
Block conditions: what a run of tokens says about one property of some devices.

A run has at most one selector, comparison, aggregation, property and literal, in
any order, and any number of negations.  A negation before the selector and the
aggregation turns the whole condition around, one after either turns the
comparison on each device around.
-/
import DeviceScript.Logged
import DeviceScript.Registry

namespace DeviceScript

structure ConditionRun where
  selector : Option Selector := none
  comparison : Option Comparison := none
  aggregation : Option Aggregation := none
  property : Option Property := none
  literal : Option Primitive := none
  /-- Whether the condition on the devices together is negated. -/
  invertAll : Bool := false
  /-- Whether the comparison on each device is negated. -/
  invertEach : Bool := false

namespace ConditionRun

/-- Takes the next token of the run.  A second token of a kind that is there ends the
run. -/
def take (r : ConditionRun) (t : Token) : Option ConditionRun :=
  match t with
  | .selector s => if r.selector.isSome then none else some { r with selector := some s }
  | .comparison c => if r.comparison.isSome then none else some { r with comparison := some c }
  | .aggregation m =>
    if r.aggregation.isSome then none else some { r with aggregation := some m }
  | .property p => if r.property.isSome then none else some { r with property := some p }
  | .not =>
    if r.aggregation.isSome || r.selector.isSome then
      some { r with invertEach := !r.invertEach }
    else some { r with invertAll := !r.invertAll }
  | t =>
    match t.literal? with
    | some v => if r.literal.isSome then none else some { r with literal := some v }
    | none => none

end ConditionRun

/-- The property that a bare value is compared with. -/
def Defaults.propertyFor? (d : Defaults) : Primitive → Option Property
  | .boolean _ => some (.boolean d.boolean)
  | .number _ => some (.numeric d.numeric)
  | .text _ => some (.text d.text)
  | .vector _ => none

/-- Negates a condition if asked to. -/
def Condition.notIf (invert : Bool) (c : Condition) : Condition := if invert then .not c else c

namespace ConditionRun

/-- The comparison on one device.  Its kind follows the property if there is one, and
the literal otherwise; the literal is cast to that kind.  A boolean property needs
no literal and is then compared with true. -/
def blockCondition (r : ConditionRun) (device : Device) (defaults : Defaults)
    (position : Nat) : Logged Condition :=
  let comparison := r.comparison.getD default
  match r.property.or (r.literal.bind defaults.propertyFor?) with
  | none => .fail (.conditionWithoutValue position)
  | some (.boolean p) => do
    let value ← match r.literal with
      | some v => .ofValue v.toBoolean
      | none => pure true
    .emit (.blockCondition (.boolean p))
    return .boolean device p comparison value
  | some (.text p) =>
    match r.literal with
    | none => .fail (.conditionWithoutValue position)
    | some v => do
      .emit (.blockCondition (.text p))
      return .text device p comparison v.toText
  | some (.numeric p) =>
    match r.literal with
    | none => .fail (.conditionWithoutValue position)
    | some v => do
      let value ← .ofValue v.toNumber
      .emit (.blockCondition (.numeric p))
      return .numeric device p comparison value

/-- The condition that a run of `count` tokens at a position stands for.  The handler
says which device it is about and over which devices it is aggregated. -/
def condition (r : ConditionRun) (registry : Registry) (position count : Nat) :
    Logged Condition :=
  match r.selector with
  | none => .fail (.conditionWithoutSelector position)
  | some s =>
    if r.literal.isNone && r.property.isNone then .fail (.conditionWithoutValue position)
    else
      match registry.handler? s.device with
      | none => .fail (.unknownDevice s.device)
      | some h => do
        let block ← r.blockCondition h.device h.defaults position
        let aggregate := Condition.aggregate (r.aggregation.getD default)
          (block.notIf r.invertEach) (h.provider s)
        let whole := aggregate.notIf r.invertAll
        .emit (.conditionParsed position count whole)
        return whole

end ConditionRun
end DeviceScript
