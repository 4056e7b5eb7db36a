/-
The values that a script computes with, and the casts between their kinds.

A cast that cannot be made is an error with a cause; `ValueError.message` has the
wording.  Any value can be cast to a text.
-/
import DeviceScript.Vec3

namespace DeviceScript

/-- The kinds of value. -/
inductive Kind where
  | boolean
  | number
  | text
  | vector
deriving DecidableEq

/-- The operators on values. -/
inductive Operator where
  | plus
  | minus
  | multiply
  | divide
  | modulo
  | not
  | compare
  | project
  | dot
deriving DecidableEq

inductive Primitive where
  | boolean (value : Bool)
  | number (value : Single)
  | text (value : String)
  | vector (value : Vec3)
deriving DecidableEq

/-- Why a cast or an operator has no result. -/
inductive ValueError where
  | coercion (source target : Kind)
  | malformedNumber (text : String)
  | operator (operator : Operator) (kind : Kind)
  | operand (operator : Operator) (kind operand : Kind)
deriving DecidableEq

namespace Kind

def all : List Kind := [.boolean, .number, .text, .vector]

def name : Kind → String
  | .boolean => "boolean"
  | .number => "number"
  | .text => "string"
  | .vector => "vector"

end Kind

namespace Operator

def all : List Operator :=
  [.plus, .minus, .multiply, .divide, .modulo, .not, .compare, .project, .dot]

def name : Operator → String
  | .plus => "plus"
  | .minus => "minus"
  | .multiply => "multiply"
  | .divide => "divide"
  | .modulo => "mod"
  | .not => "not"
  | .compare => "compare"
  | .project => "project"
  | .dot => "dot"

/-- Whether the operator takes no operand. -/
def isUnary (o : Operator) : Bool := o == .not

def isArithmetic : Operator → Bool
  | .plus | .minus | .multiply | .divide | .modulo => true
  | _ => false

/-- Whether only vectors take the operator. -/
def isVectorOnly : Operator → Bool
  | .project | .dot => true
  | _ => false

end Operator

def ValueError.message : ValueError → String
  | .coercion source target =>
    "Cannot convert primitive type " ++ source.name ++ " to " ++ target.name
  | .malformedNumber text => "Malformed number: '" ++ text ++ "'"
  | .operator o kind => "Operator " ++ o.name ++ " is not supported on " ++ kind.name
  | .operand o kind other =>
    "Operator " ++ o.name ++ " on " ++ kind.name ++ " does not accept a " ++ other.name ++
      " operand"

namespace Primitive

def kind : Primitive → Kind
  | .boolean _ => .boolean
  | .number _ => .number
  | .text _ => .text
  | .vector _ => .vector

/-- The truth value that a text spells, in any case of letters. -/
def readBoolean? (s : String) : Option Bool :=
  let word := (Text.trim s.toList).map Char.toLower
  if word = ['t', 'r', 'u', 'e'] then some true
  else if word = ['f', 'a', 'l', 's', 'e'] then some false
  else none

/-- Numbers are true when they are positive. -/
def toBoolean : Primitive → Except ValueError Bool
  | .boolean b => .ok b
  | .number n => .ok n.isPositive
  | .text s =>
    match readBoolean? s with
    | some b => .ok b
    | none => .error (.coercion .text .boolean)
  | .vector _ => .error (.coercion .vector .boolean)

/-- A vector counts as its length.  A text that is no number is named whole, blanks
included. -/
def toNumber : Primitive → Except ValueError Single
  | .boolean b => .ok (.ofInt .single (if b then 1 else 0))
  | .number n => .ok n
  | .text s =>
    match Numeral.Binary.read? .single (Text.trim s.toList) with
    | some n => .ok n
    | none => .error (.malformedNumber s)
  | .vector v => .ok (v.length.convert .single)

def toText : Primitive → String
  | .boolean b => if b then "true" else "false"
  | .number n => n.text
  | .text s => s
  | .vector v => v.text

def toVector : Primitive → Except ValueError Vec3
  | .boolean _ => .error (.coercion .boolean .vector)
  | .number _ => .error (.coercion .number .vector)
  | .text s =>
    match Vec3.read? s.toList with
    | some v => .ok v
    | none => .error (.coercion .text .vector)
  | .vector v => .ok v

end Primitive
end DeviceScript
