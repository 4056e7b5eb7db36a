/-
Tokens: the units of a command line.

A line comes in as a flat list of tokens.  Compiling it folds runs of simple
tokens into the three compound ones, `selector`, `condition` and `command`.  A
text carries the tokens that were recognised inside it, and a command the tokens
that it was made of.
-/
import DeviceScript.Condition
import DeviceScript.Primitive.Basic

namespace DeviceScript

/-- The kinds of command, in the order in which a run of tokens is tried for them. -/
inductive CommandKind where
  | function
  | listen
  | send
  | control
  | wait
  | block
deriving DecidableEq

/-- A property of a device, of any of the three kinds. -/
inductive Property where
  | boolean (property : BooleanProperty)
  | numeric (property : NumericProperty)
  | text (property : TextProperty)
deriving DecidableEq

inductive Token where
  | group
  | text (value : String) (nested : List Token)
  | device (device : Device)
  | index (index : Int32)
  | selector (selector : Selector)
  | direction (direction : Direction)
  | number (value : Single)
  | boolean (value : Bool)
  | property (property : Property)
  | comparison (comparison : Comparison)
  | aggregation (mode : Aggregation)
  | not
  | and
  | or
  | openParen
  | closeParen
  /-- The start of a condition. -/
  | whether
  | condition (condition : Condition)
  /-- A loop, with its count once that is known. -/
  | loop (count : Option Int32)
  | reverse
  | relative
  | wait
  | unit (unit : MeasureUnit)
  | control (control : Control)
  | jump (jump : Jump)
  | listen
  | send
  | command (kind : CommandKind) (tokens : List Token)

namespace CommandKind

def all : List CommandKind := [.function, .listen, .send, .control, .wait, .block]

def label : CommandKind → String
  | .function => "Function"
  | .listen => "Listen"
  | .send => "Send"
  | .control => "Control"
  | .wait => "Wait"
  | .block => "Block"

/-- The name of the kind in diagnostics. -/
def name (k : CommandKind) : String := k.label ++ "Command"

/-- The tokens that make a run a command of this kind. -/
def isMarker : CommandKind → Token → Bool
  | .function, .jump _ => true
  | .listen, .listen => true
  | .send, .send => true
  | .control, .control _ => true
  | .wait, .wait => true
  | .block, .selector _ => true
  | _, _ => false

end CommandKind

namespace Token

/-- The name of the token's kind in diagnostics. -/
def name : Token → String
  | .group => "Group"
  | .text .. => "String"
  | .device _ => "BlockType"
  | .index _ => "Index"
  | .selector _ => "Selector"
  | .direction _ => "Direction"
  | .number _ => "Numeric"
  | .boolean _ => "Boolean"
  | .property (.numeric _) => "NumericProperty"
  | .property (.boolean _) => "BooleanProperty"
  | .property (.text _) => "StringProperty"
  | .comparison _ => "Comparison"
  | .aggregation _ => "AggregationMode"
  | .not => "Not"
  | .and => "And"
  | .or => "Or"
  | .openParen => "OpenParen"
  | .closeParen => "CloseParen"
  | .whether => "If"
  | .condition _ => "Condition"
  | .loop _ => "Iteration"
  | .reverse => "Reverse"
  | .relative => "Relative"
  | .wait => "Wait"
  | .unit _ => "Unit"
  | .control _ => "Control"
  | .jump _ => "Function"
  | .listen => "Listen"
  | .send => "Send"
  | .command .. => "CommandReference"

def property? : Token → Option Property
  | .property p => some p
  | _ => none

/-- The value that a literal token stands for. -/
def literal? : Token → Option Primitive
  | .number n => some (.number n)
  | .boolean b => some (.boolean b)
  | .text s _ => some (.text s)
  | _ => none

def device? : Token → Option Device
  | .device d => some d
  | _ => none

def isGroup : Token → Bool
  | .group => true
  | _ => false

def isProperty (t : Token) : Bool := t.property?.isSome

def isLiteral (t : Token) : Bool := t.literal?.isSome

/-- Whether the token can take part in a command. -/
def isActionable : Token → Bool
  | .selector _ | .direction _ | .number _ | .text .. | .boolean _ | .property _ | .reverse
  | .relative | .wait | .unit _ | .control _ | .jump _ | .listen | .send => true
  | _ => false

end Token
end DeviceScript
