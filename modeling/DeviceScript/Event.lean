/-
What a compilation tells its log.

Events hold what happened, and `Event.message` has the wording.
-/
import DeviceScript.Token

namespace DeviceScript

/-- The passes over a line, in the order in which they run. -/
inductive PassKind where
  | selector
  | function
  | runArgument
  | loop
  | condition
  | command
deriving DecidableEq

namespace PassKind

def all : List PassKind := [.selector, .function, .runArgument, .loop, .condition, .command]

def name : PassKind → String
  | .selector => "SelectorProcessor"
  | .function => "FunctionProcessor"
  | .runArgument => "RunArgumentProcessor"
  | .loop => "IterationProcessor"
  | .condition => "ConditionProcessor"
  | .command => "ActionProcessor"

end PassKind

/-- The words that join two conditions. -/
inductive Connective where
  | and
  | or
deriving DecidableEq

namespace Connective

def label : Connective → String
  | .and => "And"
  | .or => "Or"

def join : Connective → Condition → Condition → Condition
  | .and => .and
  | .or => .or

end Connective

inductive Event where
  | running (pass : PassKind) (count : Nat)
  | tokensAfter (pass : PassKind) (names : List String)
  | compiled (count : Nat)
  | selectorFolded (position : Nat) (name : String)
  | functionTagged (position : Nat)
  | runFound (position : Nat)
  | runArguments (text : String)
  | loopBound (count : Int32)
  | conditionStarted (position : Nat)
  | blockCondition (property : Property)
  | conditionParsed (position count : Nat) (condition : Condition)
  | conditionContinues (connective : Connective)
  | conditionsJoined (connective : Connective) (position : Nat)
  | commandGrouped (count position : Nat) (kind : CommandKind)

inductive Level where
  | debug
  | trace
deriving DecidableEq

def Level.name : Level → String
  | .debug => "DEBUG"
  | .trace => "TRACE"

namespace Event

/-- Only the lists of tokens are traces. -/
def level : Event → Level
  | .tokensAfter .. => .trace
  | _ => .debug

def describeProperty : Property → String
  | .boolean p => "Boolean condition on " ++ Vocabulary.label p
  | .text p => "String condition on " ++ Vocabulary.label p
  | .numeric p => "Numeric condition on " ++ Vocabulary.label p

open Numeral in
def message : Event → String
  | .running pass count =>
    "Running " ++ pass.name ++ " over " ++ naturalText count ++ " parameters"
  | .tokensAfter pass names =>
    "After " ++ pass.name ++ ": [" ++ ", ".intercalate names ++ "]"
  | .compiled count => "Compiled to " ++ naturalText count ++ " parameters"
  | .selectorFolded p name =>
    "Converted String at index " ++ naturalText p ++ " to Selector '" ++ name ++ "'"
  | .functionTagged p => "Tagged function reference at index " ++ naturalText p
  | .runFound p => "Found run keyword at index " ++ naturalText p
  | .runArguments text => "Arguments: (" ++ text ++ ")"
  | .loopBound count => "Loops: " ++ integerText count.toInt
  | .conditionStarted p => "Attempting to parse condition at index " ++ naturalText p
  | .blockCondition property => describeProperty property
  | .conditionParsed p count condition =>
    "Parsed condition at index " ++ naturalText p ++ " from " ++ naturalText count ++
      " parameters: " ++ condition.render
  | .conditionContinues c => "Next token after condition is " ++ c.label ++ ", continuing"
  | .conditionsJoined c p => "Folded " ++ c.label ++ " at index " ++ naturalText p
  | .commandGrouped count p kind =>
    "Grouped " ++ naturalText count ++ " parameters at index " ++ naturalText p ++ " into " ++
      kind.name

end Event
end DeviceScript
