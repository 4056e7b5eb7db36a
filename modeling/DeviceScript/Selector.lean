/-
Selectors: which devices a command or a condition is about.
-/
import DeviceScript.Numeral.Integer
import DeviceScript.Vocabulary

namespace DeviceScript

structure Selector where
  device : Device
  /-- Whether `name` names a group of devices. -/
  isGroup : Bool
  name : String
  /-- Which of the devices that match, if not all. -/
  index : Option Int32
deriving DecidableEq

/-- A selector as diagnostics show it: `Light group "Deck"[1]`. -/
def Selector.text (s : Selector) : String :=
  Vocabulary.label s.device ++ (if s.isGroup then " group" else "") ++
    " \"" ++ s.name ++ "\"" ++
    match s.index with
    | some i => "[" ++ Numeral.integerText i.toInt ++ "]"
    | none => ""

end DeviceScript
