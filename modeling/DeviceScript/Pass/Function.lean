/-
The function pass: a text that names a function of the script gets a jump in front.
-/
import DeviceScript.NameSet
import DeviceScript.Pass.Basic

namespace DeviceScript
namespace Pass

def startsText : Token → Bool
  | .text .. => true
  | _ => false

def namesFunction (functions : NameSet) : Token → Bool
  | .text s _ => functions.contains s
  | _ => false

def function (functions : NameSet) : Pass where
  starts := startsText
  step before t _ :=
    if namesFunction functions t then do
      .emit (.functionTagged before.length)
      return { emit := [.jump .goto, t] }
    else return { emit := [t] }

end Pass
end DeviceScript
