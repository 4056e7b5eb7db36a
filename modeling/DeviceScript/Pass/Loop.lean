/-
The loop pass: the number in front of a loop becomes its count.
-/
import DeviceScript.Pass.Basic

namespace DeviceScript
namespace Pass

def startsLoop : Token → Bool
  | .loop _ => true
  | _ => false

/-- A loop with its count set; other tokens have none. -/
def withCount (count : Int32) : Token → Token
  | .loop _ => .loop (some count)
  | t => t

/-- What stands right before, for the error. -/
def nameBehind (before : List Token) : String :=
  match before with
  | [] => "nothing"
  | t :: _ => t.name

def loop : Pass where
  starts := startsLoop
  step before t _ :=
    match before with
    | .number value :: _ => do
      .emit (.loopBound value.toInt32)
      return { retract := 1, emit := [withCount value.toInt32 t] }
    | _ => .fail (.loopWithoutNumber before.length (nameBehind before))

end Pass
end DeviceScript
