/-
The command pass: each longest run of actionable tokens becomes one command.

The kind of the command is the first in the order of kinds that has a marker
anywhere in the run.
-/
import DeviceScript.Pass.Basic

namespace DeviceScript
namespace Pass

def commandKind? (run : List Token) : Option CommandKind :=
  CommandKind.all.find? fun k => run.any k.isMarker

def command : Pass where
  starts := Token.isActionable
  step before t after :=
    let run := (t :: after).takeWhile Token.isActionable
    match commandKind? run with
    | none => .fail (.unknownCommand before.length)
    | some k => do
      .emit (.commandGrouped run.length before.length k)
      return { emit := [.command k run], skip := run.length - 1 }

end Pass
end DeviceScript
