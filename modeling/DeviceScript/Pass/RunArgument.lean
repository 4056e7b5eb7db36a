/-
The run-argument pass: a text that starts with the word `run` is split into the
property of that name and the rest of its text.
-/
import DeviceScript.Lexeme
import DeviceScript.Pass.Function

namespace DeviceScript
namespace Pass

/-- The text of a token whose first word was recognised as `run`. -/
def runText? : Token → Option String
  | .text s (.property (.text .run) :: _) => some s
  | _ => none

/-- The pieces of a text after its first, joined by single spaces. -/
def argumentText (relex : Relexer) (s : String) : String :=
  " ".intercalate ((relex s).drop 1)

def runArgument (relex : Relexer) : Pass where
  starts := startsText
  step before t _ :=
    match runText? t with
    | none => return { emit := [t] }
    | some s => do
      .emit (.runFound before.length)
      let arguments := argumentText relex s
      .emit (.runArguments arguments)
      return { emit := [.property (.text .run), .text arguments []] }

end Pass
end DeviceScript
