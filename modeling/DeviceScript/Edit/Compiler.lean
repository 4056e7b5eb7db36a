/-
The compiler in place.

A line that fails to compile is left as the failing pass left it.
-/
import DeviceScript.Compiler
import DeviceScript.Edit.Condition
import DeviceScript.Edit.Passes

namespace DeviceScript
namespace Compiler

open Edit

def editor (c : Compiler) (turns : Nat) : PassKind → Editor
  | .selector => .selector
  | .function => .function c.options.functions
  | .runArgument => .runArgument c.relex
  | .loop => .loop
  | .condition => .condition c.registry c.options.maxConditionDepth.toNat turns
  | .command => .command

/-- One pass over the line, with what the log has to say around it.  It is given a turn for
each token of the line, and one to see that the line is at its end. -/
def processPass (c : Compiler) (kind : PassKind) : Edit Unit := do
  let count ← length
  emit (.running kind count)
  (c.editor (count + 1) kind).process (count + 1)
  if c.options.traceTokens then
    emit (.tokensAfter kind ((← rest 0).map Token.name))

def process (c : Compiler) : Edit Unit := do
  PassKind.all.forM c.processPass
  emit (.compiled (← length))

end Compiler
end DeviceScript
