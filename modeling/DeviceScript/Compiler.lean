/-
The compiler: the six passes in order.
-/
import DeviceScript.Options
import DeviceScript.Pass.Command
import DeviceScript.Pass.Condition
import DeviceScript.Pass.Function
import DeviceScript.Pass.Loop
import DeviceScript.Pass.RunArgument
import DeviceScript.Pass.Selector

namespace DeviceScript

structure Compiler where
  options : Options := {}
  registry : Registry := .standard
  relex : Relexer := Lexeme.words

namespace Compiler

def pass (c : Compiler) : PassKind → Pass
  | .selector => .selector
  | .function => .function c.options.functions
  | .runArgument => .runArgument c.relex
  | .loop => .loop
  | .condition => .condition c.registry c.options.maxConditionDepth.toNat
  | .command => .command

/-- One pass over a line, with what the log has to say around it. -/
def runPass (c : Compiler) (tokens : List Token) (kind : PassKind) : Logged (List Token) := do
  .emit (.running kind tokens.length)
  let out ← (c.pass kind).run tokens
  if c.options.traceTokens then
    .emit (.tokensAfter kind (out.map Token.name))
  return out

def compile (c : Compiler) (tokens : List Token) : Logged (List Token) := do
  let out ← PassKind.all.foldlM c.runPass tokens
  .emit (.compiled out.length)
  return out

/-- The line after each of some passes, up to the first that fails. -/
def stages (c : Compiler) (tokens : List Token) :
    List PassKind → List (PassKind × Except CompileError (List Token))
  | [] => []
  | kind :: kinds =>
    match ((c.pass kind).run tokens).result with
    | .ok out => (kind, .ok out) :: c.stages out kinds
    | .error e => [(kind, .error e)]

end Compiler
end DeviceScript
