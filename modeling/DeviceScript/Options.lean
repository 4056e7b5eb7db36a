/-
The options of a compilation.
-/
import DeviceScript.NameSet

namespace DeviceScript

structure Options where
  /-- The functions that the script defines. -/
  functions : NameSet := .empty
  /-- How deeply negations and parentheses may nest in a condition. -/
  maxConditionDepth : UInt64 := 64
  /-- Whether the tokens after each pass go to the log. -/
  traceTokens : Bool := false

namespace Options

def withFunction (o : Options) (name : String) : Options :=
  { o with functions := o.functions.insert name }

def withMaxConditionDepth (o : Options) (depth : UInt64) : Options :=
  { o with maxConditionDepth := depth }

end Options
end DeviceScript
