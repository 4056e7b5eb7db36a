import DeviceScript.Compiler
import DeviceScript.Edit.Compiler
import DeviceScript.Edit.Condition
import DeviceScript.Edit.Passes
import DeviceScript.Json.Model
import DeviceScript.Primitive.Operator
import DeviceScript.Proofs.AtEach
import DeviceScript.Proofs.Command.Grouping
import DeviceScript.Proofs.Compile.Boundary
import DeviceScript.Proofs.Compile.Conditions
import DeviceScript.Proofs.Compile.NormalForm
import DeviceScript.Proofs.Compile.Positions
import DeviceScript.Proofs.Compile.Recompile
import DeviceScript.Proofs.Condition.Balance
import DeviceScript.Proofs.Condition.Fold
import DeviceScript.Proofs.Condition.Grammar
import DeviceScript.Proofs.Condition.Limit
import DeviceScript.Proofs.Condition.Meaning
import DeviceScript.Proofs.Condition.Nesting
import DeviceScript.Proofs.Condition.Outcome
import DeviceScript.Proofs.Condition.Print
import DeviceScript.Proofs.Condition.Read
import DeviceScript.Proofs.Condition.Recognition
import DeviceScript.Proofs.Edit.Compiler
import DeviceScript.Proofs.Edit.Condition
import DeviceScript.Proofs.Edit.Passes
import DeviceScript.Proofs.Edit.Refinement
import DeviceScript.Proofs.Edit.Turns
import DeviceScript.Proofs.Json.Access
import DeviceScript.Proofs.Json.Condition
import DeviceScript.Proofs.Json.Number
import DeviceScript.Proofs.Json.RoundTrip
import DeviceScript.Proofs.Json.Text
import DeviceScript.Proofs.Lexeme.Rejoin
import DeviceScript.Proofs.Lexeme.Separators
import DeviceScript.Proofs.Numeral.Digits
import DeviceScript.Proofs.Numeral.Order
import DeviceScript.Proofs.Numeral.ReadBack
import DeviceScript.Proofs.Numeral.Value
import DeviceScript.Proofs.Pass.Counting
import DeviceScript.Proofs.Pass.LongestRun
import DeviceScript.Proofs.Pass.LoopCount
import DeviceScript.Proofs.Pass.LoopOrder
import DeviceScript.Proofs.Pass.Progress
import DeviceScript.Proofs.Pass.Run
import DeviceScript.Proofs.Pass.TokenWise
import DeviceScript.Proofs.Primitive.Difference
import DeviceScript.Proofs.Primitive.Kinds
import DeviceScript.Proofs.Primitive.Order
import DeviceScript.Proofs.Primitive.Support
import DeviceScript.Proofs.Selector.Declined
import DeviceScript.Proofs.Selector.Folding
import DeviceScript.Proofs.Selector.Meaning
import DeviceScript.Proofs.Vec3.Coordinates
import DeviceScript.Proofs.Vec3.RoundTrip
import DeviceScript.Yaml.Options
