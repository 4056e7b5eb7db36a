/-
The JSON form of the model.

A choice is an object with one key, the name of the choice, or its bare name if it
has no content.  Records have their fields in the order in which they are declared
here.
-/
import DeviceScript.Json.Access
import DeviceScript.Options
import DeviceScript.Token

namespace DeviceScript

open Json (ofText ofInt ofWord ofOption ofSingle ofDouble record tagged text? bool? int32? uint64?
  binary? option? elements? record? choice? name? word?)

/-! ## Values -/

namespace Kind

def label : Kind → String
  | .boolean => "Boolean"
  | .number => "Number"
  | .text => "String"
  | .vector => "Vector"

def ofJson? (allowed : Nat) (j : Json) : Option Kind :=
  (name? allowed j).bind fun name => Kind.all.find? fun k => k.label == name

end Kind

namespace Operator

def label : Operator → String
  | .plus => "Plus"
  | .minus => "Minus"
  | .multiply => "Multiply"
  | .divide => "Divide"
  | .modulo => "Mod"
  | .not => "Not"
  | .compare => "Compare"
  | .project => "Project"
  | .dot => "DotProduct"

def ofLabel? (name : String) : Option Operator := Operator.all.find? fun o => o.label == name

def ofJson? (allowed : Nat) (j : Json) : Option Operator := (name? allowed j).bind ofLabel?

end Operator

namespace Vec3

def toJson (v : Vec3) : Json := .array [ofDouble v.x, ofDouble v.y, ofDouble v.z]

def ofJson? (allowed : Nat) (j : Json) : Option Vec3 :=
  match elements? allowed j with
  | some (_, [x, y, z]) => do
    return ⟨← binary? .double x, ← binary? .double y, ← binary? .double z⟩
  | _ => none

end Vec3

namespace Primitive

def toJson : Primitive → Json
  | .boolean b => tagged "Boolean" (.bool b)
  | .number n => tagged "Number" (ofSingle n)
  | .text s => tagged "String" (ofText s)
  | .vector v => tagged "Vector" v.toJson

def ofJson? (allowed : Nat) (j : Json) : Option Primitive :=
  match choice? allowed j with
  | some ("Boolean", some (_, c)) => (bool? c).map .boolean
  | some ("Number", some (_, c)) => (binary? .single c).map .number
  | some ("String", some (_, c)) => (text? c).map .text
  | some ("Vector", some (n, c)) => (Vec3.ofJson? n c).map .vector
  | _ => none

end Primitive

/-! ## Selectors and conditions -/

namespace Selector

def toJson (s : Selector) : Json :=
  record [("block_type", ofWord s.device), ("is_group", .bool s.isGroup),
    ("name", ofText s.name), ("index", ofOption (fun i => ofInt i.toInt) s.index)]

def ofJson? (allowed : Nat) (j : Json) : Option Selector :=
  match record? false ["block_type", "is_group", "name", "index"] allowed j with
  | some (n, [some device, some isGroup, some name, index]) => do
    return {
      device := ← word? Device n device
      isGroup := ← bool? isGroup
      name := ← text? name
      index := ← option? int32? (index.getD .null) }
  | _ => none

end Selector

namespace Condition

/-- A block condition, whatever the kind of its property. -/
def blockJson {α : Type} [Vocabulary α] (device : Device) (property : α)
    (comparison : Comparison) (value : Json) : Json :=
  record [("block_type", ofWord device), ("property", ofWord property),
    ("comparator", ofWord comparison), ("value", value)]

def toJson : Condition → Json
  | .boolean d p c v => tagged "BooleanBlock" (blockJson d p c (.bool v))
  | .text d p c v => tagged "StringBlock" (blockJson d p c (ofText v))
  | .numeric d p c v => tagged "NumericBlock" (blockJson d p c (ofSingle v))
  | .aggregate mode c selector =>
    tagged "Aggregate" (record [("mode", ofWord mode), ("condition", c.toJson),
      ("provider", tagged "Selector" selector.toJson)])
  | .not c => tagged "Not" c.toJson
  | .and a b => tagged "And" (.array [a.toJson, b.toJson])
  | .or a b => tagged "Or" (.array [a.toJson, b.toJson])

def blockOfJson? {α β : Type} [Vocabulary α] (value? : Json → Option β)
    (build : Device → α → Comparison → β → Condition) (allowed : Nat) (j : Json) :
    Option Condition :=
  match record? false ["block_type", "property", "comparator", "value"] allowed j with
  | some (n, [some device, some property, some comparison, some value]) => do
    return build (← word? Device n device) (← word? α n property)
      (← word? Comparison n comparison) (← value? value)
  | _ => none

def providerOfJson? (allowed : Nat) (j : Json) : Option Selector :=
  match choice? allowed j with
  | some ("Selector", some (n, c)) => Selector.ofJson? n c
  | _ => none

def aggregateOfJson? (inner : Json → Option Condition) (allowed : Nat) (j : Json) :
    Option Condition :=
  match record? false ["mode", "condition", "provider"] allowed j with
  | some (n, [some mode, some condition, some provider]) => do
    return .aggregate (← word? Aggregation n mode) (← inner condition)
      (← providerOfJson? n provider)
  | _ => none

def pairOfJson? (inner : Json → Option Condition) (build : Condition → Condition → Condition)
    (allowed : Nat) (j : Json) : Option Condition :=
  match elements? allowed j with
  | some (_, [a, b]) => do return build (← inner a) (← inner b)
  | _ => none

/-- A condition, given how to read the conditions one and two containers further in. -/
def ofJsonWith? (one two : Json → Option Condition) (allowed : Nat) (j : Json) :
    Option Condition :=
  match choice? allowed j with
  | some ("BooleanBlock", some (n, c)) => blockOfJson? bool? .boolean n c
  | some ("StringBlock", some (n, c)) => blockOfJson? text? .text n c
  | some ("NumericBlock", some (n, c)) => blockOfJson? (binary? .single) .numeric n c
  | some ("Aggregate", some (n, c)) => aggregateOfJson? two n c
  | some ("Not", some (_, c)) => (one c).map .not
  | some ("And", some (n, c)) => pairOfJson? two .and n c
  | some ("Or", some (n, c)) => pairOfJson? two .or n c
  | _ => none

def ofJson? : Nat → Json → Option Condition
  | 0, _ => none
  | 1, j => ofJsonWith? (ofJson? 0) (fun _ => none) 1 j
  | n + 2, j => ofJsonWith? (ofJson? (n + 1)) (ofJson? n) (n + 2) j

end Condition

/-! ## Tokens and commands -/

namespace Token

mutual

def toJson : Token → Json
  | .text s nested =>
    tagged "String" (record [("value", ofText s), ("sub_tokens", .array (listToJson nested))])
  | .device d => tagged "BlockType" (ofWord d)
  | .index i => tagged "Index" (ofInt i.toInt)
  | .selector s => tagged "Selector" s.toJson
  | .direction d => tagged "Direction" (ofWord d)
  | .number n => tagged "Numeric" (ofSingle n)
  | .boolean b => tagged "Boolean" (.bool b)
  | .property (.numeric p) => tagged "NumericProperty" (ofWord p)
  | .property (.boolean p) => tagged "BooleanProperty" (ofWord p)
  | .property (.text p) => tagged "StringProperty" (ofWord p)
  | .comparison c => tagged "Comparison" (ofWord c)
  | .aggregation m => tagged "AggregationMode" (ofWord m)
  | .condition c => tagged "Condition" c.toJson
  | .loop count =>
    tagged "Iteration" (record [("count", ofOption (fun i => ofInt i.toInt) count)])
  | .unit u => tagged "Unit" (ofWord u)
  | .control c => tagged "Control" (ofWord c)
  | .jump f => tagged "Function" (ofWord f)
  | .command kind tokens =>
    tagged "CommandReference" (tagged kind.label (.array (listToJson tokens)))
  | t => ofText t.name

def listToJson : List Token → List Json
  | [] => []
  | t :: rest => t.toJson :: listToJson rest

end

/-- The tokens without content. -/
def plain : List Token :=
  [.group, .not, .and, .or, .openParen, .closeParen, .whether, .reverse, .relative, .wait,
    .listen, .send]

def textOfJson? (inner : Json → Option Token) (allowed : Nat) (j : Json) : Option Token :=
  match record? false ["value", "sub_tokens"] allowed j with
  | some (n, [some value, some nested]) => do
    let (_, l) ← elements? n nested
    return .text (← text? value) (← l.mapM inner)
  | _ => none

def loopOfJson? (allowed : Nat) (j : Json) : Option Token :=
  match record? false ["count"] allowed j with
  | some (_, [count]) => (option? int32? (count.getD .null)).map .loop
  | _ => none

/-- A command, given how to read its tokens. -/
def commandOfJson? (inner : Json → Option Token) (allowed : Nat) (j : Json) :
    Option (CommandKind × List Token) :=
  match choice? allowed j with
  | some (name, some (n, c)) => do
    let kind ← CommandKind.all.find? fun k => k.label == name
    let (_, l) ← elements? n c
    return (kind, ← l.mapM inner)
  | _ => none

/-- The content of a token by the name of its kind. -/
def contentOfJson? (inner : Json → Option Token) (name : String) (n : Nat) (c : Json) :
    Option Token :=
  match name with
  | "String" => textOfJson? inner n c
  | "BlockType" => (word? Device n c).map .device
  | "Index" => (int32? c).map .index
  | "Selector" => (Selector.ofJson? n c).map .selector
  | "Direction" => (word? Direction n c).map .direction
  | "Numeric" => (binary? .single c).map .number
  | "Boolean" => (bool? c).map .boolean
  | "NumericProperty" => (word? NumericProperty n c).map fun p => .property (.numeric p)
  | "BooleanProperty" => (word? BooleanProperty n c).map fun p => .property (.boolean p)
  | "StringProperty" => (word? TextProperty n c).map fun p => .property (.text p)
  | "Comparison" => (word? Comparison n c).map .comparison
  | "AggregationMode" => (word? Aggregation n c).map .aggregation
  | "Condition" => (Condition.ofJson? n c).map .condition
  | "Iteration" => loopOfJson? n c
  | "Unit" => (word? MeasureUnit n c).map .unit
  | "Control" => (word? Control n c).map .control
  | "Function" => (word? Jump n c).map .jump
  | "CommandReference" => (commandOfJson? inner n c).map fun p => .command p.1 p.2
  | _ => none

/-- A token, given how to read the tokens three containers further in. -/
def ofJsonWith? (inner : Json → Option Token) (allowed : Nat) (j : Json) : Option Token :=
  match choice? allowed j with
  | none => none
  | some (name, none) => plain.find? fun t => t.name == name
  | some (name, some (_, .null)) => plain.find? fun t => t.name == name
  | some (name, some (n, c)) => contentOfJson? inner name n c

def ofJson? : Nat → Json → Option Token
  | n + 3, j => ofJsonWith? (ofJson? n) (n + 3) j
  | n, j => ofJsonWith? (fun _ => none) n j

/-- A line of tokens. -/
def lineOfJson? (allowed : Nat) (j : Json) : Option (List Token) :=
  match elements? allowed j with
  | some (n, l) => l.mapM (ofJson? n)
  | none => none

def lineToJson (tokens : List Token) : Json := .array (listToJson tokens)

end Token

namespace CommandKind

def toJson (kind : CommandKind) (tokens : List Token) : Json :=
  tagged kind.label (.array (Token.listToJson tokens))

/-- A command on its own; its tokens are two containers further in. -/
def ofJson? (allowed : Nat) (j : Json) : Option (CommandKind × List Token) :=
  Token.commandOfJson? (Token.ofJson? (allowed - 2)) allowed j

end CommandKind

/-! ## Options -/

namespace Options

def toJson (o : Options) : Json :=
  record [("functions", .array (o.functions.names.map ofText)),
    ("max_condition_depth", ofInt o.maxConditionDepth.toNat),
    ("trace_parameters", .bool o.traceTokens)]

def namesOfJson? (allowed : Nat) (j : Json) : Option NameSet :=
  match elements? allowed j with
  | some (_, l) => (l.mapM text?).map .ofList
  | none => none

/-- A field of the options, or its default. -/
def fieldOr {α : Type} (value : α) (read : Json → Option α) : Option Json → Option α
  | none => some value
  | some j => read j

/-- What is missing has its default, in an array also. -/
def ofJson? (allowed : Nat) (j : Json) : Option Options :=
  match record? true ["functions", "max_condition_depth", "trace_parameters"] allowed j with
  | some (n, [functions, depth, trace]) => do
    let start : Options := {}
    return {
      functions := ← fieldOr start.functions (namesOfJson? n) functions
      maxConditionDepth := ← fieldOr start.maxConditionDepth uint64? depth
      traceTokens := ← fieldOr start.traceTokens bool? trace }
  | _ => none

end Options
end DeviceScript
