/-
Options from a YAML document.

Every option may be left out, and keys that are no options are passed over.  A
number or a truth value has to be plain, or else a literal block that is tagged as
such, while the name of a function may be any scalar.  An alias may stand for any of
them.
-/
import DeviceScript.Options
import DeviceScript.Yaml.Node

namespace DeviceScript
namespace Yaml

/-- The text of a scalar of any style. -/
def text? : Yaml → Option String
  | .scalar _ _ text => some text
  | _ => none

/-- The text of a plain scalar, or of a literal block with the given tag. -/
def unquoted? (tag : String) : Yaml → Option String
  | .scalar style given text =>
    if style = .plain || (style = .literal && given = some tag) then some text else none
  | _ => none

def bool? (y : Yaml) : Option Bool :=
  match unquoted? "tag:yaml.org,2002:bool" y with
  | some s =>
    if ["true", "True", "TRUE"].contains s then some true
    else if ["false", "False", "FALSE"].contains s then some false
    else none
  | none => none

/-- A number in decimal or behind the mark of its base.  A decimal has no zeros in front. -/
def natural? : List Char → Option Nat
  | '0' :: 'x' :: digits => digits? 16 digits
  | '0' :: 'o' :: digits => digits? 8 digits
  | '0' :: 'b' :: digits => digits? 2 digits
  | ['0'] => some 0
  | '0' :: _ => none
  | digits => digits? 10 digits

def uint64? (y : Yaml) : Option UInt64 := do
  let s ← unquoted? "tag:yaml.org,2002:int" y
  let n ← natural? (match s.toList with
    | '+' :: rest => rest
    | rest => rest)
  if n < 2 ^ 64 then return UInt64.ofNat n else none

/-- A set of names; one that is left empty has none. -/
def nameSet? (anchored : List (Nat × Yaml)) : Yaml → Option NameSet
  | .sequence elements => (elements.mapM fun y => text? (resolve anchored y)).map .ofList
  | .scalar .plain _ "" => some .empty
  | _ => none

/-- The value of an option that stands at most once, or its default. -/
def optionOr {α : Type} (name : String) (absent : α) (read : Yaml → Option α)
    (fields : List (String × Yaml)) : Option α :=
  match fields.filter fun p => p.1 == name with
  | [] => some absent
  | [p] => read p.2
  | _ => none

end Yaml

namespace Options

open Yaml in
def ofFields? (anchored : List (Nat × Yaml)) (fields : List (String × Yaml)) : Option Options := do
  let start : Options := {}
  return {
    functions := ← optionOr "functions" start.functions (nameSet? anchored) fields
    maxConditionDepth := ← optionOr "max_condition_depth" start.maxConditionDepth uint64? fields
    traceTokens := ← optionOr "trace_parameters" start.traceTokens bool? fields }

/-- The options that a document gives.  An empty document gives the defaults. -/
def ofYaml? (text : String) : Option Options := do
  let root ← Yaml.read? text
  let resolve := Yaml.resolve root.anchors
  match resolve root with
  | .mapping fields =>
    let named ← fields.mapM fun p => (Yaml.text? (resolve p.1)).map fun key => (key, resolve p.2)
    ofFields? root.anchors named
  | .scalar .plain _ "" => return {}
  | _ => none

end Options
end DeviceScript
