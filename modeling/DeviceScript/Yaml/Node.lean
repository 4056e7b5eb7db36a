/-
Reading the tree of a YAML document from its symbols.

Each reader returns what it read and how many symbols that took.  A node may be left
out in many places; the symbol that follows then shows it.
-/
import DeviceScript.Yaml.Basic
import DeviceScript.Yaml.Scanner

namespace DeviceScript
namespace Yaml

/-- Whether the first of some symbols is among `others`. -/
def ahead (others : List Symbol) (symbols : List Symbol) : Bool :=
  symbols.head?.any others.contains

/-! ## Properties -/

/-- What stands before a node. -/
structure Properties where
  anchor : Option Nat := none
  tag : Option String := none
  taken : Nat := 0

/-- The tag that is written with a handle. -/
def fullTag? (handles : List (String × String)) (handle suffix : String) : Option String :=
  if handle = "" then some suffix else (handles.lookup handle).map (· ++ suffix)

/-- An anchor and a tag in either order, both of which may be left out. -/
def properties? (handles : List (String × String)) : List Symbol → Option Properties
  | .anchor number :: .tag handle suffix :: _ =>
    (fullTag? handles handle suffix).map fun tag => ⟨some number, some tag, 2⟩
  | .anchor number :: _ => some ⟨some number, none, 1⟩
  | .tag handle suffix :: .anchor number :: _ =>
    (fullTag? handles handle suffix).map fun tag => ⟨some number, some tag, 2⟩
  | .tag handle suffix :: _ =>
    (fullTag? handles handle suffix).map fun tag => ⟨none, some tag, 1⟩
  | _ => some {}

/-- The tag of a scalar, for which an exclamation mark alone says nothing. -/
def Properties.scalarTag (p : Properties) : Option String := p.tag.filter (· != "!")

def Properties.attach (p : Properties) (node : Yaml) : Yaml :=
  match p.anchor with
  | some number => .anchored number node
  | none => node

/-! ## Nodes -/

/-- Where a node stands. -/
structure Context where
  /-- What the handles of tags stand for. -/
  handles : List (String × String)
  /-- Whether the node may be a block collection. -/
  block : Bool := false
  /-- Whether the node may be a block sequence in the column of its key. -/
  unindented : Bool := false

/-- Inside of a flow collection. -/
def Context.flow (context : Context) : Context := ⟨context.handles, false, false⟩

/-- Behind the dash of a block sequence. -/
def Context.element (context : Context) : Context := ⟨context.handles, true, false⟩

/-- As a key or a value of a block mapping. -/
def Context.field (context : Context) : Context := ⟨context.handles, true, true⟩

mutual

/-- A node, or nothing before one of the symbols in `absent`. -/
def nodeUnless? (absent : List Symbol) (context : Context) (symbols : List Symbol) :
    Option (Yaml × Nat) :=
  if ahead absent symbols then some (empty, 0) else node? context symbols
termination_by 4 * symbols.length + 3
decreasing_by omega

def node? (context : Context) (symbols : List Symbol) : Option (Yaml × Nat) :=
  match symbols.head? with
  | some (.alias number) => some (.alias number, 1)
  | _ => do
    let p ← properties? context.handles symbols
    let (node, n) ← content? context p (symbols.drop p.taken)
    return (p.attach node, p.taken + n)
termination_by 4 * symbols.length + 2
decreasing_by
  simp only [List.length_drop]
  omega

/-- A node behind its properties, without which it may not be left out. -/
def content? (context : Context) (p : Properties) (symbols : List Symbol) : Option (Yaml × Nat) :=
  let leftOut := if p.taken = 0 then none else some (Yaml.scalar .plain p.scalarTag "", 0)
  match symbols with
  | .scalar style text :: _ => some (.scalar style p.scalarTag text, 1)
  | .openBracket :: rest => do
    let (elements, n) ← flowElements? context.flow rest
    return (.sequence elements, n + 1)
  | .openBrace :: rest => do
    let (fields, n) ← flowFields? context.flow rest
    return (.mapping fields, n + 1)
  | .blockSequence :: rest =>
    if context.block then do
      let (elements, n) ← blockElements? context.element rest
      return (.sequence elements, n + 1)
    else leftOut
  | .blockMapping :: rest =>
    if context.block then do
      let (fields, n) ← blockFields? context.field rest
      return (.mapping fields, n + 1)
    else leftOut
  | .entry :: rest =>
    if context.unindented then do
      let (elements, n) ← unindentedElements? context.element (.entry :: rest)
      return (.sequence elements, n)
    else leftOut
  | _ => leftOut
termination_by 4 * symbols.length + 1
decreasing_by all_goals simp only [List.length_cons]; omega

/-- The elements of a block sequence up to its end. -/
def blockElements? (context : Context) (symbols : List Symbol) : Option (List Yaml × Nat) :=
  match symbols with
  | .entry :: rest => do
    let (element, n) ← nodeUnless? [.entry, .blockEnd] context rest
    let (elements, m) ← blockElements? context (rest.drop n)
    return (element :: elements, 1 + n + m)
  | .blockEnd :: _ => some ([], 1)
  | _ => none
termination_by 4 * symbols.length
decreasing_by all_goals simp only [List.length_cons, List.length_drop]; omega

/-- The elements of a block sequence in the column of its key, which has no end of its
own. -/
def unindentedElements? (context : Context) (symbols : List Symbol) : Option (List Yaml × Nat) :=
  match symbols with
  | .entry :: rest => do
    let (element, n) ← nodeUnless? [.entry, .key, .value, .blockEnd] context rest
    let (elements, m) ← unindentedElements? context (rest.drop n)
    return (element :: elements, 1 + n + m)
  | _ => some ([], 0)
termination_by 4 * symbols.length
decreasing_by all_goals simp only [List.length_cons, List.length_drop]; omega

/-- The value of a field, which may be left out with its colon. -/
def fieldValue? (absent : List Symbol) (context : Context) (symbols : List Symbol) :
    Option (Yaml × Nat) :=
  match symbols with
  | .value :: rest => do
    let (value, n) ← nodeUnless? absent context rest
    return (value, n + 1)
  | _ => some (empty, 0)
termination_by 4 * symbols.length
decreasing_by simp only [List.length_cons]; omega

/-- The fields of a block mapping up to its end. -/
def blockFields? (context : Context) (symbols : List Symbol) :
    Option (List (Yaml × Yaml) × Nat) :=
  match symbols with
  | .key :: rest => do
    let (key, n) ← nodeUnless? [.key, .value, .blockEnd] context rest
    let (value, m) ← fieldValue? [.key, .value, .blockEnd] context (rest.drop n)
    let (fields, k) ← blockFields? context (rest.drop (n + m))
    return ((key, value) :: fields, 1 + n + m + k)
  | .blockEnd :: _ => some ([], 1)
  | _ => none
termination_by 4 * symbols.length
decreasing_by all_goals simp only [List.length_cons, List.length_drop]; omega

/-- An element of a flow sequence.  A field is a mapping of its own; if its key is left
out, the symbol behind the key is passed over. -/
def flowElement? (context : Context) (symbols : List Symbol) : Option (Yaml × Nat) :=
  match symbols with
  | .key :: rest => do
    let (key, n) ←
      if ahead [.value, .comma, .closeBracket] rest then some (empty, 1) else node? context rest
    let (value, m) ← fieldValue? [.comma, .closeBracket] context (rest.drop n)
    return (.mapping [(key, value)], 1 + n + m)
  | other => node? context other
termination_by 4 * symbols.length + 3
decreasing_by
  · simp only [List.length_cons, List.length_drop]; omega
  · simp only [List.length_cons]; omega
  · omega

/-- The elements of a flow sequence up to its end. -/
def flowElements? (context : Context) (symbols : List Symbol) : Option (List Yaml × Nat) :=
  if ahead [.closeBracket] symbols then some ([], 1)
  else do
    let (element, n) ← flowElement? context symbols
    match _h : symbols.drop n with
    | .comma :: rest => do
      let (elements, m) ← flowElements? context rest
      return (element :: elements, n + 1 + m)
    | .closeBracket :: _ => return ([element], n + 1)
    | _ => none
termination_by 4 * symbols.length + 4
decreasing_by
  · omega
  · have h := congrArg List.length _h
    simp only [List.length_drop, List.length_cons] at h
    omega

/-- A field of a flow mapping. -/
def flowField? (context : Context) (symbols : List Symbol) : Option ((Yaml × Yaml) × Nat) :=
  match symbols with
  | .key :: rest => do
    let (key, n) ← nodeUnless? [.value, .comma, .closeBrace] context rest
    let (value, m) ← fieldValue? [.comma, .closeBrace] context (rest.drop n)
    return ((key, value), 1 + n + m)
  | other => do
    let (key, n) ← node? context other
    return ((key, empty), n)
termination_by 4 * symbols.length + 3
decreasing_by
  · simp only [List.length_cons]; omega
  · simp only [List.length_cons, List.length_drop]; omega
  · omega

/-- The fields of a flow mapping up to its end. -/
def flowFields? (context : Context) (symbols : List Symbol) :
    Option (List (Yaml × Yaml) × Nat) :=
  if ahead [.closeBrace] symbols then some ([], 1)
  else do
    let (field, n) ← flowField? context symbols
    match _h : symbols.drop n with
    | .comma :: rest => do
      let (fields, m) ← flowFields? context rest
      return (field :: fields, n + 1 + m)
    | .closeBrace :: _ => return ([field], n + 1)
    | _ => none
termination_by 4 * symbols.length + 4
decreasing_by
  · omega
  · have h := congrArg List.length _h
    simp only [List.length_drop, List.length_cons] at h
    omega

end

/-! ## Documents -/

/-- The handles that every document knows. -/
def commonHandles : List (String × String) := [("!", "!"), ("!!", "tag:yaml.org,2002:")]

/-- The handles that the directives of a document give, and the symbols behind them.
There is at most one version, and each handle is given at most once. -/
def directives? (versioned : Bool) (handles : List (String × String)) :
    List Symbol → Option (List (String × String) × List Symbol)
  | .version major minor :: rest =>
    if !versioned && major = 1 && (minor = 1 || minor = 2) then directives? true handles rest
    else none
  | .handle name meaning :: rest =>
    if (handles.lookup name).isNone then directives? versioned (handles ++ [(name, meaning)]) rest
    else none
  | rest => some (handles, rest)

/-- Whether a symbol starts a document or belongs to its directives. -/
def Symbol.isPreamble : Symbol → Bool
  | .version _ _ => true
  | .handle _ _ => true
  | .documentStart => true
  | _ => false

/-- The root of a document, and the symbols behind it.  Behind directives the start of
the document is written, and then the root may be left out. -/
def root? (symbols : List Symbol) : Option (Yaml × List Symbol) := do
  if symbols.head?.any Symbol.isPreamble then do
    let (handles, rest) ← directives? false [] symbols
    match rest with
    | .documentStart :: body =>
      if body.head?.all fun symbol => symbol.isPreamble || symbol = .documentEnd then
        return (empty, body)
      else do
        let (node, n) ← node? ⟨handles ++ commonHandles, true, false⟩ body
        return (node, body.drop n)
    | _ => none
  else do
    let (node, n) ← node? ⟨commonHandles, true, false⟩ symbols
    return (node, symbols.drop n)

/-- The root of the one document of a text.  A text without symbols is an empty one. -/
def read? (text : String) : Option Yaml := do
  let symbols ← symbols? text.toList
  if symbols = [] then return empty
  else do
    let (root, rest) ← root? symbols
    if rest.all (· = .documentEnd) then return root else none

end Yaml
end DeviceScript
