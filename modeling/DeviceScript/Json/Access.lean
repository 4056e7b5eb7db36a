/-
Taking JSON documents apart.

Reading a value of a known type is strict where the type is concerned: each
declared field is there once, a choice has exactly one key, and containers nest to
a limit.  It is lenient where it is not: fields that are not declared are passed
over whatever they hold.  A record may also be an array of its fields in order,
and a choice without content may be its bare name.

The limit on nesting is an argument that goes down by one with each container; a
reader hands the rest on to what it reads inside.
-/
import DeviceScript.Json.Read
import DeviceScript.Vocabulary

namespace DeviceScript
namespace Json

/-- How deep containers may nest in a value that is read. -/
def maxNesting : Nat := 127

/-! ## Building -/

def ofText (s : String) : Json := .string (Glyph.ofText s)

def ofInt (i : Int) : Json := .number (.ofInt i)

def record (fields : List (String × Json)) : Json :=
  .object (fields.map fun p => (Glyph.ofText p.1, p.2))

/-- A choice with its content. -/
def tagged (name : String) (content : Json) : Json := record [(name, content)]

def ofWord {α : Type} [Vocabulary α] (a : α) : Json := ofText (Vocabulary.tag a)

def ofOption {α : Type} (write : α → Json) : Option α → Json
  | none => .null
  | some a => write a

/-- A number, or null for one that JSON cannot write. -/
def ofBinary {f : Numeral.Format} (layout : Number.Layout) (x : Numeral.Binary f) : Json :=
  match Number.ofBinary? layout x with
  | some n => .number n
  | none => .null

def ofSingle (x : Single) : Json := ofBinary .single x

def ofDouble (x : Double) : Json := ofBinary .double x

/-! ## Scalars -/

def text? : Json → Option String
  | .string s => Glyph.text? s
  | _ => none

def bool? : Json → Option Bool
  | .bool b => some b
  | _ => none

def integer? : Json → Option Int
  | .number n => n.integer?
  | _ => none

def int32? (j : Json) : Option Int32 := do
  let i ← j.integer?
  if -(2 ^ 31) ≤ i ∧ i < 2 ^ 31 then return Int32.ofInt i else none

def uint64? (j : Json) : Option UInt64 := do
  let i ← j.integer?
  if 0 ≤ i then return UInt64.ofNat i.toNat else none

def binary? (f : Numeral.Format) : Json → Option (Numeral.Binary f)
  | .number n => n.toBinary? f
  | _ => none

def option? {α : Type} (read : Json → Option α) : Json → Option (Option α)
  | .null => some none
  | j => (read j).map some

/-! ## Containers -/

/-- The elements of an array, with the nesting that is left inside. -/
def elements? : Nat → Json → Option (Nat × List Json)
  | allowed + 1, .array l => some (allowed, l)
  | _, _ => none

/-- The value of a field that stands at most once. -/
def once? (name : String) (fields : List (String × Json)) : Option (Option Json) :=
  match fields.filter fun p => p.1 == name with
  | [] => some none
  | [p] => some (some p.2)
  | _ => none

/-- The values of the declared fields of a record.  As an array the record has all of
them, unless `padded` says that those at its end may be missing. -/
def record? (padded : Bool) (names : List String) : Nat → Json → Option (Nat × List (Option Json))
  | allowed + 1, .array l =>
    if l.length = names.length ∨ (padded = true ∧ l.length < names.length) then
      some (allowed, l.map some ++ List.replicate (names.length - l.length) none)
    else none
  | allowed + 1, .object fields => do
    let fields ← fields.mapM fun p => (Glyph.text? p.1).map fun k => (k, p.2)
    let values ← names.mapM fun name => once? name fields
    return (allowed, values)
  | _, _ => none

/-- The name of a choice, and its content with the nesting that is left inside. -/
def choice? : Nat → Json → Option (String × Option (Nat × Json))
  | _, .string s => (Glyph.text? s).map fun name => (name, none)
  | allowed + 1, .object [(key, content)] =>
    (Glyph.text? key).map fun name => (name, some (allowed, content))
  | _, _ => none

/-- The name of a choice without content. -/
def name? (allowed : Nat) (j : Json) : Option String :=
  match choice? allowed j with
  | some (name, none) => some name
  | some (name, some (_, .null)) => some name
  | _ => none

def word? (α : Type) [Vocabulary α] (allowed : Nat) (j : Json) : Option α :=
  (name? allowed j).bind Vocabulary.ofTag?

/-- The value of a given type that a text spells. -/
def readAs? {α : Type} (decode : Nat → Json → Option α) (s : String) : Option α :=
  (read? s.toList).bind (decode maxNesting)

end Json
end DeviceScript
