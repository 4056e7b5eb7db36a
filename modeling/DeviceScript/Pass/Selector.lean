/-
The selector pass: names with a device become selectors.

A selector is a run of group, text, device and index tokens with one text and at
most one device.  If the run names no device, the last device among the tokens
inside its text stands in; if there is none there either, the run is no selector
and is left alone.
-/
import DeviceScript.Pass.Basic
import DeviceScript.Pass.Scan

namespace DeviceScript

/-- What a run of tokens has said about a selector so far. -/
structure SelectorRun where
  isGroup : Bool := false
  /-- The text, and the tokens inside it. -/
  name : Option (String × List Token) := none
  device : Option Device := none
  index : Option Int32 := none

namespace SelectorRun

/-- Takes the next token of the run.  A second text or device ends the run, and a
later index replaces an earlier one. -/
def take (r : SelectorRun) : Token → Option SelectorRun
  | .group => some { r with isGroup := true }
  | .text s nested => if r.name.isSome then none else some { r with name := some (s, nested) }
  | .device d => if r.device.isSome then none else some { r with device := some d }
  | .index i => some { r with index := some i }
  | _ => none

/-- The selector that a run with the given text stands for.  The tokens inside the
text speak only for a run without a device of its own. -/
def selector? (r : SelectorRun) (name : String) (nested : List Token) : Option Selector :=
  match r.device with
  | some d => some ⟨d, r.isGroup, name, r.index⟩
  | none =>
    (nested.reverse.findSome? Token.device?).map fun d =>
      ⟨d, r.isGroup || nested.any Token.isGroup, name, r.index⟩

end SelectorRun

/-- The run at the start of a list of tokens: how many tokens it has, and its
selector if it is one.  The position is only for the error. -/
def foldSelector (tokens : List Token) (position : Nat) :
    Except CompileError (Nat × Option Selector) :=
  let (run, count) := scan SelectorRun.take {} tokens
  match run.name with
  | none => .error (.selectorWithoutName position)
  | some (name, nested) => .ok (count, run.selector? name nested)

namespace Pass

def startsSelector : Token → Bool
  | .group | .text .. | .device _ | .index _ => true
  | _ => false

def selector : Pass where
  starts := startsSelector
  step before t after := do
    let (count, found) ← .ofExcept (foldSelector (t :: after) before.length)
    match found with
    | none => return { emit := [t] }
    | some s => do
      .emit (.selectorFolded before.length s.name)
      return { emit := [.selector s], skip := count - 1 }

end Pass
end DeviceScript
