/-
The passes that work in place, but for the one on conditions.
-/
import DeviceScript.Edit.Basic
import DeviceScript.Pass.Command
import DeviceScript.Pass.Loop
import DeviceScript.Pass.RunArgument
import DeviceScript.Pass.Selector

namespace DeviceScript

/-- The token right before an index; at the start of the line there is none. -/
def Edit.tokenBefore : Nat → Edit (Option Token)
  | 0 => return none
  | before + 1 => return some (← token before)

namespace Editor

open Edit

/-- A run that is no selector is left alone, and the pass goes on behind its first
token. -/
def selector : Editor where
  starts := Pass.startsSelector
  convertNext index := do
    let run ← slice index (← length)
    let (count, found) ← ofLogged (.ofExcept (foldSelector run index))
    if let some s := found then
      emit (.selectorFolded index s.name)
      let _ ← splice index (index + count) [.selector s]
    return index + 1

def function (functions : NameSet) : Editor where
  starts := Pass.startsText
  convertNext index := do
    if Pass.namesFunction functions (← token index) then
      emit (.functionTagged index)
      insert index (.jump .goto)
      return index + 2
    else return index + 1

def runArgument (relex : Relexer) : Editor where
  starts := Pass.startsText
  convertNext index := do
    match Pass.runText? (← token index) with
    | none => return index + 1
    | some s =>
      emit (.runFound index)
      let arguments := Pass.argumentText relex s
      emit (.runArguments arguments)
      let _ ← splice index (index + 1) [.property (.text .run), .text arguments []]
      return index + 2

/-- The loop moves to the place of its number, so the index behind it is the one at
which it stood. -/
def loop : Editor where
  starts := Pass.startsLoop
  convertNext index := do
    match ← tokenBefore index with
    | some (.number value) =>
      let t ← token index
      let _ ← splice index (index + 1) [Pass.withCount value.toInt32 t]
      emit (.loopBound value.toInt32)
      let _ ← remove (index - 1)
      return index
    | other => fail (.loopWithoutNumber index (Pass.nameBehind other.toList))

def command : Editor where
  starts := Token.isActionable
  convertNext index := do
    let run := (← slice index (← length)).takeWhile Token.isActionable
    let last := index + run.length
    match Pass.commandKind? (← slice index last) with
    | none => fail (.unknownCommand index)
    | some k =>
      let tokens ← splice index last []
      emit (.commandGrouped run.length index k)
      insert index (.command k tokens)
      return index + 1

end Editor
end DeviceScript
