/-
The compiler in place.

Whatever line it is given, the compiler has a result: none of its passes reaches outside
of the line as it is by then, and each of them comes to the end of it.  It leaves the
line that the passes make when they hand out new lines.
-/
import DeviceScript.Edit.Compiler
import DeviceScript.Proofs.Edit.Condition
import DeviceScript.Proofs.Edit.Passes
import DeviceScript.Proofs.Edit.Turns

namespace DeviceScript
namespace Compiler

open Edit

theorem editor_implements (c : Compiler) (turns : Nat) (kind : PassKind) :
    (c.editor turns kind).Implements (c.pass kind) turns := by
  cases kind with
  | selector => exact Editor.selector_implements
  | function => exact Editor.function_implements _
  | runArgument => exact Editor.runArgument_implements _
  | loop => exact Editor.loop_implements
  | condition => exact Editor.condition_implements _ _ turns
  | command => exact Editor.command_implements

theorem processPass_refines (c : Compiler) (kind : PassKind) (line : List Token) :
    (c.processPass kind).Refines line (c.runPass line kind) fun out => ((), out) := by
  refine (does_length line).refines ?_
  refine (refines_emit _).bind fun _ _ => ?_
  have hl : line.length < line.length + 1 := Nat.lt_succ_self _
  refine ((c.editor_implements _ kind).process hl).bind fun out _ => ?_
  by_cases ht : c.options.traceTokens = true
  · rw [if_pos ht]
    dsimp only
    rw [if_pos ht]
    have hrest : (rest 0).Does out out out := does_rest_append List.length_nil
    refine hrest.refines ?_
    exact (refines_emit _).returning fun _ _ => refines_pure rfl
  · rw [if_neg ht]
    dsimp only
    rw [if_neg ht]
    exact refines_pure rfl

theorem forM_processPass_refines (c : Compiler) (kinds : List PassKind) (line : List Token) :
    (kinds.forM c.processPass).Refines line (kinds.foldlM c.runPass line) fun out => ((), out) := by
  induction kinds generalizing line with
  | nil => exact refines_pure rfl
  | cons kind kinds ih =>
    exact (c.processPass_refines kind line).bind fun out _ => ih out

/-- The compiler in place does what the compiler does. -/
theorem process_refines (c : Compiler) (line : List Token) :
    c.process.Refines line (c.compile line) fun out => ((), out) := by
  refine (c.forM_processPass_refines PassKind.all line).bind fun out _ => ?_
  refine (does_length out).refines ?_
  exact (refines_emit _).returning fun _ _ => refines_pure rfl

/-! ## Progress -/

/-- A step of a pass stays inside of the line, and where it does not fail it goes on inside
of the line with less to read, and leaves what it has not read and what it does not reach
back to.  A pass comes to the end of the line in at most one turn for each token, and never
leaves the line. -/
theorem editor_progress (c : Compiler) (kind : PassKind) (line : List Token)
    (events : List Event) :
    (∀ index, index < line.length → ∃ result work,
      (∀ turns, line.length < turns →
        (c.editor turns kind).convertNext index ⟨line, events⟩ = some (result, work)) ∧
      ∀ cursor, result = .ok cursor → Advances kind.reach line index work.line cursor) ∧
    ∃ result work, ∀ turns, line.length < turns →
      (c.editor turns kind).process turns ⟨line, events⟩ = some (result, work) := by
  have himplements := c.editor_implements (line.length + 1) kind
  constructor
  · intro index hi
    have hstep := himplements.convertNext_within hi (Nat.le_succ _)
    obtain ⟨result, work, hr⟩ := hstep.exists_result events
    refine ⟨result, work, ?_, ?_⟩
    · intro turns hturns
      exact ((c.editor_le kind hturns).convertNext index).result hr
    · rintro cursor rfl
      cases hs : ((c.pass kind).stepWithin line index hi).result with
      | error e =>
        obtain ⟨left, he⟩ := hstep.error hs events
        cases hr.symm.trans he
      | ok r =>
        cases hr.symm.trans (hstep.ok hs events)
        exact (c.pass_inside kind).advances hs
  · obtain ⟨result, work, hr⟩ := (himplements.process (Nat.lt_succ_self _)).exists_result events
    refine ⟨result, work, ?_⟩
    intro turns hturns
    exact ((c.editor_le kind hturns).processFrom hturns 0).result hr

/-- The loop pass goes on at the index at which it made its step. -/
theorem editor_progress_loop :
    let two : Single := .ofInt .single 2
    let line : List Token := [.wait, .number two, .loop none, .send]
    let out : List Token := [.wait, .loop (some two.toInt32), .send]
    let made : Work := ⟨out, [.loopBound two.toInt32]⟩
    line.length < 5 ∧ 2 < line.length ∧
      (({} : Compiler).editor 5 .loop).convertNext 2 ⟨line, []⟩ = some (.ok 2, made) ∧
      Advances 1 line 2 out 2 := by
  intro two line out made
  have hturns : line.length < 5 := by decide
  have hi : 2 < line.length := by decide
  have hmade : (({} : Compiler).editor 5 .loop).convertNext 2 ⟨line, []⟩ = some (.ok 2, made) :=
    rfl
  obtain ⟨result, work, hrun, hadvances⟩ := (editor_progress {} .loop line []).1 2 hi
  obtain ⟨rfl, rfl⟩ := Prod.mk.inj (Option.some.inj (hmade.symm.trans (hrun 5 hturns)))
  exact ⟨hturns, hi, hmade, hadvances 2 rfl⟩

end Compiler
end DeviceScript
