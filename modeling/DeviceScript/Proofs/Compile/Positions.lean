/-
Where errors stand.

A step of a pass that can fail puts in no more tokens than it takes away.  So what is behind
the cursor and what is ahead of it are together no longer than the line that the pass was
handed, and a position at the cursor lies in that line.  The condition pass also counts on from
its cursor, by tokens while it reads and by pieces while it folds, but there are no more pieces
than tokens, and folding counts no piece twice.  Only a selector can be missed at the very end.
-/
import DeviceScript.Proofs.Condition.Meaning
import DeviceScript.Proofs.Condition.Outcome
import DeviceScript.Proofs.Pass.Progress

namespace DeviceScript

namespace CompileError

/-- Where in its line the error stands, if it says so. -/
def position? : CompileError → Option Nat
  | .selectorWithoutName p | .loopWithoutNumber p _ | .unknownCommand p
  | .conditionWithoutSelector p | .conditionWithoutValue p | .mismatchedParenthesis p
  | .invalidConditionToken p _ => some p
  | .conditionTooDeep _ | .unknownDevice _ | .value _ => none

/-- The position of the error, if it has one, lies from `first` on and in front of `last`, or at
`last` where it is a selector that is missing. -/
def Between (e : CompileError) (first last : Nat) : Prop :=
  ∀ p, e.position? = some p →
    first ≤ p ∧ p ≤ last ∧ (e ≠ .conditionWithoutSelector p → p < last)

variable {e : CompileError} {first last : Nat}

theorem between_of_none (h : e.position? = none) : e.Between first last := by
  intro p hp
  rw [h] at hp
  cases hp

theorem between_of_lt {p : Nat} (h : e.position? = some p) (hfirst : first ≤ p)
    (hlast : p < last) : e.Between first last := by
  intro q hq
  obtain rfl := Option.some.inj (h.symm.trans hq)
  exact ⟨hfirst, Nat.le_of_lt hlast, fun _ => hlast⟩

theorem Between.mono {first' last' : Nat} (h : e.Between first last) (hfirst : first' ≤ first)
    (hlast : last ≤ last') : e.Between first' last' := by
  intro p hp
  obtain ⟨hlow, hhigh, hstrict⟩ := h p hp
  refine ⟨by omega, by omega, fun hne => ?_⟩
  have := hstrict hne
  omega

end CompileError

/-! ## Passes that can fail -/

namespace Pass

/-- No step puts in more tokens than it takes away, and a step that fails does so at a position
from `first` on that lies in its line. -/
structure Locates (p : Pass) (first : Nat) : Prop where
  shrinks : ∀ {before t after s}, (p.step before t after).result = .ok s →
    (s.behind before).length + (s.ahead after).length ≤ before.length + 1 + after.length
  fails : ∀ {before t after e}, (p.step before t after).result = .error e →
    e.Between first (before.length + 1 + after.length)

variable {p : Pass} {first : Nat}

theorem Locates.length_le_of_reaches (hp : p.Locates first)
    {before ahead behind after : List Token} (h : p.Reaches before ahead behind after) :
    behind.length + after.length ≤ before.length + ahead.length := by
  induction h with
  | start => exact Nat.le_refl _
  | keep _ _ ih =>
    rw [List.length_cons] at ih ⊢
    omega
  | step _ _ hs ih =>
    have hle := hp.shrinks hs
    rw [List.length_cons] at ih
    omega

theorem Locates.run_eq_error (hp : p.Locates first) {line : List Token} {e : CompileError}
    (h : (p.run line).result = .error e) : e.Between first line.length := by
  obtain ⟨behind, t, after, hr, -, hs⟩ := Reaches.start.exists_of_eq_error h
  have hle := hp.length_le_of_reaches hr
  rw [List.length_nil, List.length_cons] at hle
  exact (hp.fails hs).mono (Nat.le_refl first) (by omega)

theorem between_here {before after : List Token} {e : CompileError}
    (h : e.position? = some before.length) : e.Between 0 (before.length + 1 + after.length) :=
  CompileError.between_of_lt h (Nat.zero_le _) (by omega)

theorem selector_locates : selector.Locates 0 where
  shrinks h := by
    obtain ⟨_, _, rfl⟩ | ⟨count, _, _, rfl⟩ := selector_step_eq_ok.mp h
    · simp [Step.behind, Step.ahead]
    · simp [Step.behind, Step.ahead]
  fails h := by
    rw [selector_step_eq_error h]
    exact between_here rfl

theorem loop_locates : loop.Locates 0 where
  shrinks h := by
    obtain ⟨value, rest, rfl, rfl⟩ := loop_step_eq_ok.mp h
    simp [Step.behind, Step.ahead]
  fails h := by
    rw [loop_step_eq_error h]
    exact between_here rfl

theorem command_locates : command.Locates 0 where
  shrinks h := by
    obtain ⟨_, _, rfl⟩ := command_step_eq_ok.mp h
    simp [Step.behind, Step.ahead]
  fails h := by
    rw [command_step_eq_error h]
    exact between_here rfl

end Pass

/-! ## Positions while a condition is read -/

namespace Piece

open ConditionRun

variable {registry : Registry} {position : Nat} {tokens : List Token} {e : CompileError}

/-- A run that has a selector has tokens, so what else it lacks is missed in front of its end. -/
theorem outcome_between {run : List Token}
    (h : Outcome registry position (.ofTokens run) (.error e)) :
    e.Between position (position + run.length) := by
  have htokens : ∀ {s}, (ofTokens run).selector = some s → position < position + run.length := by
    intro s hs
    cases run with
    | nil => cases hs
    | cons t run =>
      rw [List.length_cons]
      omega
  cases h with
  | noSelector _ =>
    intro q hq
    cases hq
    exact ⟨Nat.le_refl position, Nat.le_add_right position _, fun hne => absurd rfl hne⟩
  | bare hs _ _ => exact CompileError.between_of_lt rfl (Nat.le_refl position) (htokens hs)
  | noHandler _ _ _ => exact CompileError.between_of_none rfl
  | noLiteral hs _ _ _ _ => exact CompileError.between_of_lt rfl (Nat.le_refl position) (htokens hs)
  | uncastable _ _ _ _ _ => exact CompileError.between_of_none rfl

theorem readOperand_between (h : (readOperand registry position tokens).result = .error e) :
    e.Between position (position + tokens.length) := by
  obtain ⟨run, hrun, herror, -⟩ := readOperand_outcome registry position tokens
  have hopened := length_leading_le opening? tokens
  have hfront := hrun.front.length_le
  rw [List.length_drop] at hfront
  exact (outcome_between ((herror e).mp h)).mono (Nat.le_add_right position _) (by omega)

theorem read_between {registry : Registry} {position : Nat} {tokens : List Token}
    {e : CompileError} (h : (read registry position tokens).result = .error e) :
    e.Between position (position + tokens.length) := by
  obtain ho | ⟨here, taken, t, next, rest, ho, hd, hr⟩ := read_error_cases h
  · exact readOperand_between ho
  · obtain ⟨-, span, more, -, hn, hs, -⟩ := readOperand_sound ho
    have hlen := hs.length_le
    have hmore := congrArg List.length hd
    refine (read_between hr).mono (by omega) ?_
    simp only [List.length_drop, List.length_cons] at hmore ⊢
    omega
termination_by tokens.length
decreasing_by
  have hmore := congrArg List.length hd
  simp only [List.length_drop, List.length_cons] at hmore ⊢
  omega

/-! ## Positions while pieces are folded -/

mutual

/-- A parenthesis that is not closed stands among the pieces. -/
theorem foldOperand_mismatched {limit depth position p : Nat} {pieces : List Piece}
    (h : (foldOperand limit depth position pieces).result = .error (.mismatchedParenthesis p)) :
    position ≤ p ∧ p < position + pieces.length := by
  obtain ⟨-, he⟩ | ⟨rest, hp, hr⟩ | ⟨rest, hp, hr⟩ | ⟨rest, c, m, hp, -, -, he⟩ | ⟨-, found, he⟩ :=
    foldOperand_error_cases h
  · cases he
  · have hle := foldOperand_mismatched hr
    rw [hp, List.length_cons]
    omega
  · have hle := foldChain_mismatched hr
    rw [hp, List.length_cons]
    omega
  · cases he
    rw [hp, List.length_cons]
    omega
  · cases he
termination_by (pieces.length, 0)
decreasing_by
  all_goals
    subst_vars
    exact Prod.Lex.left _ _ (Nat.lt_succ_self _)

theorem foldChain_mismatched {limit depth position p : Nat} {pieces : List Piece}
    (h : (foldChain limit depth position pieces).result = .error (.mismatchedParenthesis p)) :
    position ≤ p ∧ p < position + pieces.length := by
  obtain ho | ⟨first, n, ho, hl⟩ := foldChain_error_cases h
  · exact foldOperand_mismatched ho
  · obtain ⟨front, back, m, hp, rfl, hf, -⟩ := foldOperand_sound ho
    have hpos := List.length_pos_iff.mpr hf.ne_nil
    have hle := foldLinks_mismatched hl
    rw [hp, List.drop_left] at hle
    rw [hp, List.length_append]
    omega
termination_by (pieces.length, 2)
decreasing_by
  · exact Prod.Lex.right _ (by decide)
  · rw [Prod.lex_def, List.length_drop]
    change _ < _ ∨ _ = _ ∧ 1 < 2
    omega

/-- The chain so far counts as one piece in front of the links. -/
theorem foldLinks_mismatched {limit depth position p : Nat} {left : Condition}
    {pieces : List Piece}
    (h : (foldLinks limit depth position left pieces).result =
      .error (.mismatchedParenthesis p)) :
    position ≤ p ∧ p < position + 1 + pieces.length := by
  obtain ⟨k, rest, hp, ho | ⟨right, n, ho, hl⟩⟩ := foldLinks_error_cases h
  · have hle := foldOperand_mismatched ho
    rw [hp, List.length_cons]
    omega
  · have hle := foldLinks_mismatched hl
    rw [List.length_drop] at hle
    rw [hp, List.length_cons]
    omega
termination_by (pieces.length, 1)
decreasing_by
  · rw [hp]
    exact Prod.Lex.left _ _ (Nat.lt_succ_self _)
  · rw [hp]
    refine Prod.Lex.left _ _ ?_
    rw [List.length_drop, List.length_cons]
    omega

end

end Piece

namespace Pass

open Piece

/-- An error of the condition pass stands behind the start of the condition. -/
theorem condition_step_between {registry : Registry} {limit : Nat} {before after : List Token}
    {t : Token} {e : CompileError}
    (h : ((condition registry limit).step before t after).result = .error e) :
    e.Between (before.length + 1) (before.length + 1 + after.length) := by
  rcases Logged.result_bind_eq_error.mp h with hu | ⟨_, -, hstep⟩
  · cases hu
  rcases Logged.result_bind_eq_error.mp hstep with hr | ⟨⟨pieces, count⟩, hr, hfold⟩
  · exact read_between hr
  obtain ⟨rfl, -⟩ | ⟨⟨p, rfl⟩, -⟩ := condition_step_eq_error_of_read hr h
  · exact CompileError.between_of_none rfl
  have hpieces : before.length + 1 ≤ p ∧ p < before.length + 1 + pieces.length := by
    rcases Logged.result_bind_eq_error.mp hfold with hf | ⟨⟨c, n⟩, hf, hrest⟩
    · exact foldChain_mismatched hf
    · obtain ⟨front, back, m, rfl, rfl, hc, -⟩ := foldChain_sound hf
      have hpos := List.length_pos_iff.mpr hc.walk.ne_nil
      simp only [List.drop_left] at hrest
      cases back with
      | nil => cases hrest
      | cons piece back =>
        cases hrest
        rw [List.length_append, List.length_cons]
        omega
  obtain ⟨-, span, rest, rfl, -, hs, -⟩ := read_sound hr
  have hspan := hs.length_le
  refine CompileError.between_of_lt rfl hpieces.1 ?_
  rw [List.length_append]
  omega

theorem condition_locates (registry : Registry) (limit : Nat) :
    (condition registry limit).Locates 1 where
  shrinks h := by
    obtain ⟨span, rest, n, c, rfl, ⟨pieces, hs, hc⟩, _, _, rfl⟩ := condition_step_eq_ok.mp h
    have hspan := List.length_pos_iff.mpr (hs.ne_nil hc.walk.ne_nil)
    simp [Step.behind, Step.ahead]
    omega
  fails h := (condition_step_between h).mono (Nat.le_add_left 1 _) (Nat.le_refl _)

end Pass

namespace Compiler

/-- The error of a pass stands in the line that the pass was handed. -/
theorem pass_eq_error (c : Compiler) {kind : PassKind} {line : List Token} {e : CompileError}
    (h : ((c.pass kind).run line).result = .error e) :
    e.Between (if kind = .condition then 1 else 0) line.length := by
  cases kind with
  | selector => exact Pass.selector_locates.run_eq_error h
  | function =>
    obtain ⟨_, _, _, _, hs⟩ := Pass.runFrom_eq_error h
    rw [pass, Pass.result_function_step] at hs
    cases hs
  | runArgument =>
    obtain ⟨_, _, _, _, hs⟩ := Pass.runFrom_eq_error h
    rw [pass, Pass.result_runArgument_step] at hs
    cases hs
  | loop => exact Pass.loop_locates.run_eq_error h
  | condition => exact (Pass.condition_locates _ _).run_eq_error h
  | command => exact Pass.command_locates.run_eq_error h

/-- A compilation fails in one of its passes, on the line that the passes in front of it made.
If the error has a position, that lies in this line, and only a missing selector is found at its
end.  The condition pass finds nothing at the first token. -/
theorem compile_error_position {c : Compiler} {line : List Token} {e : CompileError}
    (h : (c.compile line).result = .error e) :
    ∃ front kind back handed, PassKind.all = front ++ kind :: back ∧ c.Makes front line handed ∧
      ((c.pass kind).run handed).result = .error e ∧
      ∀ p, e.position? = some p →
        p ≤ handed.length ∧ (e ≠ .conditionWithoutSelector p → p < handed.length) ∧
        (kind = .condition → 1 ≤ p) := by
  obtain ⟨front, kind, back, handed, hall, hmade, hr⟩ := compile_eq_error h
  refine ⟨front, kind, back, handed, hall, hmade, hr, fun p hp => ?_⟩
  obtain ⟨hfirst, hlast, hstrict⟩ := c.pass_eq_error hr p hp
  refine ⟨hlast, hstrict, fun hk => ?_⟩
  rwa [if_pos hk] at hfirst

/-- The condition pass is handed four of the six tokens and misses a selector behind the last. -/
theorem compile_error_position_at_end :
    let line : List Token :=
      [.group, .text "Lift" [], .device .piston, .whether, .not, .openParen]
    let e : CompileError := .conditionWithoutSelector 4
    (({} : Compiler).compile line).result = .error e ∧ e.position? = some 4 ∧
      ∃ front kind back handed, PassKind.all = front ++ kind :: back ∧
        Makes {} front line handed ∧ ((({} : Compiler).pass kind).run handed).result = .error e ∧
        4 ≤ handed.length := by
  intro line e
  have h : (({} : Compiler).compile line).result = .error e := by with_unfolding_all rfl
  obtain ⟨front, kind, back, handed, hall, hmade, hr, hposition⟩ := compile_error_position h
  exact ⟨h, rfl, front, kind, back, handed, hall, hmade, hr, (hposition 4 rfl).1⟩

end Compiler
end DeviceScript
