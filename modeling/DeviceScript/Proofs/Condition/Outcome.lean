/-
How a step of the condition pass can end.

The errors of the two stages are different ones.  A step whose first stage succeeds can
only fail in the second, and there for want of depth or of balance: given room below the
limit, it succeeds exactly when the parentheses that were read balance.
-/
import DeviceScript.Proofs.Condition.Balance
import DeviceScript.Proofs.Pass.Run

namespace DeviceScript

/-! ## Reading -/

/-- The errors of the second stage. -/
def CompileError.isFoldError : CompileError → Bool
  | .mismatchedParenthesis _ | .invalidConditionToken _ _ | .conditionTooDeep _ => true
  | _ => false

namespace ConditionRun

variable {r : ConditionRun} {e : CompileError}

theorem ofValue_eq_error {α : Type} {v : Except ValueError α}
    (h : (Logged.ofValue v).result = .error e) : e.isFoldError = false := by
  cases v <;> cases h
  rfl

theorem blockCondition_eq_error {device : Device} {defaults : Defaults} {position : Nat}
    (h : (r.blockCondition device defaults position).result = .error e) :
    e.isFoldError = false := by
  rw [blockCondition] at h
  cases hp : r.property.or (r.literal.bind defaults.propertyFor?) with
  | none =>
    simp only [hp] at h
    cases h
    rfl
  | some property =>
    simp only [hp] at h
    cases hl : r.literal with
    | none =>
      simp only [hl] at h
      cases property <;> cases h <;> rfl
    | some v =>
      simp only [hl] at h
      cases property with
      | text p => cases h
      | boolean p | numeric p =>
        rcases Logged.result_bind_eq_error.mp h with hv | ⟨_, -, hv⟩
        · exact ofValue_eq_error hv
        · cases hv

theorem condition_eq_error {registry : Registry} {position count : Nat}
    (h : (r.condition registry position count).result = .error e) : e.isFoldError = false := by
  rw [condition] at h
  cases hs : r.selector with
  | none =>
    simp only [hs] at h
    cases h
    rfl
  | some s =>
    simp only [hs] at h
    by_cases hv : (r.literal.isNone && r.property.isNone) = true
    · rw [if_pos hv] at h
      cases h
      rfl
    · rw [if_neg hv] at h
      cases hh : registry.handler? s.device with
      | none =>
        simp only [hh] at h
        cases h
        rfl
      | some handler =>
        simp only [hh] at h
        rcases Logged.result_bind_eq_error.mp h with hb | ⟨_, -, hb⟩
        · exact blockCondition_eq_error hb
        · cases hb

end ConditionRun

namespace Piece

theorem readOperand_eq_error {registry : Registry} {position : Nat} {tokens : List Token}
    {e : CompileError} (h : (readOperand registry position tokens).result = .error e) :
    e.isFoldError = false := by
  rw [readOperand] at h
  rcases Logged.result_bind_eq_error.mp h with hc | ⟨_, -, hc⟩
  · exact ConditionRun.condition_eq_error hc
  · cases hc

/-- Reading fails at the first operand or behind a connective. -/
theorem read_error_cases {registry : Registry} {position : Nat} {tokens : List Token}
    {e : CompileError} (h : (read registry position tokens).result = .error e) :
    (readOperand registry position tokens).result = .error e ∨
      ∃ here taken t next rest, (readOperand registry position tokens).result = .ok (here, taken) ∧
        tokens.drop taken = t :: next :: rest ∧
        (read registry (position + here.length + 1) (next :: rest)).result = .error e := by
  rw [read] at h
  rcases Logged.result_bind_eq_error.mp h with ho | ⟨⟨here, taken⟩, ho, h⟩
  · exact .inl ho
  dsimp only at h
  split at h
  · rename_i t next rest hd
    cases hk : connective? t with
    | none =>
      rw [hk] at h
      cases h
    | some k =>
      rw [hk] at h
      rcases Logged.result_bind_eq_error.mp h with hu | ⟨_, -, h⟩
      · cases hu
      rcases Logged.result_bind_eq_error.mp h with hr | ⟨_, -, hr⟩
      · exact .inr ⟨here, taken, t, next, rest, ho, hd, hr⟩
      · cases hr
  · cases h

theorem read_eq_error {registry : Registry} {position : Nat} {tokens : List Token}
    {e : CompileError} (h : (read registry position tokens).result = .error e) :
    e.isFoldError = false := by
  obtain ho | ⟨here, taken, t, next, rest, -, hd, hr⟩ := read_error_cases h
  · exact readOperand_eq_error ho
  · exact read_eq_error hr
termination_by tokens.length
decreasing_by
  have hl := congrArg List.length hd
  simp only [List.length_drop, List.length_cons] at hl ⊢
  omega

end Piece

/-! ## The condition pass -/

namespace Pass

open Piece

section

variable {registry : Registry} {limit count : Nat} {before after : List Token} {t : Token}
  {pieces : List Piece} {e : CompileError}

theorem condition_step_eq_ok_of_read
    (hr : (read registry (before.length + 1) after).result = .ok (pieces, count)) :
    (∃ s, ((condition registry limit).step before t after).result = .ok s) ↔
      ∃ n c, IsChain pieces n c ∧ n < limit := by
  constructor
  · intro h
    obtain ⟨s, h⟩ := h
    obtain ⟨span, rest, n, c, rfl, ⟨chain, hs, hc⟩, hn, he, -⟩ := condition_step_eq_ok.mp h
    rw [read_complete hc.walk hs he] at hr
    obtain ⟨rfl, -⟩ := Prod.mk.inj (Except.ok.inj hr)
    exact ⟨n, c, hc, hn⟩
  · intro h
    obtain ⟨n, c, hc, hn⟩ := h
    obtain ⟨-, span, rest, rfl, -, hs, he⟩ := read_sound hr
    exact ⟨_, condition_step_eq_ok.mpr ⟨span, rest, n, c, rfl, ⟨pieces, hs, hc⟩, hn, he, rfl⟩⟩

/-- Behind the first stage a step fails for want of depth or of balance. -/
theorem condition_step_eq_error_of_read
    (hr : (read registry (before.length + 1) after).result = .ok (pieces, count))
    (h : ((condition registry limit).step before t after).result = .error e) :
    (e = .conditionTooDeep limit ∧ limit ≤ pieces.countP isOpening) ∨
      ((∃ p, e = .mismatchedParenthesis p) ∧ ¬ Balanced isOpenParen isClosing pieces) := by
  obtain ⟨hw, -⟩ := read_sound hr
  rcases Logged.result_bind_eq_error.mp h with hu | ⟨_, -, h⟩
  · cases hu
  rcases Logged.result_bind_eq_error.mp h with he | ⟨⟨found, taken⟩, hf, h⟩
  · rw [hr] at he
    cases he
  rw [hr] at hf
  cases hf
  rcases Logged.result_bind_eq_error.mp h with hf | ⟨⟨c, n⟩, hf, h⟩
  · cases foldChain_stuck hw hf with
    | deep hd =>
      rw [Nat.zero_add] at hd
      exact .inl ⟨rfl, hd⟩
    | @unclosed front chain _ _ position hp hc =>
      refine .inr ⟨⟨position, rfl⟩, ?_⟩
      rw [hp]
      exact hc.not_balanced_opened front
  · obtain ⟨front, back, m, rfl, rfl, hc, rfl | ⟨rest, rfl⟩⟩ := foldChain_walk hw hf
    · simp only [List.drop_left] at h
      cases h
    · simp only [List.drop_left] at h
      cases h
      exact .inr ⟨⟨_, rfl⟩, hc.not_balanced_closed rest⟩

/-- An error of the second stage comes behind a first stage that succeeds. -/
theorem exists_read_of_isFoldError
    (h : ((condition registry limit).step before t after).result = .error e)
    (he : e.isFoldError = true) :
    ∃ pieces count, (read registry (before.length + 1) after).result = .ok (pieces, count) := by
  rcases Logged.result_bind_eq_error.mp h with hu | ⟨_, -, h⟩
  · cases hu
  rcases Logged.result_bind_eq_error.mp h with hr | ⟨⟨pieces, count⟩, hr, -⟩
  · rw [read_eq_error hr] at he
    cases he
  · exact ⟨pieces, count, hr⟩

theorem condition_step_ne_invalid (position : Nat) (found : String) :
    ((condition registry limit).step before t after).result ≠
      .error (.invalidConditionToken position found) := by
  intro h
  obtain ⟨pieces, count, hr⟩ := exists_read_of_isFoldError h rfl
  obtain ⟨he, -⟩ | ⟨⟨p, he⟩, -⟩ := condition_step_eq_error_of_read hr h
  · cases he
  · cases he

end

section

variable {registry : Registry} {limit index count : Nat} {tokens : List Token}
  {pieces : List Piece}

/-- The position at which a step reads is counted from what is behind it. -/
theorem read_behind (hi : index < tokens.length)
    (hr : (read registry (index + 1) (tokens.drop (index + 1))).result = .ok (pieces, count)) :
    (read registry ((tokens.take index).reverse.length + 1) (tokens.drop (index + 1))).result =
      .ok (pieces, count) := by
  rwa [List.length_reverse, List.length_take_of_le (Nat.le_of_lt hi)]

/-- The tokens that are read have the parentheses of the pieces. -/
theorem balanced_take_iff_of_read
    (hr : (read registry (index + 1) (tokens.drop (index + 1))).result = .ok (pieces, count)) :
    Balanced Token.isOpenParen Token.isCloseParen ((tokens.drop (index + 1)).take count) ↔
      Balanced isOpenParen isClosing pieces := by
  obtain ⟨-, span, rest, hspan, rfl, hs, -⟩ := read_sound hr
  rw [hspan, List.take_left]
  exact hs.balanced_iff

theorem condition_stepWithin_eq_ok_of_read (hi : index < tokens.length)
    (hr : (read registry (index + 1) (tokens.drop (index + 1))).result = .ok (pieces, count)) :
    (∃ r, ((condition registry limit).stepWithin tokens index hi).result = .ok r) ↔
      ∃ n c, IsChain pieces n c ∧ n < limit := by
  have hstep : (∃ s, ((condition registry limit).step (tokens.take index).reverse tokens[index]
      (tokens.drop (index + 1))).result = .ok s) ↔ ∃ n c, IsChain pieces n c ∧ n < limit :=
    condition_step_eq_ok_of_read (read_behind hi hr)
  constructor
  · intro h
    obtain ⟨r, h⟩ := h
    obtain ⟨s, hs, -⟩ := stepWithin_eq_ok.mp h
    exact hstep.mp ⟨s, hs⟩
  · intro h
    obtain ⟨s, hs⟩ := hstep.mpr h
    exact ⟨_, stepWithin_eq_ok.mpr ⟨s, hs, rfl⟩⟩

theorem condition_stepWithin_eq_error_of_read {e : CompileError} {hi : index < tokens.length}
    (hr : (read registry (index + 1) (tokens.drop (index + 1))).result = .ok (pieces, count))
    (h : ((condition registry limit).stepWithin tokens index hi).result = .error e) :
    (e = .conditionTooDeep limit ∧ limit ≤ pieces.countP isOpening) ∨
      ((∃ p, e = .mismatchedParenthesis p) ∧ ¬ Balanced isOpenParen isClosing pieces) :=
  condition_step_eq_error_of_read (read_behind hi hr) (stepWithin_eq_error.mp h)

end

theorem condition_run_ne_invalid {registry : Registry} {limit : Nat} (line : List Token)
    (position : Nat) (found : String) :
    ((condition registry limit).run line).result ≠
      .error (.invalidConditionToken position found) := by
  intro h
  obtain ⟨behind, t, ahead, -, hs⟩ := runFrom_eq_error h
  exact condition_step_ne_invalid position found hs

end Pass

namespace Compiler

theorem compile_ne_invalid (c : Compiler) (line : List Token) (position : Nat) (found : String) :
    (c.compile line).result ≠ .error (.invalidConditionToken position found) := by
  intro h
  obtain ⟨front, kind, back, mid, -, -, hr⟩ := compile_eq_error h
  obtain ⟨behind, t, ahead, -, hs⟩ := Pass.runFrom_eq_error hr
  cases kind with
  | condition => exact Pass.condition_step_ne_invalid position found hs
  | selector => cases Pass.selector_step_eq_error hs
  | function =>
    rw [pass, Pass.result_function_step] at hs
    cases hs
  | runArgument =>
    rw [pass, Pass.result_runArgument_step] at hs
    cases hs
  | loop => cases Pass.loop_step_eq_error hs
  | command => cases Pass.command_step_eq_error hs

end Compiler

namespace Pass

open Piece

/-- Once a condition is read, a step at its start succeeds, runs out of depth or finds a
parenthesis without a partner.  With room for all operators that were read it succeeds
exactly when the tokens that were read balance.  No token is ever found where an operand
has to stand. -/
theorem condition_stepWithin_iff_balanced (registry : Registry) (limit : Nat)
    (tokens : List Token) :
    (∀ index (h : index < tokens.length),
      let result := ((condition registry limit).stepWithin tokens index h).result
      ∀ pieces count,
        (read registry (index + 1) (tokens.drop (index + 1))).result = .ok (pieces, count) →
        let segment := (tokens.drop (index + 1)).take count
        ((∃ r, result = .ok r) ∨ result = .error (.conditionTooDeep limit) ∨
          ∃ p, result = .error (.mismatchedParenthesis p)) ∧
        (pieces.countP isOpening < limit →
          ((∃ r, result = .ok r) ↔ Balanced Token.isOpenParen Token.isCloseParen segment) ∧
          (¬ Balanced Token.isOpenParen Token.isCloseParen segment →
            ∃ p, result = .error (.mismatchedParenthesis p)))) ∧
    ∀ position found,
      (∀ index (h : index < tokens.length),
        ((condition registry limit).stepWithin tokens index h).result ≠
          .error (.invalidConditionToken position found)) ∧
      ((condition registry limit).run tokens).result ≠
        .error (.invalidConditionToken position found) ∧
      ∀ c : Compiler, (c.compile tokens).result ≠
        .error (.invalidConditionToken position found) := by
  constructor
  · intro index hi result pieces count hr segment
    have hsegment : Balanced Token.isOpenParen Token.isCloseParen segment ↔
        Balanced isOpenParen isClosing pieces := balanced_take_iff_of_read hr
    have hok : (∃ r, result = .ok r) ↔ ∃ n c, IsChain pieces n c ∧ n < limit :=
      condition_stepWithin_eq_ok_of_read hi hr
    rw [hsegment]
    cases hresult : result with
    | ok r =>
      obtain ⟨n, c, hc, -⟩ := hok.mp ⟨r, hresult⟩
      have hb := hc.balanced
      exact ⟨.inl ⟨r, rfl⟩, fun _ => ⟨⟨fun _ => hb, fun _ => ⟨r, rfl⟩⟩, fun hn => absurd hb hn⟩⟩
    | error e =>
      obtain ⟨rfl, hdeep⟩ | ⟨⟨p, rfl⟩, hb⟩ := condition_stepWithin_eq_error_of_read hr hresult
      · exact ⟨.inr (.inl rfl), fun hroom => by omega⟩
      · refine ⟨.inr (.inr ⟨p, rfl⟩), fun _ => ⟨⟨nofun, fun h => absurd h hb⟩, fun _ => ⟨p, rfl⟩⟩⟩
  · intro position found
    refine ⟨?_, condition_run_ne_invalid tokens position found, ?_⟩
    · intro index hi h
      exact condition_step_ne_invalid position found (stepWithin_eq_error.mp h)
    · intro c
      exact c.compile_ne_invalid tokens position found

/-- As many parentheses are closed as are opened, but one is closed too early. -/
theorem condition_stepWithin_closed_early :
    let gate : Selector := ⟨.door, false, "Gate", none⟩
    let isOpen : Condition := .aggregate .all (.boolean .door .open .equal true) gate
    let line : List Token := [.whether, .openParen, .selector gate, .property (.boolean .open),
      .closeParen, .closeParen, .and, .openParen, .selector gate, .property (.boolean .open)]
    let pieces : List Piece := [.openParen, .operand isOpen, .closeParen, .closeParen,
      .join .and, .openParen, .operand isOpen]
    (read .standard 1 (line.drop 1)).result = .ok (pieces, 9) ∧ pieces.countP isOpening < 3 ∧
      ¬ Balanced Token.isOpenParen Token.isCloseParen ((line.drop 1).take 9) ∧
      ∃ h p, ((condition .standard 3).stepWithin line 0 h).result =
        .error (.mismatchedParenthesis p) := by
  intro gate isOpen line pieces
  have hr : (read .standard 1 (line.drop 1)).result = .ok (pieces, 9) := by with_unfolding_all rfl
  have hroom : pieces.countP isOpening < 3 := by decide
  have hb : ¬ Balanced Token.isOpenParen Token.isCloseParen ((line.drop 1).take 9) := by
    intro hb
    have hfront := hb.front (List.take_append_drop 5 _).symm
    exact absurd hfront (by decide)
  have hi : 0 < line.length := by decide
  have h := (condition_stepWithin_iff_balanced .standard 3 line).1 0 hi pieces 9 hr
  exact ⟨hr, hroom, hb, hi, (h.2 hroom).2 hb⟩

end Pass
end DeviceScript
