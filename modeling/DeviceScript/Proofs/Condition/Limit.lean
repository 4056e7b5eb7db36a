/-
The limit on the nesting of conditions.

The limit is looked at in one place only, in front of each operand, and all that it can
do there is to end the compilation with an error of its own.  So a compilation that does
not end with that error is the same under every larger limit, its log included.  On a
condition whose parentheses balance the error comes exactly when a run is nested as
deeply as the limit or deeper; a condition that does not have that many operators never
gets it.
-/
import DeviceScript.Proofs.Condition.Nesting
import DeviceScript.Proofs.Condition.Outcome

namespace DeviceScript

/-! ## Larger limits -/

namespace Logged

variable {α β : Type}

/-- The second computation is the first one, unless that runs out of depth. -/
def SameUnlessTooDeep (x y : Logged α) : Prop :=
  (∀ limit, x.result ≠ .error (.conditionTooDeep limit)) → y = x

theorem SameUnlessTooDeep.refl (x : Logged α) : x.SameUnlessTooDeep x := fun _ => rfl

theorem SameUnlessTooDeep.fail (limit : Nat) (y : Logged α) :
    (Logged.fail (.conditionTooDeep limit)).SameUnlessTooDeep y := by
  intro h
  exact absurd rfl (h limit)

theorem SameUnlessTooDeep.bind {x y : Logged α} {f g : α → Logged β} (h : x.SameUnlessTooDeep y)
    (hf : ∀ a, (f a).SameUnlessTooDeep (g a)) : (x >>= f).SameUnlessTooDeep (y >>= g) := by
  intro hd
  have hx : y = x := by
    apply h
    intro limit hl
    exact hd limit (result_bind_eq_error.mpr (.inl hl))
  rw [hx]
  obtain ⟨events, r⟩ := x
  cases r with
  | error e => rfl
  | ok a =>
    have ha : g a = f a := by
      apply hf
      intro limit hl
      exact hd limit (result_bind_eq_error.mpr (.inr ⟨a, rfl, hl⟩))
    show Logged.bind ⟨events, .ok a⟩ g = Logged.bind ⟨events, .ok a⟩ f
    rw [Logged.bind, Logged.bind, ha]

end Logged

namespace Piece

mutual

theorem foldOperand_deepen {limit limit' : Nat} (h : limit ≤ limit') (depth position : Nat) :
    ∀ pieces, (foldOperand limit depth position pieces).SameUnlessTooDeep
      (foldOperand limit' depth position pieces) := by
  intro pieces
  rw [foldOperand.eq_def limit, foldOperand.eq_def limit']
  by_cases hd : limit ≤ depth
  · rw [if_pos hd]
    exact .fail limit _
  · have hd' : ¬ limit' ≤ depth := by omega
    rw [if_neg hd, if_neg hd']
    match pieces with
    | [] => exact .refl _
    | .operand c :: rest => exact .refl _
    | .not :: rest => exact (foldOperand_deepen h (depth + 1) position rest).bind fun _ => .refl _
    | .openParen :: rest =>
      exact (foldChain_deepen h (depth + 1) (position + 1) rest).bind fun _ => .refl _
    | .closeParen :: rest => exact .refl _
    | .join k :: rest => exact .refl _
termination_by pieces => (pieces.length, 0)

theorem foldChain_deepen {limit limit' : Nat} (h : limit ≤ limit') (depth position : Nat) :
    ∀ pieces, (foldChain limit depth position pieces).SameUnlessTooDeep
      (foldChain limit' depth position pieces) := by
  intro pieces
  rw [foldChain, foldChain]
  refine (foldOperand_deepen h depth position pieces).bind fun q => ?_
  exact (foldLinks_deepen h depth position q.1 (pieces.drop q.2)).bind fun _ => .refl _
termination_by pieces => (pieces.length, 2)
decreasing_by
  · exact Prod.Lex.right _ (by decide)
  · rw [Prod.lex_def, List.length_drop]
    change _ < _ ∨ _ = _ ∧ 1 < 2
    omega

theorem foldLinks_deepen {limit limit' : Nat} (h : limit ≤ limit') (depth position : Nat)
    (left : Condition) :
    ∀ pieces, (foldLinks limit depth position left pieces).SameUnlessTooDeep
      (foldLinks limit' depth position left pieces) := by
  intro pieces
  rw [foldLinks.eq_def limit, foldLinks.eq_def limit']
  match pieces with
  | .join k :: next :: rest =>
    refine (foldOperand_deepen h depth (position + 2) (next :: rest)).bind fun q => ?_
    refine Logged.SameUnlessTooDeep.bind (.refl _) fun _ => ?_
    exact (foldLinks_deepen h depth position _ ((next :: rest).drop q.2)).bind fun _ => .refl _
  | [] => exact .refl _
  | [.join k] => exact .refl _
  | .not :: rest => exact .refl _
  | .openParen :: rest => exact .refl _
  | .closeParen :: rest => exact .refl _
  | .operand c :: rest => exact .refl _
termination_by pieces => (pieces.length, 1)

end

end Piece

namespace Pass

/-- The second pass does what the first one does, unless that runs out of depth. -/
structure Deepens (p q : Pass) : Prop where
  starts : q.starts = p.starts
  step : ∀ before t after, (p.step before t after).SameUnlessTooDeep (q.step before t after)

theorem Deepens.refl (p : Pass) : p.Deepens p := ⟨rfl, fun _ _ _ => .refl _⟩

theorem Deepens.stepWithin {p q : Pass} (h : p.Deepens q) (tokens : List Token) (index : Nat)
    (hi : index < tokens.length) :
    (p.stepWithin tokens index hi).SameUnlessTooDeep (q.stepWithin tokens index hi) :=
  (h.step _ _ _).bind fun _ => .refl _

theorem Deepens.runFrom {p q : Pass} (h : p.Deepens q) (before : List Token) :
    ∀ after, (p.runFrom before after).SameUnlessTooDeep (q.runFrom before after)
  | [] => by
    rw [Pass.runFrom, Pass.runFrom]
    exact .refl _
  | t :: after => by
    rw [Pass.runFrom, Pass.runFrom, h.starts]
    by_cases ht : p.starts t = true
    · rw [if_pos ht, if_pos ht]
      exact (h.step before t after).bind fun s => h.runFrom (s.behind before) (s.ahead after)
    · rw [if_neg ht, if_neg ht]
      exact h.runFrom (t :: before) after
termination_by after => after.length
decreasing_by
  · exact Nat.lt_succ_of_le (s.length_ahead_le after)
  · exact Nat.lt_succ_self _

theorem Deepens.run {p q : Pass} (h : p.Deepens q) (line : List Token) :
    (p.run line).SameUnlessTooDeep (q.run line) :=
  h.runFrom [] line

theorem condition_deepens (registry : Registry) {limit limit' : Nat} (h : limit ≤ limit') :
    (condition registry limit).Deepens (condition registry limit') := by
  refine ⟨rfl, fun before t after => ?_⟩
  refine Logged.SameUnlessTooDeep.bind (.refl _) fun _ => ?_
  refine Logged.SameUnlessTooDeep.bind (.refl _) fun q => ?_
  exact (Piece.foldChain_deepen h 0 (before.length + 1) q.1).bind fun _ => .refl _

end Pass

namespace Compiler

def withMaxConditionDepth (c : Compiler) (depth : UInt64) : Compiler :=
  { c with options := c.options.withMaxConditionDepth depth }

section

variable {d d' : UInt64}

theorem pass_deepens (c : Compiler) (h : d ≤ d') (kind : PassKind) :
    ((c.withMaxConditionDepth d).pass kind).Deepens
      ((c.withMaxConditionDepth d').pass kind) := by
  cases kind with
  | condition => exact Pass.condition_deepens c.registry (UInt64.le_iff_toNat_le.mp h)
  | selector | function | runArgument | loop | command => exact .refl _

theorem runPass_deepen (c : Compiler) (h : d ≤ d') (line : List Token) (kind : PassKind) :
    ((c.withMaxConditionDepth d).runPass line kind).SameUnlessTooDeep
      ((c.withMaxConditionDepth d').runPass line kind) := by
  refine Logged.SameUnlessTooDeep.bind (.refl _) fun _ => ?_
  exact ((c.pass_deepens h kind).run line).bind fun _ => .refl _

theorem foldlM_runPass_deepen (c : Compiler) (h : d ≤ d') (kinds : List PassKind)
    (line : List Token) :
    (kinds.foldlM (c.withMaxConditionDepth d).runPass line).SameUnlessTooDeep
      (kinds.foldlM (c.withMaxConditionDepth d').runPass line) := by
  induction kinds generalizing line with
  | nil =>
    rw [List.foldlM_nil, List.foldlM_nil]
    exact .refl _
  | cons kind kinds ih =>
    rw [List.foldlM_cons, List.foldlM_cons]
    exact (c.runPass_deepen h line kind).bind ih

theorem compile_deepen (c : Compiler) (h : d ≤ d') (line : List Token) :
    ((c.withMaxConditionDepth d).compile line).SameUnlessTooDeep
      ((c.withMaxConditionDepth d').compile line) :=
  (c.foldlM_runPass_deepen h PassKind.all line).bind fun _ => .refl _

end

end Compiler

/-! ## When the limit is met -/

namespace Piece

/-- Every operator among the pieces is one among the tokens. -/
theorem Spelled.countP_opening_le {registry : Registry} {rest : List Token}
    {pieces : List Piece} {span : List Token} (h : Spelled registry rest pieces span) :
    pieces.countP isOpening ≤ span.countP fun t => (opening? t).isSome := by
  induction h with
  | nil => exact Nat.le_refl _
  | @mark p t pieces span hm _ ih =>
    rw [List.countP_cons, List.countP_cons]
    by_cases hp : p.isOpening = true
    · have ht : opening? t = some p := opening?_eq_some.mpr ⟨hp, hm⟩
      rw [hp, ht]
      exact Nat.add_le_add_right ih 1
    · rw [if_neg hp]
      omega
  | @run run span c pieces _ _ ih =>
    rw [List.countP_append, List.countP_cons_of_neg (by simp [isOpening])]
    omega

end Piece

namespace Pass

open Piece

section

variable {registry : Registry} {limit index count : Nat} {tokens : List Token}
  {pieces : List Piece}

/-- Pieces that balance derive from the grammar. -/
theorem exists_isChain_of_balanced (hi : index < tokens.length)
    (hr : (read registry (index + 1) (tokens.drop (index + 1))).result = .ok (pieces, count))
    (hb : Balanced isOpenParen isClosing pieces) : ∃ n c, IsChain pieces n c := by
  have hok : ∃ r, ((condition registry (pieces.countP isOpening + 1)).stepWithin tokens index
      hi).result = .ok r := by
    cases h : ((condition registry (pieces.countP isOpening + 1)).stepWithin tokens index
        hi).result with
    | ok r => exact ⟨r, rfl⟩
    | error e =>
      obtain ⟨-, hd⟩ | ⟨-, hn⟩ := condition_stepWithin_eq_error_of_read hr h
      · omega
      · exact absurd hb hn
  obtain ⟨n, c, hc, -⟩ := (condition_stepWithin_eq_ok_of_read hi hr).mp hok
  exact ⟨n, c, hc⟩

theorem condition_stepWithin_tooDeep_iff (hi : index < tokens.length)
    (hr : (read registry (index + 1) (tokens.drop (index + 1))).result = .ok (pieces, count))
    (hb : Balanced isOpenParen isClosing pieces) :
    ((condition registry limit).stepWithin tokens index hi).result =
        .error (.conditionTooDeep limit) ↔
      ∃ n, Nested pieces n ∧ limit ≤ n := by
  have hok : (∃ r, ((condition registry limit).stepWithin tokens index hi).result = .ok r) ↔
      ∃ n c, IsChain pieces n c ∧ n < limit := condition_stepWithin_eq_ok_of_read hi hr
  constructor
  · intro h
    obtain ⟨n, c, hc⟩ := exists_isChain_of_balanced hi hr hb
    refine ⟨n, hc.nested_max.1, ?_⟩
    rcases Nat.lt_or_ge n limit with hn | hn
    · obtain ⟨r, hr⟩ := hok.mpr ⟨n, c, hc, hn⟩
      rw [h] at hr
      cases hr
    · exact hn
  · intro h
    obtain ⟨k, hk, hlimit⟩ := h
    cases hresult : ((condition registry limit).stepWithin tokens index hi).result with
    | ok r =>
      obtain ⟨n, c, hc, hn⟩ := hok.mp ⟨r, hresult⟩
      have hkn := hc.nested_max.2 k hk
      omega
    | error e =>
      obtain ⟨rfl, -⟩ | ⟨-, hn⟩ := condition_stepWithin_eq_error_of_read hr hresult
      · rfl
      · exact absurd hb hn

end

/-- Fewer operators than the limit cannot nest a run too deeply. -/
theorem condition_step_ne_tooDeep {registry : Registry} {limit : Nat} {before after : List Token}
    {t : Token} (h : (after.countP fun u => (opening? u).isSome) < limit) (l : Nat) :
    ((condition registry limit).step before t after).result ≠ .error (.conditionTooDeep l) := by
  intro hd
  obtain ⟨pieces, count, hr⟩ := exists_read_of_isFoldError hd rfl
  obtain ⟨-, span, rest, rfl, -, hs, -⟩ := read_sound hr
  have hle := hs.countP_opening_le
  rw [List.countP_append] at h
  obtain ⟨-, hlimit⟩ | ⟨⟨p, he⟩, -⟩ := condition_step_eq_error_of_read hr hd
  · omega
  · cases he

/-- A step, a pass and a compilation that do not run out of depth are the same under a
larger limit.  On balanced parentheses a step runs out of depth exactly when a run has as
many operators around it as the limit says, and it needs at least that many behind it. -/
theorem condition_limit_exact (registry : Registry) (tokens : List Token) :
    (∀ index (h : index < tokens.length) d d', d ≤ d' →
      ((condition registry d).stepWithin tokens index h).SameUnlessTooDeep
        ((condition registry d').stepWithin tokens index h)) ∧
    (∀ d d', d ≤ d' → ((condition registry d).run tokens).SameUnlessTooDeep
      ((condition registry d').run tokens)) ∧
    (∀ (c : Compiler) d d', d ≤ d' →
      ((c.withMaxConditionDepth d).compile tokens).SameUnlessTooDeep
        ((c.withMaxConditionDepth d').compile tokens)) ∧
    (∀ index (h : index < tokens.length) d pieces count,
      (read registry (index + 1) (tokens.drop (index + 1))).result = .ok (pieces, count) →
      Balanced Token.isOpenParen Token.isCloseParen ((tokens.drop (index + 1)).take count) →
      (((condition registry d).stepWithin tokens index h).result = .error (.conditionTooDeep d) ↔
        ∃ n, Nested pieces n ∧ d ≤ n)) ∧
    (∀ index (h : index < tokens.length) d,
      ((tokens.drop (index + 1)).countP fun t => (opening? t).isSome) < d →
      ∀ l, ((condition registry d).stepWithin tokens index h).result ≠
        .error (.conditionTooDeep l)) := by
  refine ⟨?_, ?_, ?_, ?_, ?_⟩
  · intro index hi d d' h
    exact (condition_deepens registry h).stepWithin tokens index hi
  · intro d d' h
    exact (condition_deepens registry h).run tokens
  · intro c d d' h
    exact c.compile_deepen h tokens
  · intro index hi d pieces count hr hb
    exact condition_stepWithin_tooDeep_iff hi hr ((balanced_take_iff_of_read hr).mp hb)
  · intro index hi d h l hd
    exact condition_step_ne_tooDeep h l (stepWithin_eq_error.mp hd)

/-- A run inside of a negation, a group and a negation needs a limit of four. -/
theorem condition_limit_three_around :
    let gate : Selector := ⟨.door, false, "Gate", none⟩
    let isOpen : Condition := .aggregate .all (.boolean .door .open .equal true) gate
    let line : List Token := [.whether, .not, .openParen, .selector gate,
      .property (.boolean .open), .or, .not, .selector gate, .property (.boolean .open),
      .closeParen]
    let pieces : List Piece := [.not, .openParen, .operand isOpen, .join .or, .not,
      .operand isOpen, .closeParen]
    (read .standard 1 (line.drop 1)).result = .ok (pieces, 9) ∧
      Balanced Token.isOpenParen Token.isCloseParen ((line.drop 1).take 9) ∧ Nested pieces 3 ∧
      ((line.drop 1).countP fun t => (opening? t).isSome) < 4 ∧
      ∃ h, ((condition .standard 3).stepWithin line 0 h).result = .error (.conditionTooDeep 3) ∧
        (condition .standard 64).stepWithin line 0 h =
          (condition .standard 4).stepWithin line 0 h := by
  intro gate isOpen line pieces
  have hr : (read .standard 1 (line.drop 1)).result = .ok (pieces, 9) := by with_unfolding_all rfl
  have hc : IsChain pieces 3 (.not (.or isOpen (.not isOpen))) :=
    .operand (.not (.group (.join .or (.operand (.run _)) (.not (.run _)))))
  have hb : Balanced Token.isOpenParen Token.isCloseParen ((line.drop 1).take 9) :=
    (balanced_take_iff_of_read hr).mpr hc.balanced
  have hroom : ((line.drop 1).countP fun t => (opening? t).isSome) < 4 := by decide
  have hn : Nested pieces 3 := hc.nested_max.1
  obtain ⟨hmono, -, -, hexact, henough⟩ := condition_limit_exact .standard line
  have hi : 0 < line.length := by decide
  refine ⟨hr, hb, hn, hroom, hi, ?_, ?_⟩
  · exact (hexact 0 hi 3 pieces 9 hr hb).mpr ⟨3, hn, Nat.le_refl 3⟩
  · exact hmono 0 hi 4 64 (by decide) (henough 0 hi 4 hroom)

end Pass
end DeviceScript
