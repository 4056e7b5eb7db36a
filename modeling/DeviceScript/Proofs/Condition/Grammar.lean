/-
The grammar of conditions.

A condition is written in two layers.  Its tokens spell pieces: each negation,
parenthesis and connective is a piece of its own, and each block run is one
operand.  Where a run ends depends on the token behind it, so a span of tokens
spells its pieces only together with what follows the span.  The pieces in turn
derive a tree.  A chain is a list of operands with connectives between them, and an
operand is a run, a negated operand or a chain in parentheses.

Both layers are relations that say nothing about how a line is read.
-/
import DeviceScript.Pass.Condition

namespace DeviceScript
namespace Piece

/-- The token of a piece that is one.  An operand is spelled by a whole run. -/
def mark? : Piece → Option Token
  | .not => some .not
  | .openParen => some .openParen
  | .closeParen => some .closeParen
  | .join .and => some .and
  | .join .or => some .or
  | .operand _ => none

/-- `run` is a block run when `rest` follows it, and `c` is its condition.  The run is
all that can be taken from its first token on. -/
structure IsRun (registry : Registry) (run rest : List Token) (c : Condition) : Prop where
  head : ∀ t ∈ run.head?, t ≠ .not ∧ t ≠ .openParen
  whole : (scan ConditionRun.take {} (run ++ rest)).2 = run.length
  condition : ∀ position, ((scan ConditionRun.take {} (run ++ rest)).1.condition registry
    position run.length).result = .ok c

/-- The tokens of a span spell the pieces when `rest` follows the span. -/
inductive Spelled (registry : Registry) (rest : List Token) : List Piece → List Token → Prop where
  | nil : Spelled registry rest [] []
  | mark {p : Piece} {t : Token} {pieces : List Piece} {span : List Token} :
      p.mark? = some t → Spelled registry rest pieces span →
      Spelled registry rest (p :: pieces) (t :: span)
  | run {run span : List Token} {c : Condition} {pieces : List Piece} :
      IsRun registry run (span ++ rest) c → Spelled registry rest pieces span →
      Spelled registry rest (.operand c :: pieces) (run ++ span)

mutual

/-- The pieces are one operand with the given tree.  The number is the largest number
of negations and parentheses around one of its runs. -/
inductive IsOperand : List Piece → Nat → Condition → Prop where
  | run (c : Condition) : IsOperand [.operand c] 0 c
  | not {pieces : List Piece} {n : Nat} {c : Condition} :
      IsOperand pieces n c → IsOperand (.not :: pieces) (n + 1) (.not c)
  | group {pieces : List Piece} {n : Nat} {c : Condition} :
      IsChain pieces n c → IsOperand (.openParen :: (pieces ++ [.closeParen])) (n + 1) c

/-- The pieces are a chain of operands.  The connectives have one precedence and the
tree grows to the left. -/
inductive IsChain : List Piece → Nat → Condition → Prop where
  | operand {pieces : List Piece} {n : Nat} {c : Condition} :
      IsOperand pieces n c → IsChain pieces n c
  | join {front back : List Piece} {n m : Nat} {left right : Condition} (k : Connective) :
      IsChain front n left → IsOperand back m right →
      IsChain (front ++ .join k :: back) (max n m) (k.join left right)

end

/-- A condition ends before `rest`: no parenthesis is left to close, and a connective
can only stand there as the last token of the line. -/
structure Ends (rest : List Token) : Prop where
  closed : rest.head? ≠ some .closeParen
  unjoined : ∀ t next more, rest = t :: next :: more → t ≠ .and ∧ t ≠ .or

/-- The span is a condition with the given tree when `rest` follows it, and `n` is the
largest number of negations and parentheses around one of its runs. -/
def Expression (registry : Registry) (span rest : List Token) (n : Nat) (c : Condition) : Prop :=
  ∃ pieces, Spelled registry rest pieces span ∧ IsChain pieces n c

/-! ## Block runs

What a run means does not depend on where it stands, and a run has tokens. -/

end Piece

namespace ConditionRun

/-- The run compares a property of a device, and `c` is the comparison. -/
inductive Compares (r : ConditionRun) (device : Device) : Property → Condition → Prop where
  | bare (p : BooleanProperty) : r.literal = none →
      Compares r device (.boolean p) (.boolean device p (r.comparison.getD default) true)
  | boolean (p : BooleanProperty) {v : Primitive} {b : Bool} :
      r.literal = some v → v.toBoolean = .ok b →
      Compares r device (.boolean p) (.boolean device p (r.comparison.getD default) b)
  | text (p : TextProperty) {v : Primitive} : r.literal = some v →
      Compares r device (.text p) (.text device p (r.comparison.getD default) v.toText)
  | numeric (p : NumericProperty) {v : Primitive} {x : Single} :
      r.literal = some v → v.toNumber = .ok x →
      Compares r device (.numeric p) (.numeric device p (r.comparison.getD default) x)

section

variable {r : ConditionRun} {c : Condition}

theorem blockCondition_eq_ok {device : Device} {defaults : Defaults} {position : Nat} :
    (r.blockCondition device defaults position).result = .ok c ↔
      ∃ property, r.property.or (r.literal.bind defaults.propertyFor?) = some property ∧
        r.Compares device property c := by
  rw [blockCondition]
  cases hp : r.property.or (r.literal.bind defaults.propertyFor?) with
  | none => simp
  | some property =>
    simp only [Option.some.injEq, exists_eq_left']
    constructor
    · intro h
      cases hl : r.literal with
      | none =>
        simp only [hl] at h
        cases property <;> cases h
        exact .bare _ hl
      | some v =>
        simp only [hl] at h
        cases property with
        | boolean p =>
          obtain ⟨b, hb, h⟩ := Logged.result_bind_eq_ok.mp h
          cases h
          exact .boolean p hl (Logged.result_ofValue_eq_ok.mp hb)
        | text p =>
          cases h
          exact .text p hl
        | numeric p =>
          obtain ⟨x, hx, h⟩ := Logged.result_bind_eq_ok.mp h
          cases h
          exact .numeric p hl (Logged.result_ofValue_eq_ok.mp hx)
    · intro h
      cases h with
      | bare p hl =>
        simp only [hl]
        rfl
      | text p hl =>
        simp only [hl]
        rfl
      | boolean p hl hv | numeric p hl hv =>
        simp only [hl]
        exact Logged.result_bind_eq_ok.mpr ⟨_, Logged.result_ofValue_eq_ok.mpr hv, rfl⟩

/-- A run is a condition if it has a selector with a handler and can be compared. -/
theorem condition_eq_ok {registry : Registry} {position count : Nat} :
    (r.condition registry position count).result = .ok c ↔
      ∃ (s : Selector) (h : Handler) (property : Property) (block : Condition),
        r.selector = some s ∧ registry.handler? s.device = some h ∧
        r.property.or (r.literal.bind h.defaults.propertyFor?) = some property ∧
        r.Compares h.device property block ∧
        c = (Condition.aggregate (r.aggregation.getD default) (block.notIf r.invertEach)
          (h.provider s)).notIf r.invertAll := by
  rw [condition]
  constructor
  · intro h
    cases hs : r.selector with
    | none => simp [hs] at h
    | some s =>
      simp only [hs] at h
      by_cases hv : (r.literal.isNone && r.property.isNone) = true
      · simp [hv] at h
      · rw [if_neg hv] at h
        cases hh : registry.handler? s.device with
        | none => simp [hh] at h
        | some handler =>
          simp only [hh] at h
          obtain ⟨block, hb, h⟩ := Logged.result_bind_eq_ok.mp h
          obtain ⟨property, hp, hc⟩ := blockCondition_eq_ok.mp hb
          exact ⟨s, handler, property, block, rfl, hh, hp, hc, (Except.ok.inj h).symm⟩
  · intro h
    obtain ⟨s, handler, property, block, hs, hh, hp, hc, rfl⟩ := h
    -- What is compared comes from a property or from a literal.
    have hv : ¬ (r.literal.isNone && r.property.isNone) = true := by
      intro hn
      rw [Bool.and_eq_true, Option.isNone_iff_eq_none, Option.isNone_iff_eq_none] at hn
      rw [hn.1, hn.2] at hp
      cases hp
    simp only [hs, hh, if_neg hv]
    exact Logged.result_bind_eq_ok.mpr ⟨block, blockCondition_eq_ok.mpr ⟨property, hp, hc⟩, rfl⟩

/-- The position of a run and its length only matter for the log and the errors. -/
theorem condition_of_ok {registry : Registry} {p n : Nat}
    (h : (r.condition registry p n).result = .ok c) (q m : Nat) :
    (r.condition registry q m).result = .ok c :=
  condition_eq_ok.mpr (condition_eq_ok.mp h)

end

end ConditionRun

namespace Piece

/-- A block run in terms of the state after its tokens, which refuses the next one. -/
theorem isRun_iff {registry : Registry} {run rest : List Token} {c : Condition} :
    IsRun registry run rest c ↔
      (∀ t ∈ run.head?, t ≠ .not ∧ t ≠ .openParen) ∧
      ∃ r, run.foldlM ConditionRun.take {} = some r ∧ (∀ t ∈ rest.head?, r.take t = none) ∧
        (r.condition registry 0 0).result = .ok c := by
  constructor
  · intro h
    have hs : scan ConditionRun.take {} (run ++ rest) =
        ((scan ConditionRun.take {} (run ++ rest)).1, run.length) := by
      rw [← h.whole]
    obtain ⟨hf, hr⟩ := scan_append_eq_iff.mp hs
    exact ⟨h.head, _, hf, hr, ConditionRun.condition_of_ok (h.condition 0) 0 0⟩
  · intro h
    obtain ⟨hh, r, hf, hr, hc⟩ := h
    have hs := scan_append_eq_iff.mpr ⟨hf, hr⟩
    refine ⟨hh, by rw [hs], fun position => ?_⟩
    rw [hs]
    exact ConditionRun.condition_of_ok hc position _

theorem IsRun.ne_nil {registry : Registry} {run rest : List Token} {c : Condition}
    (h : IsRun registry run rest c) : run ≠ [] := by
  intro h
  subst h
  obtain ⟨-, r, hf, -, hc⟩ := isRun_iff.mp h
  -- Nothing was taken, so there is no selector yet.
  cases hf
  cases hc

/-! ## Spelling -/

section

variable {registry : Registry} {rest : List Token}

theorem Spelled.append {front back : List Piece} {s u : List Token}
    (hs : Spelled registry (u ++ rest) front s) (hu : Spelled registry rest back u) :
    Spelled registry rest (front ++ back) (s ++ u) := by
  induction hs with
  | nil => exact hu
  | mark hp _ ih => exact .mark hp ih
  | run hr _ ih =>
    rw [List.append_assoc]
    refine .run ?_ ih
    rwa [List.append_assoc]

/-- A span that spells two lists of pieces one after the other falls into two spans. -/
theorem Spelled.split {front back : List Piece} {span : List Token}
    (h : Spelled registry rest (front ++ back) span) :
    ∃ s u, span = s ++ u ∧ Spelled registry (u ++ rest) front s ∧
      Spelled registry rest back u := by
  induction front generalizing span with
  | nil => exact ⟨[], span, rfl, .nil, h⟩
  | cons p front ih =>
    cases h with
    | mark hp h =>
      obtain ⟨s, u, rfl, hs, hu⟩ := ih h
      exact ⟨_, u, rfl, .mark hp hs, hu⟩
    | @run run _ c _ hr h =>
      obtain ⟨s, u, rfl, hs, hu⟩ := ih h
      refine ⟨run ++ s, u, (List.append_assoc ..).symm, .run ?_ hs, hu⟩
      rwa [← List.append_assoc]

theorem Spelled.ne_nil {pieces : List Piece} {span : List Token}
    (h : Spelled registry rest pieces span) (hp : pieces ≠ []) : span ≠ [] := by
  cases h with
  | nil => exact absurd rfl hp
  | mark _ _ => exact List.cons_ne_nil _ _
  | run h _ => exact List.append_ne_nil_of_left_ne_nil h.ne_nil _

theorem Spelled.length_le {pieces : List Piece} {span : List Token}
    (h : Spelled registry rest pieces span) : pieces.length ≤ span.length := by
  induction h with
  | nil => exact Nat.le_refl 0
  | mark _ _ ih => exact Nat.succ_le_succ ih
  | run hr _ ih =>
    have hrun := List.length_pos_iff.mpr hr.ne_nil
    rw [List.length_cons, List.length_append]
    omega

end

end Piece
end DeviceScript
