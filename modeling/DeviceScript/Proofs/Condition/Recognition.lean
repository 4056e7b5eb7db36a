/-
The condition pass recognises its grammar.

The two stages agree on where a condition ends.  A chain of the grammar is a walk, so
the first stage reads it to its end; what the first stage reads beyond a chain is a
closing parenthesis without a partner, and the pass refuses it.
-/
import DeviceScript.Proofs.Condition.Fold
import DeviceScript.Proofs.Condition.Read

namespace DeviceScript
namespace Piece

/-! ## Chains are walks -/

theorem Walk.cons {p : Piece} {pieces : List Piece} (hp : p.isOpening = true)
    (h : Walk pieces) : Walk (p :: pieces) := by
  have wrap : ∀ {pieces}, Wrapped pieces → Wrapped (p :: pieces) := by
    intro pieces hw
    obtain ⟨opened, c, closed, rfl, ho, hc⟩ := hw.shape
    exact ⟨p :: opened, c, closed, rfl, List.forall_mem_cons.mpr ⟨hp, ho⟩, hc⟩
  cases h with
  | last hw => exact .last (wrap hw)
  | more k hw h => exact .more k (wrap hw) h

theorem Walk.concat {p : Piece} {pieces : List Piece} (hp : p.isClosing = true)
    (h : Walk pieces) : Walk (pieces ++ [p]) := by
  induction h with
  | last hw =>
    obtain ⟨opened, c, closed, rfl, ho, hc⟩ := hw.shape
    refine .last ⟨opened, c, closed ++ [p], by simp, ho, ?_⟩
    intro q hq
    rcases List.mem_append.mp hq with hq | hq
    · exact hc q hq
    · rw [List.mem_singleton.mp hq]
      exact hp
  | more k hw _ ih =>
    rw [List.append_assoc, List.cons_append]
    exact .more k hw ih

theorem Walk.join {front back : List Piece} (k : Connective) (hf : Walk front)
    (hb : Walk back) : Walk (front ++ .join k :: back) := by
  induction hf with
  | last hw => exact .more k hw hb
  | more k' hw _ ih =>
    rw [List.append_assoc, List.cons_append]
    exact .more k' hw ih

mutual

theorem IsOperand.walk {pieces : List Piece} {n : Nat} {c : Condition} :
    IsOperand pieces n c → Walk pieces
  | .run c => .last ⟨[], c, [], rfl, by simp, by simp⟩
  | .not h => h.walk.cons rfl
  | .group h => (h.walk.concat rfl).cons rfl

theorem IsChain.walk {pieces : List Piece} {n : Nat} {c : Condition} :
    IsChain pieces n c → Walk pieces
  | .operand h => h.walk
  | .join k hf hb => hf.walk.join k hb.walk

end

end Piece

namespace Pass

open Piece

/-- A step of the pass takes the longest condition behind its token. -/
theorem condition_step_eq_ok {registry : Registry} {limit : Nat} {before after : List Token}
    {t : Token} {s : Step} :
    ((condition registry limit).step before t after).result = .ok s ↔
      ∃ span rest n c, after = span ++ rest ∧ Expression registry span rest n c ∧ n < limit ∧
        Ends rest ∧ s = { emit := [t, .condition c], skip := span.length } := by
  constructor
  · intro h
    obtain ⟨⟨⟩, -, h⟩ := Logged.result_bind_eq_ok.mp h
    obtain ⟨⟨pieces, count⟩, hr, h⟩ := Logged.result_bind_eq_ok.mp h
    obtain ⟨⟨c, m⟩, hf, h⟩ := Logged.result_bind_eq_ok.mp h
    obtain ⟨-, span, rest, rfl, rfl, hs, he⟩ := read_sound hr
    obtain ⟨front, back, n, rfl, rfl, hc, hn⟩ := foldChain_sound hf
    simp only [List.drop_left] at h
    cases back with
    | nil =>
      rw [List.append_nil] at hs
      exact ⟨span, rest, n, c, rfl, ⟨front, hs, hc⟩, by omega, he, (Except.ok.inj h).symm⟩
    | cons p back => cases h
  · intro h
    obtain ⟨span, rest, n, c, rfl, ⟨pieces, hs, hc⟩, hn, he, rfl⟩ := h
    have hf : (foldChain limit 0 (before.length + 1) pieces).result = .ok (c, pieces.length) :=
      foldChain_all_iff.mpr ⟨n, hc, by omega⟩
    refine Logged.result_bind_eq_ok.mpr ⟨(), rfl, ?_⟩
    refine Logged.result_bind_eq_ok.mpr ⟨_, read_complete hc.walk hs he, ?_⟩
    refine Logged.result_bind_eq_ok.mpr ⟨_, hf, ?_⟩
    simp only [List.drop_length, Logged.result_pure]

/-- One step at any index succeeds exactly when a condition of the grammar, nested less
deeply than the limit, stands behind that index and ends where it can.  The condition
is then replaced by its tree, and the pass goes on behind it. -/
theorem condition_stepWithin_eq_ok (registry : Registry) (limit : Nat) (tokens : List Token)
    (index : Nat) (h : index < tokens.length) (cursor : Nat) (line : List Token) :
    ((condition registry limit).stepWithin tokens index h).result = .ok (cursor, line) ↔
      ∃ span rest n c, tokens.drop (index + 1) = span ++ rest ∧
        Expression registry span rest n c ∧ n < limit ∧ Ends rest ∧
        cursor = index + 2 ∧ line = tokens.take (index + 1) ++ .condition c :: rest := by
  have hlen : (tokens.take index).length = index := List.length_take_of_le (Nat.le_of_lt h)
  rw [result_stepWithin, ← List.take_append_getElem h]
  constructor
  · intro hr
    cases hs : ((condition registry limit).step (tokens.take index).reverse tokens[index]
        (tokens.drop (index + 1))).result with
    | error e =>
      rw [hs] at hr
      cases hr
    | ok s =>
      obtain ⟨span, rest, n, c, hd, hx, hn, he, rfl⟩ := condition_step_eq_ok.mp hs
      rw [hs] at hr
      obtain ⟨rfl, rfl⟩ := Prod.mk.inj (Except.ok.inj hr)
      refine ⟨span, rest, n, c, hd, hx, hn, he, ?_, ?_⟩
      · simp [Step.behind, hlen]
      · simp [Step.behind, Step.ahead, hd]
  · intro hr
    obtain ⟨span, rest, n, c, hd, hx, hn, he, rfl, rfl⟩ := hr
    rw [condition_step_eq_ok.mpr ⟨span, rest, n, c, hd, hx, hn, he, rfl⟩]
    simp [Except.map, Step.behind, Step.ahead, hd, hlen]

/-- Two levels of nesting, a negation inside a run, and a connective that ends the
line. -/
theorem condition_stepWithin_nested :
    let gate : Selector := ⟨.door, false, "Gate", none⟩
    let isOpen : Condition := .boolean .door .open .equal true
    let line : List Token := [.wait, .whether, .not, .openParen, .selector gate,
      .property (.boolean .open), .or, .selector gate, .not, .property (.boolean .open),
      .closeParen, .and, .selector gate, .property (.boolean .open), .or]
    ∃ h : 1 < line.length,
      ((condition .standard 3).stepWithin line 1 h).result = .ok (3, [.wait, .whether,
        .condition (.and (.not (.or (.aggregate .all isOpen gate)
          (.aggregate .all (.not isOpen) gate))) (.aggregate .all isOpen gate)), .or]) := by
  intro gate isOpen line
  refine ⟨by decide, (condition_stepWithin_eq_ok .standard 3 line 1 (by decide) _ _).mpr ?_⟩
  have plain : ∀ rest, (∀ t ∈ rest.head?, t = .or) →
      IsRun .standard [.selector gate, .property (.boolean .open)] rest
        (.aggregate .all isOpen gate) := by
    intro rest hr
    refine isRun_iff.mpr ⟨by simp, _, rfl, ?_, rfl⟩
    intro t ht
    rw [hr t ht]
    rfl
  have negated : ∀ rest, IsRun .standard [.selector gate, .not, .property (.boolean .open)]
      (.closeParen :: rest) (.aggregate .all (.not isOpen) gate) := by
    intro rest
    exact isRun_iff.mpr ⟨by simp, _, rfl, by simp [ConditionRun.take, Token.literal?], rfl⟩
  refine ⟨(line.drop 2).take 12, [.or], 2, _, rfl, ⟨[.not, .openParen,
    .operand (.aggregate .all isOpen gate), .join .or,
    .operand (.aggregate .all (.not isOpen) gate), .closeParen, .join .and,
    .operand (.aggregate .all isOpen gate)], ?_, ?_⟩, by decide, ?_, rfl, rfl⟩
  · exact .mark rfl (.mark rfl (.run (plain _ (by simp)) (.mark rfl (.run (negated _)
      (.mark rfl (.mark rfl (.run (plain _ (by simp)) .nil)))))))
  · exact .join .and (.operand (.not (.group (.join .or (.operand (.run _)) (.run _))))) (.run _)
  · exact ⟨by simp, by simp⟩

end Pass
end DeviceScript
