/-
What the second stage of the condition pass folds.

The three functions of the stage fold a prefix of the pieces they are given.  They
succeed exactly when that prefix derives from the grammar and no run in it is
nested too deeply, and the tree they build is the one of the derivation.
-/
import DeviceScript.Proofs.Condition.Grammar

namespace DeviceScript
namespace Piece

/-! ## Soundness -/

section

variable {limit depth position n : Nat} {pieces : List Piece} {c : Condition}

/-- What an operand can be folded from. -/
theorem foldOperand_cases (h : (foldOperand limit depth position pieces).result = .ok (c, n)) :
    depth < limit ∧
      ((∃ back, pieces = .operand c :: back ∧ n = 1) ∨
      (∃ rest c' m, pieces = .not :: rest ∧
        (foldOperand limit (depth + 1) position rest).result = .ok (c', m) ∧
        c = .not c' ∧ n = m + 1) ∨
      (∃ rest m back, pieces = .openParen :: rest ∧
        (foldChain limit (depth + 1) (position + 1) rest).result = .ok (c, m) ∧
        rest.drop m = .closeParen :: back ∧ n = m + 2)) := by
  rw [foldOperand.eq_def] at h
  by_cases hd : limit ≤ depth
  · rw [if_pos hd] at h
    cases h
  rw [if_neg hd] at h
  refine ⟨by omega, ?_⟩
  match pieces, h with
  | .operand c' :: back, h =>
    obtain ⟨rfl, rfl⟩ := Prod.mk.inj (Except.ok.inj h)
    exact .inl ⟨back, rfl, rfl⟩
  | .not :: rest, h =>
    obtain ⟨⟨c', m⟩, hr, h⟩ := Logged.result_bind_eq_ok.mp h
    obtain ⟨rfl, rfl⟩ := Prod.mk.inj (Except.ok.inj h)
    exact .inr (.inl ⟨rest, c', m, rfl, hr, rfl, rfl⟩)
  | .openParen :: rest, h =>
    obtain ⟨⟨c', m⟩, hr, h⟩ := Logged.result_bind_eq_ok.mp h
    refine .inr (.inr ?_)
    dsimp only at h
    split at h
    · rename_i back hb
      obtain ⟨rfl, rfl⟩ := Prod.mk.inj (Except.ok.inj h)
      exact ⟨rest, m, back, rfl, hr, hb, rfl⟩
    · cases h

theorem foldChain_cases (h : (foldChain limit depth position pieces).result = .ok (c, n)) :
    ∃ first m k, (foldOperand limit depth position pieces).result = .ok (first, m) ∧
      (foldLinks limit depth position first (pieces.drop m)).result = .ok (c, k) ∧ n = m + k := by
  rw [foldChain] at h
  obtain ⟨⟨first, m⟩, ho, h⟩ := Logged.result_bind_eq_ok.mp h
  obtain ⟨⟨c', k⟩, hl, h⟩ := Logged.result_bind_eq_ok.mp h
  obtain ⟨rfl, rfl⟩ := Prod.mk.inj (Except.ok.inj h)
  exact ⟨first, m, k, ho, hl, rfl⟩

theorem foldLinks_cases {left : Condition}
    (h : (foldLinks limit depth position left pieces).result = .ok (c, n)) :
    (c = left ∧ n = 0 ∧ ∀ k next rest, pieces ≠ .join k :: next :: rest) ∨
      ∃ k rest right m m', pieces = .join k :: rest ∧
        (foldOperand limit depth (position + 2) rest).result = .ok (right, m) ∧
        (foldLinks limit depth position (k.join left right) (rest.drop m)).result = .ok (c, m') ∧
        n = m + m' + 1 := by
  rw [foldLinks.eq_def] at h
  split at h
  · rename_i k next rest
    obtain ⟨⟨right, m⟩, ho, h⟩ := Logged.result_bind_eq_ok.mp h
    obtain ⟨⟨⟩, -, h⟩ := Logged.result_bind_eq_ok.mp h
    obtain ⟨⟨c', m'⟩, hl, h⟩ := Logged.result_bind_eq_ok.mp h
    obtain ⟨rfl, rfl⟩ := Prod.mk.inj (Except.ok.inj h)
    exact .inr ⟨k, next :: rest, right, m, m', rfl, ho, hl, rfl⟩
  · rename_i hp
    obtain ⟨rfl, rfl⟩ := Prod.mk.inj (Except.ok.inj h)
    exact .inl ⟨rfl, rfl, hp⟩

end

mutual

theorem foldOperand_sound {limit depth position n : Nat} {pieces : List Piece} {c : Condition}
    (h : (foldOperand limit depth position pieces).result = .ok (c, n)) :
    ∃ front back m, pieces = front ++ back ∧ n = front.length ∧ IsOperand front m c ∧
      depth + m < limit := by
  obtain ⟨hd, ⟨back, hp, hn⟩ | ⟨rest, c', m, hp, hr, hc, hn⟩ | ⟨rest, m, back, hp, hr, hb, hn⟩⟩ :=
    foldOperand_cases h
  · exact ⟨[.operand c], back, 0, hp, hn, .run c, hd⟩
  · obtain ⟨front, back, k, rfl, rfl, hf, hk⟩ := foldOperand_sound hr
    rw [hc]
    exact ⟨.not :: front, back, k + 1, hp, hn, .not hf, by omega⟩
  · obtain ⟨front, back', k, rfl, rfl, hf, hk⟩ := foldChain_sound hr
    rw [List.drop_left] at hb
    subst hb
    refine ⟨.openParen :: (front ++ [.closeParen]), back, k + 1, ?_, ?_, .group hf, by omega⟩
    · rw [hp]
      simp
    · rw [hn]
      simp
termination_by (pieces.length, 0)
decreasing_by
  all_goals
    subst_vars
    exact Prod.Lex.left _ _ (Nat.lt_succ_self _)

theorem foldChain_sound {limit depth position n : Nat} {pieces : List Piece} {c : Condition}
    (h : (foldChain limit depth position pieces).result = .ok (c, n)) :
    ∃ front back m, pieces = front ++ back ∧ n = front.length ∧ IsChain front m c ∧
      depth + m < limit := by
  obtain ⟨first, n₁, n₂, ho, hl, hn⟩ := foldChain_cases h
  obtain ⟨front, rest, m, hp, rfl, hf, hm⟩ := foldOperand_sound ho
  rw [hp, List.drop_left] at hl
  obtain ⟨more, back, k, rfl, rfl, hk, hd⟩ := foldLinks_sound hl (.operand hf) hm
  refine ⟨front ++ more, back, k, ?_, ?_, hk, hd⟩
  · rw [hp, List.append_assoc]
  · rw [hn, List.length_append]
termination_by (pieces.length, 2)
decreasing_by
  · exact Prod.Lex.right _ (by decide)
  · subst_vars
    rw [Prod.lex_def, List.length_append]
    change _ < _ ∨ _ = _ ∧ 1 < 2
    omega

/-- The links of a chain lengthen it to the right. -/
theorem foldLinks_sound {limit depth position n m : Nat} {pieces front : List Piece}
    {left c : Condition} (h : (foldLinks limit depth position left pieces).result = .ok (c, n))
    (hf : IsChain front m left) (hm : depth + m < limit) :
    ∃ more back k, pieces = more ++ back ∧ n = more.length ∧ IsChain (front ++ more) k c ∧
      depth + k < limit := by
  obtain ⟨rfl, rfl, -⟩ | ⟨k, rest, right, n₁, n₂, hp, ho, hl, hn⟩ := foldLinks_cases h
  · exact ⟨[], pieces, m, rfl, rfl, by rwa [List.append_nil], hm⟩
  · obtain ⟨mid, tail, m', rfl, rfl, hr, hm'⟩ := foldOperand_sound ho
    rw [List.drop_left] at hl
    obtain ⟨more, back, k', rfl, rfl, hk, hd⟩ := foldLinks_sound hl (.join k hf hr) (by omega)
    refine ⟨.join k :: (mid ++ more), back, k', ?_, ?_, ?_, hd⟩
    · rw [hp]
      simp
    · rw [hn]
      simp
    · simpa using hk
termination_by (pieces.length, 1)
decreasing_by
  · subst_vars
    exact Prod.Lex.left _ _ (Nat.lt_succ_self _)
  · subst_vars
    refine Prod.Lex.left _ _ ?_
    rw [List.length_cons, List.length_append]
    omega

end

/-! ## Completeness -/

theorem IsOperand.ne_nil {pieces : List Piece} {n : Nat} {c : Condition}
    (h : IsOperand pieces n c) : pieces ≠ [] := by
  cases h <;> exact List.cons_ne_nil _ _

theorem foldLinks_stop {limit depth position : Nat} {left : Condition} {pieces : List Piece}
    (h : ∀ k next rest, pieces ≠ .join k :: next :: rest) :
    (foldLinks limit depth position left pieces).result = .ok (left, 0) := by
  rw [foldLinks.eq_def]
  split
  · exact absurd rfl (h _ _ _)
  · rfl

theorem foldLinks_join {limit depth position m : Nat} {k : Connective} {left right : Condition}
    {rest : List Piece} (hn : rest ≠ [])
    (hr : (foldOperand limit depth (position + 2) rest).result = .ok (right, m)) :
    (foldLinks limit depth position left (.join k :: rest)).result =
      (foldLinks limit depth position (k.join left right) (rest.drop m)).result.map
        fun q => (q.1, m + q.2 + 1) := by
  obtain ⟨next, more, rfl⟩ := List.exists_cons_of_ne_nil hn
  rw [foldLinks.eq_def]
  simp only [Logged.result_bind, hr, Except.bind, Logged.result_emit]
  cases (foldLinks limit depth position (k.join left right) ((next :: more).drop m)).result <;> rfl

mutual

theorem IsOperand.fold {pieces : List Piece} {n : Nat} {c : Condition} {limit depth : Nat}
    (position : Nat) (back : List Piece) (hd : depth + n < limit) :
    IsOperand pieces n c →
    (foldOperand limit depth position (pieces ++ back)).result = .ok (c, pieces.length)
  | .run c => by
    rw [List.singleton_append, foldOperand.eq_def, if_neg (by omega)]
    rfl
  | .not h => by
    rw [List.cons_append, foldOperand.eq_def, if_neg (by omega)]
    exact Logged.result_bind_eq_ok.mpr ⟨_, h.fold position back (by omega), rfl⟩
  | @IsOperand.group pieces n c h => by
    have hd' : depth + 1 + n < limit := by omega
    have hc := h.fold (position + 1) ([.closeParen] ++ back) hd'
    rw [List.cons_append, List.append_assoc, foldOperand.eq_def, if_neg (by omega)]
    rw [foldLinks_stop (by simp)] at hc
    refine Logged.result_bind_eq_ok.mpr ⟨_, hc, ?_⟩
    simp

/-- Once a chain is folded, what is left is to fold the links behind it. -/
theorem IsChain.fold {pieces : List Piece} {n : Nat} {c : Condition} {limit depth : Nat}
    (position : Nat) (back : List Piece) (hd : depth + n < limit) :
    IsChain pieces n c →
    (foldChain limit depth position (pieces ++ back)).result =
      (foldLinks limit depth position c back).result.map fun q => (q.1, pieces.length + q.2)
  | .operand h => by
    rw [foldChain, Logged.result_bind, h.fold position back hd]
    simp only [Except.bind, Logged.result_bind, List.drop_left]
    cases (foldLinks limit depth position c back).result <;> rfl
  | @IsChain.join front more n m left right k hf ho => by
    have hn : depth + n < limit := by omega
    have hm : depth + m < limit := by omega
    have hl := hf.fold position (.join k :: (more ++ back)) hn
    have hr := ho.fold (position + 2) back hm
    have hne := List.append_ne_nil_of_left_ne_nil ho.ne_nil back
    rw [List.append_assoc, List.cons_append, hl, foldLinks_join hne hr, List.drop_left]
    cases (foldLinks limit depth position (k.join left right) back).result with
    | error e => rfl
    | ok q =>
      simp only [Except.map, List.length_append, List.length_cons]
      congr 2
      omega

end

/-- All pieces are folded together exactly when they are a chain whose runs have room
below the limit. -/
theorem foldChain_all_iff {limit depth position : Nat} {pieces : List Piece} {c : Condition} :
    (foldChain limit depth position pieces).result = .ok (c, pieces.length) ↔
      ∃ n, IsChain pieces n c ∧ depth + n < limit := by
  constructor
  · intro h
    obtain ⟨front, back, n, rfl, hl, hf, hn⟩ := foldChain_sound h
    rw [List.length_append] at hl
    have hb : back = [] := List.eq_nil_of_length_eq_zero (by omega)
    rw [hb, List.append_nil]
    exact ⟨n, hf, hn⟩
  · intro h
    obtain ⟨n, h, hn⟩ := h
    have hf := h.fold position [] hn
    rw [List.append_nil, foldLinks_stop (by simp)] at hf
    exact hf

/-! ## Failure -/

section

variable {limit depth position : Nat} {pieces : List Piece} {e : CompileError}

/-- Why an operand cannot be folded. -/
theorem foldOperand_error_cases
    (h : (foldOperand limit depth position pieces).result = .error e) :
    (limit ≤ depth ∧ e = .conditionTooDeep limit) ∨
      (∃ rest, pieces = .not :: rest ∧
        (foldOperand limit (depth + 1) position rest).result = .error e) ∨
      (∃ rest, pieces = .openParen :: rest ∧
        (foldChain limit (depth + 1) (position + 1) rest).result = .error e) ∨
      (∃ rest c m, pieces = .openParen :: rest ∧
        (foldChain limit (depth + 1) (position + 1) rest).result = .ok (c, m) ∧
        (∀ back, rest.drop m ≠ .closeParen :: back) ∧ e = .mismatchedParenthesis position) ∨
      ((∀ p ∈ pieces.head?, p = .closeParen ∨ ∃ k, p = .join k) ∧
        ∃ found, e = .invalidConditionToken position found) := by
  rw [foldOperand.eq_def] at h
  by_cases hd : limit ≤ depth
  · rw [if_pos hd] at h
    exact .inl ⟨hd, (Except.error.inj h).symm⟩
  rw [if_neg hd] at h
  refine .inr ?_
  match pieces, h with
  | .operand c :: rest, h => cases h
  | .not :: rest, h =>
    rcases Logged.result_bind_eq_error.mp h with hr | ⟨q, -, hq⟩
    · exact .inl ⟨rest, rfl, hr⟩
    · cases hq
  | .openParen :: rest, h =>
    refine .inr ?_
    rcases Logged.result_bind_eq_error.mp h with hr | ⟨⟨c, m⟩, hr, hm⟩
    · exact .inl ⟨rest, rfl, hr⟩
    · dsimp only at hm
      split at hm
      · cases hm
      · rename_i hb
        exact .inr (.inl ⟨rest, c, m, rfl, hr, hb, (Except.error.inj hm).symm⟩)
  | [], h => exact .inr (.inr (.inr ⟨by simp, _, (Except.error.inj h).symm⟩))
  | .closeParen :: rest, h =>
    exact .inr (.inr (.inr ⟨by simp, _, (Except.error.inj h).symm⟩))
  | .join k :: rest, h =>
    exact .inr (.inr (.inr ⟨by simp, _, (Except.error.inj h).symm⟩))

theorem foldChain_error_cases (h : (foldChain limit depth position pieces).result = .error e) :
    (foldOperand limit depth position pieces).result = .error e ∨
      ∃ first n, (foldOperand limit depth position pieces).result = .ok (first, n) ∧
        (foldLinks limit depth position first (pieces.drop n)).result = .error e := by
  rw [foldChain] at h
  rcases Logged.result_bind_eq_error.mp h with ho | ⟨⟨first, n⟩, ho, h⟩
  · exact .inl ho
  · rcases Logged.result_bind_eq_error.mp h with hl | ⟨q, -, hq⟩
    · exact .inr ⟨first, n, ho, hl⟩
    · cases hq

theorem foldLinks_error_cases {left : Condition}
    (h : (foldLinks limit depth position left pieces).result = .error e) :
    ∃ k rest, pieces = .join k :: rest ∧
      ((foldOperand limit depth (position + 2) rest).result = .error e ∨
        ∃ right n, (foldOperand limit depth (position + 2) rest).result = .ok (right, n) ∧
          (foldLinks limit depth position (k.join left right) (rest.drop n)).result =
            .error e) := by
  rw [foldLinks.eq_def] at h
  split at h
  · rename_i k next rest
    refine ⟨k, next :: rest, rfl, ?_⟩
    rcases Logged.result_bind_eq_error.mp h with ho | ⟨⟨right, n⟩, ho, h⟩
    · exact .inl ho
    rcases Logged.result_bind_eq_error.mp h with hu | ⟨_, -, h⟩
    · cases hu
    rcases Logged.result_bind_eq_error.mp h with hl | ⟨q, -, hq⟩
    · exact .inr ⟨right, n, ho, hl⟩
    · cases hq
  · cases h

end

end Piece
end DeviceScript
