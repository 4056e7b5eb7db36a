/-
The condition pass in place.

While the pass works, the line is made of the tokens in front of the condition, of the
pieces of the condition, which stand in the line as tokens, and of the tokens behind it.
The second stage sees all of them, but takes pieces only.  The pieces are a walk, so
there is an operand where it looks for one, and where a connective or a parenthesis is
looked for behind the last piece, the token that stands there is neither.
-/
import DeviceScript.Edit.Condition
import DeviceScript.Proofs.Condition.Balance
import DeviceScript.Proofs.Edit.Refinement

namespace DeviceScript

namespace Piece

/-- The token that a piece is while the pass works. -/
def toToken : Piece → Token
  | .not => .not
  | .openParen => .openParen
  | .closeParen => .closeParen
  | .join .and => .and
  | .join .or => .or
  | .operand c => .condition c

theorem toToken_opening (t : Token) (p : Piece) (h : opening? t = some p) : p.toToken = t := by
  cases t <;> cases h <;> rfl

theorem toToken_closing (t : Token) (p : Piece) (h : closing? t = some p) : p.toToken = t := by
  cases t <;> cases h
  rfl

theorem toToken_connective {t : Token} {k : Connective} (h : connective? t = some k) :
    (join k).toToken = t := by
  cases t <;> cases h <;> rfl

theorem connective?_toToken (k : Connective) : connective? (join k).toToken = some k := by
  cases k <;> rfl

/-- The leading pieces are the tokens that they are read from. -/
theorem map_toToken_leading {recognise : Token → Option Piece}
    (h : ∀ t p, recognise t = some p → p.toToken = t) (tokens : List Token) :
    (leading recognise tokens).map toToken = tokens.takeWhile fun t => (recognise t).isSome := by
  induction tokens with
  | nil => rfl
  | cons t tokens ih =>
    rw [leading]
    cases ht : recognise t with
    | none => rw [List.takeWhile_cons_of_neg (by simp [ht]), List.map_nil]
    | some p => rw [List.takeWhile_cons_of_pos (by simp [ht]), List.map_cons, ih, h t p ht]

theorem length_leading {recognise : Token → Option Piece}
    (h : ∀ t p, recognise t = some p → p.toToken = t) (tokens : List Token) :
    (leading recognise tokens).length =
      (tokens.takeWhile fun t => (recognise t).isSome).length := by
  rw [← map_toToken_leading h, List.length_map]

/-- The leading pieces as tokens, and the tokens behind them. -/
theorem map_toToken_leading_append {recognise : Token → Option Piece}
    (h : ∀ t p, recognise t = some p → p.toToken = t) (tokens : List Token) :
    (leading recognise tokens).map toToken ++ tokens.drop (leading recognise tokens).length =
      tokens := by
  induction tokens with
  | nil => rfl
  | cons t tokens ih =>
    rw [leading]
    cases ht : recognise t with
    | none => rfl
    | some p =>
      rw [List.map_cons, List.length_cons, List.drop_succ_cons, List.cons_append, ih, h t p ht]

end Piece

namespace Edit

open Piece

variable {front before tokens : List Token} {index : Nat}

/-! ## Block runs -/

/-- Passing over pieces. -/
theorem does_skip_leading {recognise : Token → Option Piece}
    (h : ∀ t p, recognise t = some p → p.toToken = t) (hi : front.length = index) :
    (skip (fun t => (recognise t).isSome) index).Does (front ++ tokens)
      (index + (leading recognise tokens).length) (front ++ tokens) := by
  rw [length_leading h]
  exact does_skip_append _ hi

theorem parseBlock_refines (registry : Registry) (hi : front.length = index) :
    (parseBlock registry index).Refines (front ++ tokens)
      ((scan ConditionRun.take {} tokens).1.condition registry index
        (scan ConditionRun.take {} tokens).2)
      fun c => ((), front ++ .condition c :: tokens.drop (scan ConditionRun.take {} tokens).2) := by
  obtain ⟨run, rest, rfl, hrun⟩ := exists_scan_span ConditionRun.take {} tokens
  refine (does_rest_append hi).refines ?_
  refine refines_ofLogged.followed fun c _ => ?_
  rw [hrun, List.drop_left]
  exact (does_splice_append _ hi rfl _).bind fun _ => rfl

theorem parseOperand_refines (registry : Registry) (hi : before.length = index) :
    (parseOperand registry index).Refines (before ++ tokens) (readOperand registry index tokens)
      fun q => (index + q.1.length, before ++ (q.1.map toToken ++ tokens.drop q.2)) := by
  have hopened := map_toToken_leading_append toToken_opening tokens
  have hline : before ++ tokens = before ++ (leading opening? tokens).map toToken ++
      tokens.drop (leading opening? tokens).length := by
    rw [List.append_assoc, hopened]
  have hfirst : (before ++ (leading opening? tokens).map toToken).length =
      index + (leading opening? tokens).length := by
    rw [List.length_append, List.length_map, hi]
  rw [readOperand]
  refine (does_skip_leading toToken_opening hi).refines ?_
  rw [hline]
  refine (parseBlock_refines registry hfirst).bind fun c _ => ?_
  dsimp only
  rw [List.append_cons]
  generalize hrest : (tokens.drop _).drop _ = rest
  have hclosed := map_toToken_leading_append toToken_closing rest
  have hnext : (before ++ (leading opening? tokens).map toToken ++ [Token.condition c]).length =
      index + (leading opening? tokens).length + 1 := length_snoc hfirst
  refine (does_skip_leading toToken_closing hnext).refines_pure (Prod.ext ?_ ?_)
  · simp only [List.length_append, List.length_cons]
    omega
  · simp only [List.map_append, List.map_cons, toToken, ← List.drop_drop, hrest]
    rw [List.append_assoc, List.cons_append, hclosed]
    simp

/-- All runs of a condition are read, each from where the one before it ends. -/
theorem parse_refines (registry : Registry) (turns : Nat) {before tokens : List Token} {index : Nat}
    (hi : before.length = index) (ht : tokens.length < turns) :
    (parse registry turns index).Refines (before ++ tokens) (read registry index tokens)
      fun q => ((), before ++ (q.1.map toToken ++ tokens.drop q.2)) := by
  induction turns generalizing before tokens index with
  | zero => exact absurd ht (Nat.not_lt_zero _)
  | succ turns ih =>
    rw [parse, Piece.read]
    refine (parseOperand_refines registry hi).bind ?_
    rintro ⟨here, taken⟩ -
    have hnext : (before ++ here.map toToken).length = index + here.length := by
      rw [List.length_append, List.length_map, hi]
    dsimp only
    rw [← List.append_assoc]
    refine (does_token? _ _).refines ?_
    rw [getElem?_append_at hnext]
    rcases hd : tokens.drop taken with _ | ⟨t, _ | ⟨next, more⟩⟩
    · exact refines_pure (by simp [hd])
    · -- Behind a connective there is nothing to go on with.
      have hend : ¬ index + here.length + 1 < (before ++ here.map toToken ++ [t]).length := by
        rw [length_snoc hnext]
        exact Nat.lt_irrefl _
      dsimp only [List.head?_cons, Option.bind_some]
      cases connective? t with
      | none => exact refines_pure (by simp [hd])
      | some k =>
        refine (does_length _).refines ?_
        rw [if_neg hend]
        exact refines_pure (by simp [hd])
    · dsimp only [List.head?_cons, Option.bind_some]
      cases hk : connective? t with
      | none => exact refines_pure (by simp [hd])
      | some k =>
        have hin : index + here.length + 1 <
            (before ++ here.map toToken ++ t :: next :: more).length := by
          rw [List.length_append, hnext, List.length_cons, List.length_cons]
          omega
        have hnext' : (before ++ here.map toToken ++ [t]).length = index + here.length + 1 :=
          length_snoc hnext
        have hless : (next :: more).length < turns := by
          have hlen := congrArg List.length hd
          rw [List.length_drop, List.length_cons] at hlen
          omega
        refine (does_length _).refines ?_
        rw [if_pos hin]
        refine (refines_emit _).bind fun _ _ => ?_
        dsimp only
        rw [List.append_cons]
        refine (ih hnext' hless).returning ?_
        rintro ⟨pieces, n⟩ -
        have hdrop : tokens.drop (taken + 1 + n) = (next :: more).drop n := by
          rw [← List.drop_drop, ← List.drop_drop, hd]
          rfl
        refine refines_pure (Prod.ext rfl ?_)
        dsimp only
        rw [hdrop, List.map_append, List.map_cons, toToken_connective hk]
        simp

/-! ## Operators -/

/-- The line once the first pieces of a walk are one condition. -/
def folded (before rest : List Token) (pieces : List Piece) (q : Condition × Nat) :
    Unit × List Token :=
  ((), before ++ .condition q.1 :: ((pieces.drop q.2).map toToken ++ rest))

theorem does_removeCondition {c : Condition} {back : List Token} (hi : front.length = index) :
    (removeCondition index).Does (front ++ .condition c :: back) c (front ++ back) :=
  (does_remove_append hi).bind fun _ => rfl

theorem foldOperand_trail {limit depth position n : Nat} {pieces : List Piece} {c : Condition}
    (hw : Walk pieces) (h : (foldOperand limit depth position pieces).result = .ok (c, n)) :
    Trail (pieces.drop n) := by
  obtain ⟨first, back, m, rfl, rfl, ho, -⟩ := foldOperand_sound h
  rw [List.drop_left]
  exact ho.trail hw

theorem foldOperand_count {limit depth position n : Nat} {pieces : List Piece} {c : Condition}
    (h : (foldOperand limit depth position pieces).result = .ok (c, n)) :
    0 < n ∧ n ≤ pieces.length := by
  obtain ⟨first, back, m, rfl, rfl, ho, -⟩ := foldOperand_sound h
  have hpos := List.length_pos_iff.mpr ho.ne_nil
  rw [List.length_append]
  omega

/-- A chain ends where no connective with something behind it follows. -/
theorem resolveLinks_stop (limit turns depth : Nat) (left : Condition) {back : List Token}
    (hi : before.length = index)
    (hb : ∀ t next more, back = t :: next :: more → connective? t = none) :
    (resolveLinks limit (turns + 1) depth index).Does (before ++ .condition left :: back) ()
      (before ++ .condition left :: back) := by
  rw [resolveLinks]
  refine (does_length _).bind ?_
  by_cases hin : index + 2 < (before ++ Token.condition left :: back).length
  · rw [if_pos hin]
    rcases back with _ | ⟨t, _ | ⟨next, more⟩⟩
    · rw [List.length_append, List.length_cons, List.length_nil] at hin
      omega
    · rw [List.length_append, List.length_cons, List.length_singleton] at hin
      omega
    · rw [List.append_cons]
      refine (does_token (getElem?_append_at (length_snoc hi))).bind ?_
      rw [hb t next more rfl]
      exact fun _ => rfl
  · rw [if_neg hin]
    exact fun _ => rfl

mutual

theorem resolveOperand_refines (limit turns depth : Nat) {before rest : List Token}
    {pieces : List Piece} {index : Nat} (hi : before.length = index) (hw : Walk pieces)
    (he : Ends rest) (ht : pieces.length ≤ turns) :
    (resolveOperand limit turns depth index).Refines (before ++ (pieces.map toToken ++ rest))
      (foldOperand limit depth index pieces) (folded before rest pieces) := by
  match turns with
  | 0 => exact absurd (List.eq_nil_of_length_eq_zero (Nat.le_zero.mp ht)) hw.ne_nil
  | turns + 1 =>
    rw [resolveOperand, foldOperand.eq_def]
    by_cases hd : limit ≤ depth
    · rw [if_pos hd, if_pos hd]
      exact refines_fail
    rw [if_neg hd, if_neg hd]
    refine (does_token? _ _).refines ?_
    rw [getElem?_append_at hi]
    obtain ⟨p, pieces, rfl, hp, hw'⟩ | ⟨c, pieces, rfl, -⟩ := hw.head_cases
    · have ht' := Nat.le_of_succ_le_succ ht
      cases p with
      | not =>
        refine (does_remove_append hi).refines ?_
        refine (resolveOperand_refines limit turns (depth + 1) hi hw' he ht').bind ?_
        rintro ⟨c, n⟩ -
        refine (does_removeCondition hi).refines ?_
        exact (does_insert_append hi).refines_pure rfl
      | openParen =>
        have hopen : (before ++ [Token.openParen]).length = index + 1 := length_snoc hi
        rw [List.map_cons, List.cons_append, toToken, List.append_cons]
        refine (resolveChain_refines limit turns (depth + 1) hopen hw' he ht').bind ?_
        rintro ⟨c, n⟩ hc
        obtain ⟨chain, back, m, rfl, rfl, -, hb⟩ := foldChain_walk hw' hc
        have hclose : (before ++ [Token.openParen] ++ [Token.condition c]).length = index + 2 :=
          length_snoc hopen
        dsimp only [folded]
        rw [List.drop_left, List.append_cons]
        refine (does_token? _ _).refines ?_
        rw [getElem?_append_at hclose]
        rcases hb with rfl | ⟨more, rfl⟩
        · -- The token behind the last piece closes nothing.
          simp only [List.map_nil, List.nil_append]
          split
          · rename_i hr
            exact absurd hr he.closed
          · exact refines_fail
        · have hdrop : (openParen :: (chain ++ closeParen :: more)).drop (chain.length + 2) =
              more := by
            rw [List.drop_succ_cons, List.drop_length_add_append]
            rfl
          refine (does_remove_append hclose).refines ?_
          rw [List.append_assoc, List.append_assoc]
          refine ((does_remove_append hi).bind fun _ => rfl).refines_pure ?_
          rw [folded, hdrop]
          rfl
      | closeParen | join _ | operand _ => cases hp
    · exact refines_pure rfl
termination_by 2 * turns

theorem resolveChain_refines (limit turns depth : Nat) {before rest : List Token}
    {pieces : List Piece} {index : Nat} (hi : before.length = index) (hw : Walk pieces)
    (he : Ends rest) (ht : pieces.length ≤ turns) :
    (resolveChain limit turns depth index).Refines (before ++ (pieces.map toToken ++ rest))
      (foldChain limit depth index pieces) (folded before rest pieces) := by
  rw [resolveChain, foldChain]
  refine (resolveOperand_refines limit turns depth hi hw he ht).bind ?_
  rintro ⟨first, n⟩ hfirst
  have hrest := foldOperand_trail hw hfirst
  have hless : (pieces.drop n).length < turns := by
    have hn := foldOperand_count hfirst
    rw [List.length_drop]
    omega
  refine (resolveLinks_refines limit turns depth first hi hrest he hless).returning ?_
  rintro ⟨c, m⟩ -
  refine refines_pure ?_
  simp only [folded, List.drop_drop]
termination_by 2 * turns + 1

/-- Behind an operand of a walk the chain goes on, or it ends at a parenthesis or at the last
piece.  What stands in the line behind the last piece is no link of the chain. -/
theorem resolveLinks_refines (limit turns depth : Nat) {before rest : List Token}
    {pieces : List Piece} {index : Nat} (left : Condition) (hi : before.length = index)
    (hp : Trail pieces) (he : Ends rest) (ht : pieces.length < turns) :
    (resolveLinks limit turns depth index).Refines
      (before ++ .condition left :: (pieces.map toToken ++ rest))
      (foldLinks limit depth index left pieces) (folded before rest pieces) := by
  match turns with
  | 0 => exact absurd ht (Nat.not_lt_zero _)
  | turns + 1 =>
    cases hp with
    | nil =>
      have hr : ∀ t next more, rest = t :: next :: more → connective? t = none := by
        intro t next more hr
        exact connective?_eq_none.mpr (he.unjoined t next more hr)
      rw [foldLinks.eq_def]
      exact (resolveLinks_stop limit turns depth left hi hr).refines_pure rfl
    | @close pieces _ =>
      have hr : ∀ t next more,
          Token.closeParen :: (pieces.map toToken ++ rest) = t :: next :: more →
          connective? t = none := by
        intro t next more hr
        obtain ⟨rfl, -⟩ := List.cons.inj hr
        rfl
      rw [foldLinks.eq_def]
      exact (resolveLinks_stop limit turns depth left hi hr).refines_pure rfl
    | @join pieces k hw =>
      obtain ⟨next, more, rfl⟩ := List.exists_cons_of_ne_nil hw.ne_nil
      have hin : index + 2 < (before ++ .condition left ::
          ((join k :: next :: more).map toToken ++ rest)).length := by
        simp [hi]
      have hjoin : (before ++ [Token.condition left]).length = index + 1 := length_snoc hi
      have hright : (before ++ [Token.condition left] ++ [(join k).toToken]).length =
          index + 2 := length_snoc hjoin
      have ht' : (next :: more).length ≤ turns := Nat.le_of_lt_succ (Nat.lt_of_succ_lt ht)
      rw [resolveLinks, foldLinks.eq_def]
      refine (does_length _).refines ?_
      rw [if_pos hin, List.append_cons, List.map_cons, List.cons_append]
      refine (does_token (getElem?_append_at hjoin)).refines ?_
      rw [connective?_toToken, List.append_cons]
      refine (resolveOperand_refines limit turns depth hright hw he ht').bind ?_
      rintro ⟨right, n⟩ hr
      dsimp only [folded]
      refine (does_removeCondition hright).refines ?_
      rw [List.append_assoc, List.singleton_append]
      refine (does_remove_append hjoin).refines ?_
      rw [List.append_assoc, List.singleton_append]
      refine (does_removeCondition hi).refines ?_
      refine (refines_emit _).bind fun _ _ => ?_
      refine (does_insert_append hi).refines ?_
      have hrest := foldOperand_trail hw hr
      have hless : ((next :: more).drop n).length < turns := by
        have hn := foldOperand_count hr
        rw [List.length_drop]
        omega
      have hlinks := resolveLinks_refines limit turns depth (k.join left right) hi hrest he hless
      refine hlinks.returning ?_
      rintro ⟨c, m⟩ -
      refine refines_pure ?_
      simp only [folded, List.drop_succ_cons, List.drop_drop]
termination_by 2 * turns

end

end Edit

namespace Editor

open Edit Piece

theorem condition_implements (registry : Registry) (limit turns : Nat) :
    (condition registry limit turns).Implements (.condition registry limit) turns where
  starts := rfl
  convertNext before t after hafter := by
    have hstart : (before.reverse ++ [t]).length = before.length + 1 :=
      length_snoc List.length_reverse
    refine (refines_emit _).bind fun _ _ => ?_
    dsimp only
    rw [List.append_cons]
    refine (parse_refines registry turns hstart hafter).bind ?_
    rintro ⟨pieces, count⟩ hr
    obtain ⟨hw, span, rest, rfl, rfl, hs, he⟩ := read_sound hr
    have hless : pieces.length ≤ turns := by
      have hspan := hs.length_le
      rw [List.length_append] at hafter
      omega
    dsimp only
    rw [List.drop_left]
    refine (resolveChain_refines limit turns 0 hstart hw he hless).bind ?_
    rintro ⟨c, n⟩ hc
    obtain ⟨chain, back, m, rfl, rfl, -, hb⟩ := foldChain_walk hw hc
    have hend : (before.reverse ++ [t] ++ [Token.condition c]).length = before.length + 2 :=
      length_snoc hstart
    dsimp only [folded]
    rw [List.drop_left, List.append_cons]
    refine (does_token? _ _).refines ?_
    rw [getElem?_append_at hend]
    rcases hb with rfl | ⟨more, rfl⟩
    · simp only [List.map_nil, List.nil_append]
      split
      · rename_i hr
        exact absurd hr he.closed
      · refine refines_pure ?_
        simp [Step.behind, Step.ahead]
    · exact refines_fail

end Editor
end DeviceScript
