/-
How deeply the runs of a condition are nested.

The number in a derivation of the grammar says how deeply its runs are nested at most.
Here the same is said of the pieces as they stand in the line: `enclosing` counts the
operators in front of a run that apply to it.  An opening parenthesis applies to
everything up to its partner, and a negation to the one operand behind it.  The largest
of these numbers over the runs of a chain is the number of its derivation.
-/
import DeviceScript.Proofs.Condition.Fold

namespace DeviceScript
namespace Piece

/-- Whether a parenthesis in front of the pieces is still open behind them, when `n` more
were opened inside of it. -/
def staysOpen : Nat → List Piece → Bool
  | _, [] => true
  | n, .openParen :: rest => staysOpen (n + 1) rest
  | 0, .closeParen :: _ => false
  | n + 1, .closeParen :: rest => staysOpen n rest
  | n, _ :: rest => staysOpen n rest

/-- Whether a piece applies to what stands behind `between`, where it stands right in
front of `between`. -/
def encloses : Piece → List Piece → Bool
  | .openParen, between => staysOpen 0 between
  | .not, [] => true
  | .not, p :: between => encloses p between
  | _, _ => false

/-- How many of the pieces apply to what stands behind them all. -/
def enclosing : List Piece → Nat
  | [] => 0
  | p :: front => (encloses p front).toNat + enclosing front

/-- One of the runs has `n` negations and parentheses around it. -/
def Nested (pieces : List Piece) (n : Nat) : Prop :=
  ∃ front c back, pieces = front ++ .operand c :: back ∧ enclosing front = n

/-! ## Complete operands

Nothing inside an operand or a chain reaches beyond it. -/

theorem staysOpen_of_append {n : Nat} {front back : List Piece}
    (h : staysOpen n (front ++ back) = true) : staysOpen n front = true := by
  induction front generalizing n with
  | nil => rfl
  | cons p front ih =>
    cases p with
    | openParen => exact ih h
    | closeParen =>
      cases n with
      | zero => cases h
      | succ n => exact ih h
    | not | join | operand => cases n <;> exact ih h

theorem enclosing_le_append (front back : List Piece) :
    enclosing back ≤ enclosing (front ++ back) := by
  induction front with
  | nil => exact Nat.le_refl _
  | cons p front ih =>
    rw [List.cons_append, enclosing]
    omega

mutual

theorem IsOperand.staysOpen_append {pieces : List Piece} {n : Nat} {c : Condition} (k : Nat)
    (rest : List Piece) : IsOperand pieces n c → staysOpen k (pieces ++ rest) = staysOpen k rest
  | .run _ => by cases k <;> rfl
  | .not h => by
    rw [← h.staysOpen_append k rest]
    cases k <;> rfl
  | .group h => by
    rw [List.cons_append, List.append_assoc, staysOpen, h.staysOpen_append (k + 1)]
    rfl

theorem IsChain.staysOpen_append {pieces : List Piece} {n : Nat} {c : Condition} (k : Nat)
    (rest : List Piece) : IsChain pieces n c → staysOpen k (pieces ++ rest) = staysOpen k rest
  | .operand h => h.staysOpen_append k rest
  | .join j hf hb => by
    rw [List.append_assoc, hf.staysOpen_append k, ← hb.staysOpen_append k rest]
    cases k <;> rfl

end

theorem IsChain.staysOpen_front {pieces front back : List Piece} {n : Nat} {c : Condition}
    (h : IsChain pieces n c) (hp : pieces = front ++ back) : staysOpen 0 front = true := by
  have hall : staysOpen 0 (pieces ++ []) = true := h.staysOpen_append 0 []
  rw [List.append_nil, hp] at hall
  exact staysOpen_of_append hall

mutual

theorem IsOperand.enclosing_append {pieces : List Piece} {n : Nat} {c : Condition}
    (rest : List Piece) : IsOperand pieces n c → enclosing (pieces ++ rest) = enclosing rest
  | .run _ => by simp [enclosing, encloses]
  | @IsOperand.not pieces _ _ h => by
    have hrest := h.enclosing_append rest
    rw [List.cons_append, enclosing, hrest]
    -- The negation encloses what the head of its operand does.
    obtain ⟨p, more, rfl⟩ := List.exists_cons_of_ne_nil h.ne_nil
    have hmore := enclosing_le_append more rest
    rw [List.cons_append, enclosing] at hrest
    rw [List.cons_append, encloses]
    omega
  | @IsOperand.group chain _ _ h => by
    have hclose : encloses .openParen (chain ++ .closeParen :: rest) = false := by
      rw [encloses, h.staysOpen_append 0]
      rfl
    have hchain : enclosing (chain ++ .closeParen :: rest) = enclosing (.closeParen :: rest) :=
      h.enclosing_append _
    rw [List.cons_append, List.append_assoc, List.singleton_append, enclosing, hclose, hchain]
    simp [enclosing, encloses]

theorem IsChain.enclosing_append {pieces : List Piece} {n : Nat} {c : Condition}
    (rest : List Piece) : IsChain pieces n c → enclosing (pieces ++ rest) = enclosing rest
  | .operand h => h.enclosing_append rest
  | .join k hf hb => by
    rw [List.append_assoc, hf.enclosing_append, List.cons_append, enclosing,
      hb.enclosing_append rest]
    simp [encloses]

end

/-! ## Runs -/

theorem exists_run_of_concat {x front back : List Piece} {d : Condition}
    (h : x ++ [.closeParen] = front ++ .operand d :: back) :
    ∃ more, x = front ++ .operand d :: more := by
  rcases List.append_eq_append_iff.mp h with ⟨as, -, ha⟩ | ⟨bs, rfl, hb⟩
  · cases as with
    | nil => cases ha
    | cons a as => simp at ha
  · cases bs with
    | nil => cases hb
    | cons b bs =>
      obtain ⟨rfl, -⟩ := List.cons.inj hb
      exact ⟨bs, rfl⟩

/-- A negation in front of an operand applies to each of its runs. -/
theorem IsOperand.encloses_not {pieces front back : List Piece} {n : Nat} {c d : Condition}
    (hp : pieces = front ++ .operand d :: back) :
    IsOperand pieces n c → encloses .not front = true
  | .run c => by
    cases front with
    | nil => rfl
    | cons q front => simp at hp
  | .not h => by
    cases front with
    | nil => rfl
    | cons q front =>
      obtain ⟨rfl, hf⟩ := List.cons.inj hp
      rw [encloses]
      exact h.encloses_not hf
  | .group h => by
    cases front with
    | nil => rfl
    | cons q front =>
      obtain ⟨rfl, hf⟩ := List.cons.inj hp
      obtain ⟨more, hm⟩ := exists_run_of_concat hf
      rw [encloses, encloses]
      exact h.staysOpen_front hm

theorem nested_run {c : Condition} {k : Nat} : Nested [.operand c] k ↔ k = 0 := by
  constructor
  · intro h
    obtain ⟨front, d, back, hp, rfl⟩ := h
    cases front with
    | nil => rfl
    | cons q front => simp at hp
  · intro h
    exact ⟨[], c, [], rfl, h.symm⟩

theorem IsOperand.nested_not {pieces : List Piece} {n k : Nat} {c : Condition}
    (h : IsOperand pieces n c) :
    Nested (.not :: pieces) k ↔ ∃ j, Nested pieces j ∧ k = j + 1 := by
  constructor
  · intro hk
    obtain ⟨front, d, back, hp, rfl⟩ := hk
    cases front with
    | nil => cases hp
    | cons q front =>
      obtain ⟨rfl, hf⟩ := List.cons.inj hp
      refine ⟨enclosing front, ⟨front, d, back, hf, rfl⟩, ?_⟩
      rw [enclosing, h.encloses_not hf]
      exact Nat.add_comm _ _
  · intro hk
    obtain ⟨j, ⟨front, d, back, hf, rfl⟩, rfl⟩ := hk
    refine ⟨.not :: front, d, back, by rw [hf, List.cons_append], ?_⟩
    rw [enclosing, h.encloses_not hf]
    exact Nat.add_comm _ _

theorem IsChain.nested_group {pieces : List Piece} {n k : Nat} {c : Condition}
    (h : IsChain pieces n c) :
    Nested (.openParen :: (pieces ++ [.closeParen])) k ↔ ∃ j, Nested pieces j ∧ k = j + 1 := by
  constructor
  · intro hk
    obtain ⟨front, d, back, hp, rfl⟩ := hk
    cases front with
    | nil => cases hp
    | cons q front =>
      obtain ⟨rfl, hf⟩ := List.cons.inj hp
      obtain ⟨more, hm⟩ := exists_run_of_concat hf
      refine ⟨enclosing front, ⟨front, d, more, hm, rfl⟩, ?_⟩
      rw [enclosing, encloses, h.staysOpen_front hm]
      exact Nat.add_comm _ _
  · intro hk
    obtain ⟨j, ⟨front, d, back, hf, rfl⟩, rfl⟩ := hk
    refine ⟨.openParen :: front, d, back ++ [.closeParen], by simp [hf], ?_⟩
    rw [enclosing, encloses, h.staysOpen_front hf]
    exact Nat.add_comm _ _

/-- The runs on the two sides of a connective do not see each other. -/
theorem IsChain.nested_join {x y : List Piece} {n k : Nat} {c : Condition} (j : Connective)
    (h : IsChain x n c) : Nested (x ++ .join j :: y) k ↔ Nested x k ∨ Nested y k := by
  have hx : ∀ front, enclosing (x ++ .join j :: front) = enclosing front := by
    intro front
    rw [h.enclosing_append, enclosing]
    simp [encloses]
  constructor
  · intro hk
    obtain ⟨front, d, back, hp, rfl⟩ := hk
    rcases List.append_eq_append_iff.mp hp with ⟨as, rfl, ha⟩ | ⟨bs, hb, he⟩
    · cases as with
      | nil => cases ha
      | cons a as =>
        obtain ⟨rfl, hy⟩ := List.cons.inj ha
        exact .inr ⟨as, d, back, hy, (hx as).symm⟩
    · cases bs with
      | nil => cases he
      | cons b bs =>
        obtain ⟨rfl, -⟩ := List.cons.inj he
        exact .inl ⟨front, d, bs, hb, rfl⟩
  · intro hk
    obtain ⟨front, d, back, rfl, rfl⟩ | ⟨front, d, back, rfl, rfl⟩ := hk
    · exact ⟨front, d, back ++ .join j :: y, by simp, rfl⟩
    · exact ⟨x ++ .join j :: front, d, back, by simp, hx front⟩

mutual

theorem IsOperand.nested_max {pieces : List Piece} {n : Nat} {c : Condition} :
    IsOperand pieces n c → Nested pieces n ∧ ∀ k, Nested pieces k → k ≤ n
  | .run c => ⟨nested_run.mpr rfl, fun k hk => Nat.le_of_eq (nested_run.mp hk)⟩
  | .not h => by
    obtain ⟨hn, hmax⟩ := h.nested_max
    refine ⟨h.nested_not.mpr ⟨_, hn, rfl⟩, fun k hk => ?_⟩
    obtain ⟨j, hj, rfl⟩ := h.nested_not.mp hk
    exact Nat.succ_le_succ (hmax j hj)
  | .group h => by
    obtain ⟨hn, hmax⟩ := h.nested_max
    refine ⟨h.nested_group.mpr ⟨_, hn, rfl⟩, fun k hk => ?_⟩
    obtain ⟨j, hj, rfl⟩ := h.nested_group.mp hk
    exact Nat.succ_le_succ (hmax j hj)

/-- The number of a derivation is the largest nesting of a run. -/
theorem IsChain.nested_max {pieces : List Piece} {n : Nat} {c : Condition} :
    IsChain pieces n c → Nested pieces n ∧ ∀ k, Nested pieces k → k ≤ n
  | .operand h => h.nested_max
  | @IsChain.join x y n m left right j hf hb => by
    obtain ⟨hn, hleft⟩ := hf.nested_max
    obtain ⟨hm, hright⟩ := hb.nested_max
    constructor
    · refine (hf.nested_join j).mpr ?_
      rcases Nat.le_total n m with hnm | hmn
      · rw [Nat.max_eq_right hnm]
        exact .inr hm
      · rw [Nat.max_eq_left hmn]
        exact .inl hn
    · intro k hk
      rcases (hf.nested_join j).mp hk with hk | hk
      · exact Nat.le_trans (hleft k hk) (Nat.le_max_left n m)
      · exact Nat.le_trans (hright k hk) (Nat.le_max_right n m)

end

end Piece
end DeviceScript
