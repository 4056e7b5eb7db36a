/-
Walks and their parentheses.

The first stage of the condition pass passes over parentheses without counting them,
so what it hands on is a walk and need not be a chain.  The second stage keeps to the
operands of the walk: behind every negation, opening parenthesis and connective that it
takes it finds an operand again, and behind every operand it finds a closing
parenthesis, a connective or the end.  `Trail` is the second half of that invariant.
So the only thing that the second stage can find missing is a closing parenthesis, and
the only thing that it can leave over is one that closes nothing; a chain has neither.
-/
import DeviceScript.Proofs.Condition.Recognition

namespace DeviceScript

/-! ## Balanced lists -/

/-- No front part closes more than it opens, and the whole closes what it opens. -/
structure Balanced {α : Type} (opens closes : α → Bool) (l : List α) : Prop where
  front : ∀ {front back : List α}, l = front ++ back → front.countP closes ≤ front.countP opens
  total : l.countP closes = l.countP opens

section

variable {α : Type} {opens closes : α → Bool}

theorem balanced_singleton {a : α} (ho : opens a = false) (hc : closes a = false) :
    Balanced opens closes [a] := by
  constructor
  · intro front back h
    cases front with
    | nil => exact Nat.le_refl _
    | cons b front =>
      obtain ⟨rfl, hf⟩ := List.cons.inj h
      obtain ⟨rfl, -⟩ := List.append_eq_nil_iff.mp hf.symm
      simp [ho, hc]
  · simp [ho, hc]

theorem Balanced.append {x y : List α} (hx : Balanced opens closes x)
    (hy : Balanced opens closes y) : Balanced opens closes (x ++ y) := by
  have htotal := hx.total
  constructor
  · intro front back h
    rcases List.append_eq_append_iff.mp h with ⟨more, rfl, hm⟩ | ⟨more, hm, -⟩
    · have hmore := hy.front hm
      rw [List.countP_append, List.countP_append]
      omega
    · exact hx.front hm
  · rw [List.countP_append, List.countP_append, htotal, hy.total]

theorem Balanced.cons {a : α} {x : List α} (ho : opens a = false) (hc : closes a = false)
    (hx : Balanced opens closes x) : Balanced opens closes (a :: x) :=
  (balanced_singleton ho hc).append hx

theorem Balanced.wrap {a b : α} {x : List α} (hx : Balanced opens closes x)
    (ha : opens a = true ∧ closes a = false) (hb : opens b = false ∧ closes b = true) :
    Balanced opens closes (a :: (x ++ [b])) := by
  have htotal := hx.total
  constructor
  · intro front back h
    cases front with
    | nil => exact Nat.le_refl _
    | cons c front =>
      obtain ⟨rfl, hf⟩ := List.cons.inj h
      rw [List.countP_cons_of_pos ha.1, List.countP_cons_of_neg (by simp [ha.2])]
      rcases List.append_eq_append_iff.mp hf with ⟨more, rfl, hm⟩ | ⟨more, hm, -⟩
      · have hmore : more.countP closes ≤ [b].countP closes := by
          rw [hm]
          exact (List.sublist_append_left more back).countP_le
        have hone : [b].countP closes = 1 := by simp [hb.2]
        rw [List.countP_append, List.countP_append]
        omega
      · have hfront := hx.front hm
        omega
  · simp only [List.countP_cons, List.countP_append, List.countP_nil, ha, hb]
    simp only [if_true, Bool.false_eq_true, if_false]
    omega

end

namespace Token

def isOpenParen : Token → Bool
  | .openParen => true
  | _ => false

def isCloseParen : Token → Bool
  | .closeParen => true
  | _ => false

end Token

namespace Piece

def isOpenParen : Piece → Bool
  | .openParen => true
  | _ => false

mutual

theorem IsOperand.balanced {pieces : List Piece} {n : Nat} {c : Condition} :
    IsOperand pieces n c → Balanced isOpenParen isClosing pieces
  | .run _ => balanced_singleton rfl rfl
  | .not h => h.balanced.cons rfl rfl
  | .group h => h.balanced.wrap ⟨rfl, rfl⟩ ⟨rfl, rfl⟩

theorem IsChain.balanced {pieces : List Piece} {n : Nat} {c : Condition} :
    IsChain pieces n c → Balanced isOpenParen isClosing pieces
  | .operand h => h.balanced
  | .join _ hf hb => hf.balanced.append (hb.balanced.cons rfl rfl)

end

/-! ## Parentheses of a span

A block run holds no parentheses, so a span has those of its pieces, in the same
order. -/

section

variable {registry : Registry} {rest : List Token}

theorem isParen_of_mark {p : Piece} {t : Token} (h : p.mark? = some t) :
    t.isOpenParen = p.isOpenParen ∧ t.isCloseParen = p.isClosing := by
  cases p with
  | join k => cases k <;> cases h <;> exact ⟨rfl, rfl⟩
  | operand c => cases h
  | not | openParen | closeParen =>
    cases h
    exact ⟨rfl, rfl⟩

theorem IsRun.countP_paren {run : List Token} {c : Condition} (h : IsRun registry run rest c) :
    run.countP Token.isOpenParen = 0 ∧ run.countP Token.isCloseParen = 0 := by
  obtain ⟨-, r, hf, -⟩ := isRun_iff.mp h
  have ho : Token.openParen ∉ run := not_mem_of_foldlM (fun _ => rfl) hf
  have hc : Token.closeParen ∉ run := not_mem_of_foldlM (fun _ => rfl) hf
  constructor
  · rw [List.countP_eq_zero]
    intro t ht hp
    cases t <;> cases hp
    exact ho ht
  · rw [List.countP_eq_zero]
    intro t ht hp
    cases t <;> cases hp
    exact hc ht

theorem Spelled.countP_paren {pieces : List Piece} {span : List Token}
    (h : Spelled registry rest pieces span) :
    span.countP Token.isOpenParen = pieces.countP isOpenParen ∧
      span.countP Token.isCloseParen = pieces.countP isClosing := by
  induction h with
  | nil => exact ⟨rfl, rfl⟩
  | mark hm _ ih =>
    obtain ⟨ho, hc⟩ := isParen_of_mark hm
    simp only [List.countP_cons, ho, hc, ih.1, ih.2, and_self]
  | run hr _ ih =>
    obtain ⟨ho, hc⟩ := hr.countP_paren
    simp only [List.countP_append, List.countP_cons, ho, hc, ih.1, ih.2]
    exact ⟨Nat.zero_add _, Nat.zero_add _⟩

/-- A front part of a span has the parentheses of a front part of its pieces. -/
theorem Spelled.exists_front {pieces : List Piece} {span : List Token}
    (h : Spelled registry rest pieces span) {front back : List Token} (he : span = front ++ back) :
    ∃ p q, pieces = p ++ q ∧ front.countP Token.isOpenParen = p.countP isOpenParen ∧
      front.countP Token.isCloseParen = p.countP isClosing := by
  induction h generalizing front with
  | nil =>
    obtain ⟨rfl, -⟩ := List.append_eq_nil_iff.mp he.symm
    exact ⟨[], [], rfl, rfl, rfl⟩
  | @mark p t pieces span hm _ ih =>
    cases front with
    | nil => exact ⟨[], _, rfl, rfl, rfl⟩
    | cons u front =>
      obtain ⟨rfl, hspan⟩ := List.cons.inj he
      obtain ⟨x, y, rfl, hox, hcx⟩ := ih hspan
      obtain ⟨ho, hc⟩ := isParen_of_mark hm
      refine ⟨p :: x, y, rfl, ?_, ?_⟩
      · rw [List.countP_cons, List.countP_cons, ho, hox]
      · rw [List.countP_cons, List.countP_cons, hc, hcx]
  | @run run span c pieces hr _ ih =>
    obtain ⟨ho, hc⟩ := hr.countP_paren
    rcases List.append_eq_append_iff.mp he with ⟨more, rfl, hm⟩ | ⟨more, rfl, -⟩
    · obtain ⟨x, y, rfl, hox, hcx⟩ := ih hm
      refine ⟨.operand c :: x, y, rfl, ?_, ?_⟩
      · rw [List.countP_append, ho, hox, Nat.zero_add]
        rfl
      · rw [List.countP_append, hc, hcx, Nat.zero_add]
        rfl
    · -- The front part ends inside the run, where there are no parentheses.
      rw [List.countP_append, Nat.add_eq_zero_iff] at ho hc
      exact ⟨[], _, rfl, ho.1, hc.1⟩

theorem Spelled.balanced_iff {pieces : List Piece} {span : List Token}
    (h : Spelled registry rest pieces span) :
    Balanced Token.isOpenParen Token.isCloseParen span ↔
      Balanced isOpenParen isClosing pieces := by
  obtain ⟨ho, hc⟩ := h.countP_paren
  constructor
  · intro hb
    constructor
    · intro x y he
      rw [he] at h
      obtain ⟨s, u, hspan, hs, -⟩ := h.split
      obtain ⟨hso, hsc⟩ := hs.countP_paren
      have hfront := hb.front hspan
      omega
    · rw [← ho, ← hc, hb.total]
  · intro hb
    constructor
    · intro front back he
      obtain ⟨x, y, hxy, hox, hcx⟩ := h.exists_front he
      have hfront := hb.front hxy
      omega
    · rw [ho, hc, hb.total]

end

/-! ## Walks from an operand on -/

/-- What stands behind an operand of a walk. -/
inductive Trail : List Piece → Prop where
  | nil : Trail []
  | close {rest : List Piece} : Trail rest → Trail (.closeParen :: rest)
  | join {rest : List Piece} (k : Connective) : Walk rest → Trail (.join k :: rest)

theorem Trail.closed_append {closed rest : List Piece} (hc : ∀ p ∈ closed, p.isClosing = true)
    (h : Trail rest) : Trail (closed ++ rest) := by
  induction closed with
  | nil => exact h
  | cons p closed ih =>
    obtain ⟨hp, hrest⟩ := List.forall_mem_cons.mp hc
    cases p <;> cases hp
    exact .close (ih hrest)

/-- A walk starts with a negation, an opening parenthesis or an operand. -/
theorem Walk.head_cases {pieces : List Piece} (h : Walk pieces) :
    (∃ p rest, pieces = p :: rest ∧ p.isOpening = true ∧ Walk rest) ∨
      ∃ c rest, pieces = .operand c :: rest ∧ Trail rest := by
  cases h with
  | last hw =>
    obtain ⟨opened, c, closed, rfl, ho, hc⟩ := hw.shape
    cases opened with
    | nil =>
      have ht : Trail (closed ++ []) := Trail.nil.closed_append hc
      rw [List.append_nil] at ht
      exact .inr ⟨c, closed, rfl, ht⟩
    | cons p opened =>
      obtain ⟨hp, ho⟩ := List.forall_mem_cons.mp ho
      exact .inl ⟨p, _, rfl, hp, .last ⟨opened, c, closed, rfl, ho, hc⟩⟩
  | @more _ next k hw hn =>
    obtain ⟨opened, c, closed, rfl, ho, hc⟩ := hw.shape
    cases opened with
    | nil => exact .inr ⟨c, closed ++ .join k :: next, rfl, (Trail.join k hn).closed_append hc⟩
    | cons p opened =>
      obtain ⟨hp, ho⟩ := List.forall_mem_cons.mp ho
      exact .inl ⟨p, _, rfl, hp, .more k ⟨opened, c, closed, rfl, ho, hc⟩ hn⟩

theorem Walk.of_opening {p : Piece} {rest : List Piece} (hp : p.isOpening = true)
    (h : Walk (p :: rest)) : Walk rest := by
  obtain ⟨q, more, he, -, hw⟩ | ⟨c, more, he, -⟩ := h.head_cases
  · cases he
    exact hw
  · cases he
    cases hp

mutual

/-- What follows an operand of the grammar in a walk can stand behind an operand. -/
theorem IsOperand.trail {front : List Piece} {n : Nat} {c : Condition} {back : List Piece}
    (hw : Walk (front ++ back)) : IsOperand front n c → Trail back
  | .run c => by
    obtain ⟨p, rest, he, hp, -⟩ | ⟨d, rest, he, ht⟩ := hw.head_cases
    · cases he
      cases hp
    · cases he
      exact ht
  | .not h => h.trail (hw.of_opening rfl)
  | .group h => by
    rw [List.cons_append, List.append_assoc] at hw
    have ht : Trail ([.closeParen] ++ back) := h.trail (hw.of_opening rfl)
    cases ht with
    | close ht => exact ht

theorem IsChain.trail {front : List Piece} {n : Nat} {c : Condition} {back : List Piece}
    (hw : Walk (front ++ back)) : IsChain front n c → Trail back
  | .operand h => h.trail hw
  | .join k hf hb => by
    rw [List.append_assoc, List.cons_append] at hw
    have ht := hf.trail hw
    cases ht with
    | join _ hw => exact hb.trail hw

end

/-! ## Folding a walk -/

theorem foldLinks_stopped {limit depth position n : Nat} {pieces : List Piece}
    {left c : Condition}
    (h : (foldLinks limit depth position left pieces).result = .ok (c, n)) :
    ∀ k next rest, pieces.drop n ≠ .join k :: next :: rest := by
  obtain ⟨-, rfl, hp⟩ | ⟨k, rest, right, m, m', hp, ho, hl, hn⟩ := foldLinks_cases h
  · exact hp
  · have hd := foldLinks_stopped hl
    rw [List.drop_drop] at hd
    rwa [hp, hn, List.drop_succ_cons]
termination_by pieces.length
decreasing_by
  subst_vars
  simp only [List.length_drop, List.length_cons]
  omega

section

variable {limit depth position n : Nat} {pieces : List Piece} {c : Condition} {e : CompileError}

/-- A chain is folded up to a closing parenthesis or the end. -/
theorem foldChain_walk (hw : Walk pieces)
    (h : (foldChain limit depth position pieces).result = .ok (c, n)) :
    ∃ front back m, pieces = front ++ back ∧ n = front.length ∧ IsChain front m c ∧
      (back = [] ∨ ∃ rest, back = .closeParen :: rest) := by
  obtain ⟨front, back, m, rfl, rfl, hf, -⟩ := foldChain_sound h
  refine ⟨front, back, m, rfl, rfl, hf, ?_⟩
  obtain ⟨first, k, j, -, hl, hn⟩ := foldChain_cases h
  have hstop := foldLinks_stopped hl
  rw [List.drop_drop, ← hn, List.drop_left] at hstop
  cases hf.trail hw with
  | nil => exact .inl rfl
  | close _ => exact .inr ⟨_, rfl⟩
  | join k hnext =>
    obtain ⟨next, rest, rfl⟩ := List.exists_cons_of_ne_nil hnext.ne_nil
    exact absurd rfl (hstop k next rest)

/-- Why a walk cannot be folded: there is no room for its operators, or a parenthesis is
not closed. -/
inductive Stuck (limit depth : Nat) (pieces : List Piece) : CompileError → Prop where
  | deep : limit ≤ depth + pieces.countP isOpening →
      Stuck limit depth pieces (.conditionTooDeep limit)
  | unclosed {front chain : List Piece} {n : Nat} {c : Condition} (position : Nat) :
      pieces = front ++ .openParen :: chain → IsChain chain n c →
      Stuck limit depth pieces (.mismatchedParenthesis position)

theorem Stuck.append (h : Stuck limit depth pieces e) (front : List Piece) :
    Stuck limit depth (front ++ pieces) e := by
  cases h with
  | deep hd =>
    refine .deep ?_
    rw [List.countP_append]
    omega
  | @unclosed x chain _ _ position hp hc =>
    have happ : front ++ pieces = (front ++ x) ++ .openParen :: chain := by
      rw [hp, List.append_assoc]
    exact .unclosed position happ hc

theorem Stuck.opening {p : Piece} (hp : p.isOpening = true)
    (h : Stuck limit (depth + 1) pieces e) : Stuck limit depth (p :: pieces) e := by
  cases h with
  | deep hd =>
    refine .deep ?_
    rw [List.countP_cons_of_pos hp]
    omega
  | unclosed position hs hc =>
    have hu : Stuck limit depth pieces (.mismatchedParenthesis position) := .unclosed position hs hc
    exact hu.append [p]

end

mutual

theorem foldOperand_stuck {limit depth position : Nat} {pieces : List Piece} {e : CompileError}
    (hw : Walk pieces) (h : (foldOperand limit depth position pieces).result = .error e) :
    Stuck limit depth pieces e := by
  obtain ⟨hd, rfl⟩ | ⟨rest, hp, hr⟩ | ⟨rest, hp, hr⟩ | ⟨rest, c, m, hp, hr, hb, rfl⟩ | ⟨hp, -⟩ :=
    foldOperand_error_cases h
  · exact .deep (Nat.le_add_right_of_le hd)
  · rw [hp] at hw ⊢
    exact (foldOperand_stuck (hw.of_opening rfl) hr).opening rfl
  · rw [hp] at hw ⊢
    exact (foldChain_stuck (hw.of_opening rfl) hr).opening rfl
  · rw [hp] at hw ⊢
    obtain ⟨chain, back, k, rfl, rfl, hc, rfl | ⟨more, rfl⟩⟩ :=
      foldChain_walk (hw.of_opening rfl) hr
    · rw [List.append_nil]
      exact .unclosed position (List.nil_append _).symm hc
    · rw [List.drop_left] at hb
      exact absurd rfl (hb more)
  · -- An operand of the walk does not start like this.
    obtain ⟨p, rest, rfl, ho, -⟩ | ⟨c, rest, rfl, -⟩ := hw.head_cases
    · obtain rfl | ⟨k, rfl⟩ := hp p rfl <;> cases ho
    · obtain he | ⟨k, he⟩ := hp _ rfl <;> cases he
termination_by (pieces.length, 0)
decreasing_by
  all_goals
    subst_vars
    exact Prod.Lex.left _ _ (Nat.lt_succ_self _)

theorem foldChain_stuck {limit depth position : Nat} {pieces : List Piece} {e : CompileError}
    (hw : Walk pieces) (h : (foldChain limit depth position pieces).result = .error e) :
    Stuck limit depth pieces e := by
  obtain ho | ⟨first, n, ho, hl⟩ := foldChain_error_cases h
  · exact foldOperand_stuck hw ho
  · obtain ⟨front, back, m, hp, rfl, hf, -⟩ := foldOperand_sound ho
    rw [hp] at hw ⊢
    rw [hp, List.drop_left] at hl
    exact (foldLinks_stuck (hf.trail hw) hl).append front
termination_by (pieces.length, 2)
decreasing_by
  · exact Prod.Lex.right _ (by decide)
  · subst_vars
    rw [Prod.lex_def, List.length_append]
    change _ < _ ∨ _ = _ ∧ 1 < 2
    omega

theorem foldLinks_stuck {limit depth position : Nat} {pieces : List Piece} {left : Condition}
    {e : CompileError} (ht : Trail pieces)
    (h : (foldLinks limit depth position left pieces).result = .error e) :
    Stuck limit depth pieces e := by
  obtain ⟨k, rest, hp, hrest⟩ := foldLinks_error_cases h
  rw [hp] at ht ⊢
  cases ht with
  | join _ hw =>
    obtain ho | ⟨right, n, ho, hl⟩ := hrest
    · exact (foldOperand_stuck hw ho).append [.join k]
    · obtain ⟨front, back, m, rfl, rfl, hf, -⟩ := foldOperand_sound ho
      rw [List.drop_left] at hl
      exact (foldLinks_stuck (hf.trail hw) hl).append (.join k :: front)
termination_by (pieces.length, 1)
decreasing_by
  · subst_vars
    exact Prod.Lex.left _ _ (Nat.lt_succ_self _)
  · subst_vars
    refine Prod.Lex.left _ _ ?_
    rw [List.length_cons, List.length_append]
    omega

end

theorem IsChain.not_balanced_opened {chain : List Piece} {n : Nat} {c : Condition}
    (h : IsChain chain n c) (front : List Piece) :
    ¬ Balanced isOpenParen isClosing (front ++ .openParen :: chain) := by
  intro hb
  have hchain := h.balanced.total
  have hfront := hb.front rfl
  have htotal := hb.total
  simp only [List.countP_append, List.countP_cons, isOpenParen, isClosing, if_true,
    Bool.false_eq_true, if_false] at htotal
  omega

theorem IsChain.not_balanced_closed {chain : List Piece} {n : Nat} {c : Condition}
    (h : IsChain chain n c) (rest : List Piece) :
    ¬ Balanced isOpenParen isClosing (chain ++ .closeParen :: rest) := by
  intro hb
  have hchain := h.balanced.total
  have hsplit : chain ++ .closeParen :: rest = (chain ++ [.closeParen]) ++ rest := by
    rw [List.append_assoc, List.singleton_append]
  have hfront := hb.front hsplit
  simp only [List.countP_append, List.countP_singleton, isOpenParen, isClosing, if_true,
    Bool.false_eq_true, if_false] at hfront
  omega

end Piece

end DeviceScript
