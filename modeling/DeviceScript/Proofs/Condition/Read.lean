/-
What the first stage of the condition pass reads.

The stage looks only for the next operand: it passes over whatever negations and
opening parentheses stand in front of one and over the closing parentheses behind
it, without counting either.  `Walk` is the shape of what it passes over.  The
stage succeeds exactly on the spans that spell a walk, and then hands on the pieces
of the longest one.
-/
import DeviceScript.Proofs.Condition.Grammar

namespace DeviceScript
namespace Piece

def isOpening : Piece → Bool
  | .not | .openParen => true
  | _ => false

def isClosing : Piece → Bool
  | .closeParen => true
  | _ => false

/-- One operand with what stands around it. -/
structure Wrapped (pieces : List Piece) : Prop where
  shape : ∃ opened c closed, pieces = opened ++ .operand c :: closed ∧
    (∀ p ∈ opened, p.isOpening = true) ∧ ∀ p ∈ closed, p.isClosing = true

/-- Wrapped operands with connectives between them.  The parentheses need not match. -/
inductive Walk : List Piece → Prop where
  | last {pieces : List Piece} : Wrapped pieces → Walk pieces
  | more {pieces next : List Piece} (k : Connective) :
      Wrapped pieces → Walk next → Walk (pieces ++ .join k :: next)

/-! ## Recognised tokens -/

theorem opening?_eq_some {t : Token} {p : Piece} :
    opening? t = some p ↔ p.isOpening = true ∧ p.mark? = some t := by
  cases p with
  | join k => cases k <;> cases t <;> simp [opening?, isOpening]
  | _ => cases t <;> simp [opening?, isOpening, mark?]

theorem closing?_eq_some {t : Token} {p : Piece} :
    closing? t = some p ↔ p.isClosing = true ∧ p.mark? = some t := by
  cases p with
  | join k => cases k <;> cases t <;> simp [closing?, isClosing]
  | _ => cases t <;> simp [closing?, isClosing, mark?]

theorem opening?_eq_none {t : Token} : opening? t = none ↔ t ≠ .not ∧ t ≠ .openParen := by
  cases t <;> simp [opening?]

theorem closing?_eq_none {t : Token} : closing? t = none ↔ t ≠ .closeParen := by
  cases t <;> simp [closing?]

theorem connective?_eq_some {t : Token} {k : Connective} :
    connective? t = some k ↔ (join k).mark? = some t := by
  cases k <;> cases t <;> simp [connective?, mark?]

theorem connective?_eq_none {t : Token} : connective? t = none ↔ t ≠ .and ∧ t ≠ .or := by
  cases t <;> simp [connective?]

section

variable {recognise : Token → Option Piece} {kind : Piece → Bool}

/-- The leading pieces are spelled by the tokens that they are read from, and the next
token is none of theirs. -/
theorem leading_spec (hr : ∀ t p, recognise t = some p ↔ kind p = true ∧ p.mark? = some t)
    (registry : Registry) (tokens : List Token) :
    ∃ span rest, tokens = span ++ rest ∧ span.length = (leading recognise tokens).length ∧
      (∀ p ∈ leading recognise tokens, kind p = true) ∧
      (∀ more, Spelled registry more (leading recognise tokens) span) ∧
      ∀ t ∈ rest.head?, recognise t = none := by
  induction tokens with
  | nil => exact ⟨[], [], rfl, rfl, by simp [leading], fun _ => .nil, by simp⟩
  | cons t tokens ih =>
    rw [leading]
    cases h : recognise t with
    | none => exact ⟨[], t :: tokens, rfl, rfl, by simp, fun _ => .nil, by simpa using h⟩
    | some p =>
      obtain ⟨span, rest, rfl, hl, hk, hs, hn⟩ := ih
      obtain ⟨hp, hm⟩ := (hr t p).mp h
      refine ⟨t :: span, rest, rfl, by simp [hl], ?_, fun more => .mark hm (hs more), hn⟩
      exact List.forall_mem_cons.mpr ⟨hp, hk⟩

theorem leading_of_spelled
    (hr : ∀ t p, recognise t = some p ↔ kind p = true ∧ p.mark? = some t)
    {registry : Registry} {pieces : List Piece} {span rest more : List Token}
    (hk : ∀ p ∈ pieces, kind p = true) (h : Spelled registry more pieces span)
    (hn : ∀ t ∈ rest.head?, recognise t = none) (hu : ∀ c, kind (.operand c) = false) :
    leading recognise (span ++ rest) = pieces ∧ pieces.length = span.length := by
  induction h with
  | nil =>
    cases rest with
    | nil => exact ⟨rfl, rfl⟩
    | cons t rest =>
      rw [List.nil_append, leading, hn t rfl]
      exact ⟨rfl, rfl⟩
  | @mark p t _ _ hm _ ih =>
    have hp := (hr t p).mpr ⟨hk p List.mem_cons_self, hm⟩
    obtain ⟨hl, hc⟩ := ih fun q hq => hk q (List.mem_cons_of_mem p hq)
    rw [List.cons_append, leading, hp]
    exact ⟨congrArg (p :: ·) hl, congrArg (· + 1) hc⟩
  | @run _ _ c _ _ _ _ =>
    have := hk (.operand c) List.mem_cons_self
    rw [hu c] at this
    cases this

end

/-! ## Reading -/

section

variable {registry : Registry} {position n : Nat} {tokens : List Token} {pieces : List Piece}

theorem readOperand_sound (h : (readOperand registry position tokens).result = .ok (pieces, n)) :
    Wrapped pieces ∧ ∃ span rest, tokens = span ++ rest ∧ n = span.length ∧
      Spelled registry rest pieces span ∧ rest.head? ≠ some .closeParen := by
  obtain ⟨os, body, rfl, ho, hok, hos, hob⟩ := leading_spec @opening?_eq_some registry tokens
  rw [readOperand, ← ho, List.drop_left] at h
  obtain ⟨run, tail, rfl, hrun⟩ := exists_scan_span ConditionRun.take {} body
  obtain ⟨c, hc, h⟩ := Logged.result_bind_eq_ok.mp h
  rw [hrun, List.drop_left] at h
  obtain ⟨cs, rest, rfl, hcl, hck, hcs, hce⟩ := leading_spec @closing?_eq_some registry tail
  obtain ⟨rfl, rfl⟩ := Prod.mk.inj (Except.ok.inj h)
  have hr : IsRun registry run (cs ++ rest) c := by
    refine ⟨?_, hrun, fun q => ConditionRun.condition_of_ok hc q _⟩
    intro t ht
    exact opening?_eq_none.mp (hob t (by cases run <;> simp_all))
  refine ⟨⟨_, c, _, rfl, hok, hck⟩, os ++ (run ++ cs), rest, ?_, ?_, ?_, ?_⟩
  · simp only [List.append_assoc]
  · rw [← hcl, List.length_append, List.length_append]
    omega
  · exact (hos _).append (.run hr (hcs rest))
  · intro hclose
    exact closing?_eq_none.mp (hce _ hclose) rfl

theorem readOperand_complete {span rest : List Token} (hw : Wrapped pieces)
    (hs : Spelled registry rest pieces span) (hr : rest.head? ≠ some .closeParen) :
    (readOperand registry position (span ++ rest)).result = .ok (pieces, span.length) := by
  obtain ⟨opened, c, closed, rfl, ho, hc⟩ := hw.shape
  obtain ⟨os, u, rfl, hos, hu⟩ := hs.split
  cases hu with
  | mark hm _ => cases hm
  | @run run cs _ _ hrun hcs =>
    obtain ⟨hlo, hol⟩ : leading opening? (os ++ (run ++ (cs ++ rest))) = opened ∧
        opened.length = os.length := by
      refine leading_of_spelled @opening?_eq_some ho hos ?_ (fun _ => rfl)
      obtain ⟨t, tail, rfl⟩ := List.exists_cons_of_ne_nil hrun.ne_nil
      intro u hu
      exact opening?_eq_none.mpr (hrun.head u hu)
    obtain ⟨hlc, hcl⟩ : leading closing? (cs ++ rest) = closed ∧ closed.length = cs.length := by
      refine leading_of_spelled @closing?_eq_some hc hcs ?_ (fun _ => rfl)
      intro t ht
      exact closing?_eq_none.mpr fun he => hr (he ▸ ht)
    rw [List.append_assoc, List.append_assoc, readOperand, hlo, hol, List.drop_left]
    refine Logged.result_bind_eq_ok.mpr ⟨c, ?_, ?_⟩
    · exact ConditionRun.condition_of_ok (hrun.condition 0) _ _
    · rw [hrun.whole, List.drop_left, hlc]
      simp only [Logged.result_pure, List.length_append, hcl, Nat.add_assoc]

end

section

variable {registry : Registry} {position : Nat} {pieces : List Piece} {span : List Token}

/-- Reading stops behind an operand unless a connective with something after it follows. -/
theorem read_stop {rest : List Token}
    (h : (readOperand registry position (span ++ rest)).result = .ok (pieces, span.length))
    (hr : ∀ t next more, rest = t :: next :: more → connective? t = none) :
    (read registry position (span ++ rest)).result = .ok (pieces, span.length) := by
  rw [read, Logged.result_bind, h]
  simp only [Except.bind]
  split
  · rename_i t next more hd
    rw [List.drop_left] at hd
    rw [hr t next more hd]
    rfl
  · rfl

theorem read_join {t next : Token} {more : List Token} {k : Connective}
    (h : (readOperand registry position (span ++ t :: next :: more)).result =
      .ok (pieces, span.length)) (hk : connective? t = some k) :
    (read registry position (span ++ t :: next :: more)).result =
      (read registry (position + pieces.length + 1) (next :: more)).result.map
        fun q => (pieces ++ .join k :: q.1, span.length + 1 + q.2) := by
  rw [read, Logged.result_bind, h]
  simp only [Except.bind]
  split
  · rename_i hd
    rw [List.drop_left] at hd
    cases hd
    simp only [hk, Logged.result_bind, Logged.result_emit, Except.bind]
    cases (read registry (position + pieces.length + 1) (next :: more)).result <;> rfl
  · rename_i hd
    exact absurd List.drop_left (hd t next more)

theorem read_sound {position n : Nat} {tokens : List Token} {pieces : List Piece}
    (h : (read registry position tokens).result = .ok (pieces, n)) :
    Walk pieces ∧ ∃ span rest, tokens = span ++ rest ∧ n = span.length ∧
      Spelled registry rest pieces span ∧ Ends rest := by
  have hb := h
  rw [read] at hb
  obtain ⟨⟨here, taken⟩, hh, -⟩ := Logged.result_bind_eq_ok.mp hb
  obtain ⟨hw, span, rest, rfl, rfl, hs, hc⟩ := readOperand_sound hh
  by_cases hr : ∃ t next more, rest = t :: next :: more ∧ connective? t ≠ none
  · obtain ⟨t, next, more, rfl, hk⟩ := hr
    obtain ⟨k, hk⟩ := Option.ne_none_iff_exists'.mp hk
    rw [read_join hh hk] at h
    cases hq : (read registry (position + here.length + 1) (next :: more)).result with
    | error e =>
      rw [hq] at h
      cases h
    | ok q =>
      rw [hq] at h
      obtain ⟨rfl, rfl⟩ := Prod.mk.inj (Except.ok.inj h)
      -- The rest is read from behind the connective, and is shorter.
      obtain ⟨hw', u, rest, hu, hn, hs', he⟩ := read_sound hq
      refine ⟨.more k hw hw', span ++ t :: u, rest, by simp [hu], ?_, ?_, he⟩
      · rw [hn, List.length_append, List.length_cons]
        omega
      · refine Spelled.append ?_ (.mark (connective?_eq_some.mp hk) hs')
        rwa [List.cons_append, ← hu]
  · have hn : ∀ t next more, rest = t :: next :: more → connective? t = none := by
      intro t next more he
      exact Decidable.byContradiction fun hk => hr ⟨t, next, more, he, hk⟩
    rw [read_stop hh hn] at h
    obtain ⟨rfl, rfl⟩ := Prod.mk.inj (Except.ok.inj h)
    refine ⟨.last hw, span, rest, rfl, rfl, hs, hc, fun t next more he => ?_⟩
    exact connective?_eq_none.mp (hn t next more he)
termination_by tokens.length
decreasing_by
  subst_vars
  simp only [List.length_append, List.length_cons]
  omega

theorem Walk.ne_nil {pieces : List Piece} (h : Walk pieces) : pieces ≠ [] := by
  cases h with
  | last hw =>
    obtain ⟨opened, c, closed, rfl, -, -⟩ := hw.shape
    simp
  | more k _ _ => simp

theorem read_complete {rest : List Token} (hw : Walk pieces)
    (hs : Spelled registry rest pieces span) (he : Ends rest) :
    (read registry position (span ++ rest)).result = .ok (pieces, span.length) := by
  induction hw generalizing position span with
  | last hw =>
    refine read_stop (readOperand_complete hw hs he.closed) fun t next more hr => ?_
    exact connective?_eq_none.mpr (he.unjoined t next more hr)
  | @more pieces _ k hw hw' ih =>
    obtain ⟨s, u, rfl, hs, hu⟩ := hs.split
    cases hu with
    | @mark _ t _ u hm hu =>
      obtain ⟨next, more, hne⟩ := List.exists_cons_of_ne_nil
        (List.append_ne_nil_of_left_ne_nil (hu.ne_nil hw'.ne_nil) rest)
      have hr : (readOperand registry position (s ++ t :: (u ++ rest))).result =
          .ok (pieces, s.length) := by
        refine readOperand_complete hw hs ?_
        intro h
        obtain ⟨⟩ := h
        cases k <;> cases hm
      rw [List.append_assoc, List.cons_append]
      rw [hne] at hr ⊢
      rw [read_join hr (connective?_eq_some.mpr hm), ← hne, ih hu]
      simp only [Except.map, List.length_append, List.length_cons]
      congr 2
      omega
end

end Piece
end DeviceScript
