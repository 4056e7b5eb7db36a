/-
What a pass makes of a line.

A pass keeps the line behind its cursor, but only the loop pass ever looks back at
it.  For the other passes, the forward ones, a run is a relation between what is
ahead and what comes out, `Yields`, in which the line behind does not occur.  The
loop pass looks back by one token, and `Binds` is its relation.  Neither says
anything about the log or about where an error stands.
-/
import DeviceScript.Compiler
import DeviceScript.Proofs.Condition.Recognition

namespace DeviceScript
namespace Pass

/-! ## Forward passes -/

/-- Whether a step succeeds, and what it then does, depends on the token and what is
ahead of it alone. -/
structure Forward (p : Pass) : Prop where
  step : ∀ {before t after s}, (p.step before t after).result = .ok s →
    ∀ other, (p.step other t after).result = .ok s
  retract : ∀ {before t after s}, (p.step before t after).result = .ok s → s.retract = 0

/-- A forward pass turns the first line into the second. -/
inductive Yields (p : Pass) : List Token → List Token → Prop where
  | nil : Yields p [] []
  | keep {t : Token} {after out : List Token} :
      p.starts t = false → Yields p after out → Yields p (t :: after) (t :: out)
  | step {t : Token} {after out : List Token} {s : Step} :
      p.starts t = true → (p.step [] t after).result = .ok s →
      Yields p (s.ahead after) out → Yields p (t :: after) (s.emit ++ out)

theorem result_runFrom_nil (p : Pass) (before : List Token) :
    (p.runFrom before []).result = .ok before.reverse := by
  rw [runFrom]
  rfl

theorem runFrom_of_not_starts {p : Pass} {t : Token} (h : p.starts t = false)
    (before after : List Token) : p.runFrom before (t :: after) = p.runFrom (t :: before) after := by
  rw [runFrom, h]
  rfl

/-- A pass that starts nowhere in a line keeps the line. -/
theorem result_runFrom_of_not_starts {p : Pass} {line : List Token}
    (h : ∀ t ∈ line, p.starts t = false) (before : List Token) :
    (p.runFrom before line).result = .ok (before.reverse ++ line) := by
  induction line generalizing before with
  | nil => rw [result_runFrom_nil, List.append_nil]
  | cons t line ih =>
    obtain ⟨ht, h⟩ := List.forall_mem_cons.mp h
    rw [runFrom_of_not_starts ht, ih h, List.reverse_cons, List.append_assoc]
    rfl

theorem result_run_of_not_starts {p : Pass} {line : List Token}
    (h : ∀ t ∈ line, p.starts t = false) : (p.run line).result = .ok line :=
  result_runFrom_of_not_starts h []

theorem runFrom_eq_ok_of_starts {p : Pass} {t : Token} (h : p.starts t = true)
    {before after out : List Token} :
    (p.runFrom before (t :: after)).result = .ok out ↔
      ∃ s, (p.step before t after).result = .ok s ∧
        (p.runFrom (s.behind before) (s.ahead after)).result = .ok out := by
  rw [runFrom, if_pos h]
  exact Logged.result_bind_eq_ok

theorem Forward.runFrom_eq_ok {p : Pass} (hp : p.Forward) {before after out : List Token} :
    (p.runFrom before after).result = .ok out ↔
      ∃ made, p.Yields after made ∧ out = before.reverse ++ made := by
  cases after with
  | nil =>
    rw [result_runFrom_nil]
    constructor
    · intro h
      exact ⟨[], .nil, by rw [List.append_nil, Except.ok.inj h]⟩
    · intro h
      obtain ⟨made, hy, rfl⟩ := h
      cases hy
      rw [List.append_nil]
  | cons t after =>
    cases ht : p.starts t with
    | false =>
      rw [runFrom_of_not_starts ht, hp.runFrom_eq_ok]
      constructor
      · intro h
        obtain ⟨made, hy, rfl⟩ := h
        exact ⟨t :: made, .keep ht hy, by simp⟩
      · intro h
        obtain ⟨made, hy, rfl⟩ := h
        cases hy with
        | keep _ hy => exact ⟨_, hy, by simp⟩
        | step hs => simp [ht] at hs
    | true =>
      rw [runFrom_eq_ok_of_starts ht]
      constructor
      · intro h
        obtain ⟨s, hs, hr⟩ := h
        obtain ⟨made, hy, rfl⟩ := hp.runFrom_eq_ok.mp hr
        refine ⟨s.emit ++ made, .step ht (hp.step hs []) hy, ?_⟩
        simp [Step.behind, hp.retract hs]
      · intro h
        obtain ⟨made, hy, rfl⟩ := h
        cases hy with
        | keep hs => simp [ht] at hs
        | @step _ _ made s _ hs hy =>
          refine ⟨s, hp.step hs before, hp.runFrom_eq_ok.mpr ⟨made, hy, ?_⟩⟩
          simp [Step.behind, hp.retract hs]
termination_by after.length
decreasing_by
  · exact Nat.lt_succ_self _
  · exact Nat.lt_succ_of_le (s.length_ahead_le _)
  · exact Nat.lt_succ_of_le (s.length_ahead_le _)

theorem Forward.run_eq_ok {p : Pass} (hp : p.Forward) {line out : List Token} :
    (p.run line).result = .ok out ↔ p.Yields line out := by
  rw [run, hp.runFrom_eq_ok]
  constructor
  · intro h
    obtain ⟨made, hy, rfl⟩ := h
    exact hy
  · intro hy
    exact ⟨out, hy, rfl⟩

/-! ## The steps

Each lemma says when a step succeeds and what it then does. -/

end Pass

theorem foldSelector_of_ok {tokens : List Token} {p : Nat} {r : Nat × Option Selector}
    (h : foldSelector tokens p = .ok r) (q : Nat) : foldSelector tokens q = .ok r := by
  rw [foldSelector] at h ⊢
  cases hn : (scan SelectorRun.take {} tokens).1.name with
  | none => simp [hn] at h
  | some named => simpa only [hn] using h

namespace Pass

section

variable {before after : List Token} {t : Token} {s : Step}

theorem selector_step_eq_ok :
    (selector.step before t after).result = .ok s ↔
      (∃ count, foldSelector (t :: after) 0 = .ok (count, none) ∧ s = { emit := [t] }) ∨
      ∃ count found, foldSelector (t :: after) 0 = .ok (count, some found) ∧
        s = { emit := [.selector found], skip := count - 1 } := by
  constructor
  · intro h
    obtain ⟨⟨count, found⟩, hf, h⟩ := Logged.result_bind_eq_ok.mp h
    rw [Logged.result_ofExcept] at hf
    have hf := foldSelector_of_ok hf 0
    cases found with
    | none => exact .inl ⟨count, hf, (Except.ok.inj h).symm⟩
    | some found => exact .inr ⟨count, found, hf, (Except.ok.inj h).symm⟩
  · intro h
    obtain ⟨count, hf, rfl⟩ | ⟨count, found, hf, rfl⟩ := h
    · exact Logged.result_bind_eq_ok.mpr ⟨_, foldSelector_of_ok hf _, rfl⟩
    · exact Logged.result_bind_eq_ok.mpr ⟨_, foldSelector_of_ok hf _, rfl⟩

theorem result_function_step (functions : NameSet) :
    ((function functions).step before t after).result =
      .ok { emit := if namesFunction functions t then [.jump .goto, t] else [t] } := by
  by_cases h : namesFunction functions t = true
  · simp only [function, h, if_true]
    rfl
  · simp only [function, h, if_false, Bool.false_eq_true]
    rfl

theorem result_runArgument_step (relex : Relexer) :
    ((runArgument relex).step before t after).result =
      .ok { emit := match runText? t with
        | none => [t]
        | some text => [.property (.text .run), .text (argumentText relex text) []] } := by
  cases h : runText? t with
  | none => simp only [runArgument, h, Logged.result_pure]
  | some text =>
    simp only [runArgument, h]
    rfl

theorem command_step_eq_ok :
    (command.step before t after).result = .ok s ↔
      ∃ k, commandKind? ((t :: after).takeWhile Token.isActionable) = some k ∧
        s = { emit := [.command k ((t :: after).takeWhile Token.isActionable)],
              skip := ((t :: after).takeWhile Token.isActionable).length - 1 } := by
  constructor
  · intro h
    simp only [command] at h
    cases hk : commandKind? ((t :: after).takeWhile Token.isActionable) with
    | none =>
      rw [hk] at h
      cases h
    | some k =>
      rw [hk] at h
      exact ⟨k, rfl, (Except.ok.inj h).symm⟩
  · intro h
    obtain ⟨k, hk, rfl⟩ := h
    simp only [command, hk]
    rfl

end

theorem selector_forward : selector.Forward where
  step h _ := selector_step_eq_ok.mpr (selector_step_eq_ok.mp h)
  retract h := by
    obtain ⟨_, _, rfl⟩ | ⟨_, _, _, rfl⟩ := selector_step_eq_ok.mp h <;> rfl

theorem function_forward (functions : NameSet) : (function functions).Forward where
  step h _ := by
    rw [result_function_step] at h ⊢
    exact h
  retract h := by
    rw [result_function_step] at h
    cases h
    rfl

theorem runArgument_forward (relex : Relexer) : (runArgument relex).Forward where
  step h _ := by
    rw [result_runArgument_step] at h ⊢
    exact h
  retract h := by
    rw [result_runArgument_step] at h
    cases h
    rfl

theorem condition_forward (registry : Registry) (limit : Nat) :
    (condition registry limit).Forward where
  step h _ := condition_step_eq_ok.mpr (condition_step_eq_ok.mp h)
  retract h := by
    obtain ⟨_, _, _, _, _, _, _, _, rfl⟩ := condition_step_eq_ok.mp h
    rfl

theorem command_forward : command.Forward where
  step h _ := command_step_eq_ok.mpr (command_step_eq_ok.mp h)
  retract h := by
    obtain ⟨_, _, rfl⟩ := command_step_eq_ok.mp h
    rfl

/-! ## The loop pass -/

/-- The loop pass turns the first line into the second.  A loop can only be passed
together with the number in front of it. -/
inductive Binds : List Token → List Token → Prop where
  | nil : Binds [] []
  | keep {t : Token} {after out : List Token} :
      startsLoop t = false → Binds after out → Binds (t :: after) (t :: out)
  | bind {value : Single} {count : Option Int32} {after out : List Token} :
      Binds after out →
      Binds (.number value :: .loop count :: after) (.loop (some value.toInt32) :: out)

theorem Binds.join {a b x y : List Token} (hx : Binds a x) (hy : Binds b y) :
    Binds (a ++ b) (x ++ y) := by
  induction hx with
  | nil => exact hy
  | keep ht _ ih => exact .keep ht ih
  | bind _ ih => exact .bind ih

theorem loop_step_eq_ok {before after : List Token} {t : Token} {s : Step} :
    (loop.step before t after).result = .ok s ↔
      ∃ value rest, before = .number value :: rest ∧
        s = { retract := 1, emit := [withCount value.toInt32 t] } := by
  constructor
  · intro h
    simp only [loop] at h
    split at h
    · rename_i value rest
      exact ⟨value, rest, rfl, (Except.ok.inj h).symm⟩
    · cases h
  · intro h
    obtain ⟨value, rest, rfl, rfl⟩ := h
    rfl

/-- The number behind the cursor may still be taken back by a loop. -/
theorem loop_runFrom_eq_ok {before after out : List Token} :
    (loop.runFrom before after).result = .ok out ↔
      (∃ made, Binds after made ∧ out = before.reverse ++ made) ∨
      ∃ value count rest more made, before = .number value :: rest ∧
        after = .loop count :: more ∧ Binds more made ∧
        out = rest.reverse ++ .loop (some value.toInt32) :: made := by
  induction after generalizing before with
  | nil =>
    rw [result_runFrom_nil]
    constructor
    · intro h
      exact .inl ⟨[], .nil, by rw [List.append_nil, Except.ok.inj h]⟩
    · intro h
      obtain ⟨made, hb, rfl⟩ | ⟨_, _, _, _, _, _, h, _⟩ := h
      · cases hb
        rw [List.append_nil]
      · cases h
  | cons t after ih =>
    cases ht : startsLoop t with
    | false =>
      rw [runFrom_of_not_starts ht, ih]
      constructor
      · intro h
        obtain ⟨made, hb, rfl⟩ | ⟨value, count, rest, more, made, he, rfl, hb, rfl⟩ := h
        · exact .inl ⟨t :: made, .keep ht hb, by simp⟩
        · cases he
          exact .inl ⟨_, .bind hb, rfl⟩
      · intro h
        obtain ⟨made, hb, rfl⟩ | ⟨_, _, _, _, _, _, he, _⟩ := h
        · cases hb with
          | keep _ hb => exact .inl ⟨_, hb, by simp⟩
          | bind hb => exact .inr ⟨_, _, before, _, _, rfl, rfl, hb, rfl⟩
        · cases he
          cases ht
    | true =>
      rw [runFrom_eq_ok_of_starts ht]
      constructor
      · intro h
        obtain ⟨s, hs, hr⟩ := h
        obtain ⟨value, rest, rfl, rfl⟩ := loop_step_eq_ok.mp hs
        cases t <;> cases ht
        rename_i count
        rcases ih.mp hr with ⟨made, hb, rfl⟩ | ⟨_, _, _, _, _, he, _⟩
        · exact .inr ⟨value, count, rest, after, made, rfl, rfl, hb, by simp [Step.behind, withCount]⟩
        · cases he
      · intro h
        obtain ⟨made, hb, rfl⟩ | ⟨value, count, rest, more, made, rfl, he, hb, rfl⟩ := h
        · cases hb with
          | keep hs => simp [ht] at hs
          | bind => cases ht
        · cases he
          refine ⟨_, loop_step_eq_ok.mpr ⟨value, rest, rfl, rfl⟩, ih.mpr (.inl ⟨made, hb, ?_⟩)⟩
          simp [Step.behind, withCount]

theorem loop_run_eq_ok {line out : List Token} :
    (loop.run line).result = .ok out ↔ Binds line out := by
  rw [run, loop_runFrom_eq_ok]
  constructor
  · intro h
    obtain ⟨made, hb, rfl⟩ | ⟨_, _, _, _, _, he, _⟩ := h
    · exact hb
    · cases he
  · intro hb
    exact .inl ⟨out, hb, rfl⟩

/-! ## One step at an index -/

section

variable {p : Pass} {tokens : List Token} {index : Nat} {h : index < tokens.length}

theorem stepWithin_eq_ok {r : Nat × List Token} :
    (p.stepWithin tokens index h).result = .ok r ↔
      ∃ s, (p.step (tokens.take index).reverse tokens[index] (tokens.drop (index + 1))).result =
          .ok s ∧
        r = ((s.behind (tokens.take index).reverse).length,
          (s.behind (tokens.take index).reverse).reverse ++ s.ahead (tokens.drop (index + 1))) := by
  rw [p.result_stepWithin h]
  cases (p.step (tokens.take index).reverse tokens[index] (tokens.drop (index + 1))).result with
  | error e => simp [Except.map]
  | ok s => simp [Except.map, eq_comm]

theorem stepWithin_eq_error {e : CompileError} :
    (p.stepWithin tokens index h).result = .error e ↔
      (p.step (tokens.take index).reverse tokens[index] (tokens.drop (index + 1))).result =
        .error e := by
  rw [p.result_stepWithin h]
  cases (p.step (tokens.take index).reverse tokens[index] (tokens.drop (index + 1))).result with
  | error e => simp [Except.map]
  | ok s => simp [Except.map]

end

/-! ## Where a pass stands -/

/-- A pass that stands between `before`, nearest first, and `ahead` comes to stand between
the other two lists. -/
inductive Reaches (p : Pass) (before ahead : List Token) : List Token → List Token → Prop where
  | start : Reaches p before ahead before ahead
  | keep {t : Token} {behind after : List Token} :
      Reaches p before ahead behind (t :: after) → p.starts t = false →
      Reaches p before ahead (t :: behind) after
  | step {t : Token} {behind after : List Token} {s : Step} :
      Reaches p before ahead behind (t :: after) → p.starts t = true →
      (p.step behind t after).result = .ok s →
      Reaches p before ahead (s.behind behind) (s.ahead after)

theorem Reaches.result_runFrom {p : Pass} {before ahead behind after : List Token}
    (h : p.Reaches before ahead behind after) :
    (p.runFrom before ahead).result = (p.runFrom behind after).result := by
  induction h with
  | start => rfl
  | keep _ ht ih => rw [ih, runFrom_of_not_starts ht]
  | step _ ht hs ih =>
    rw [ih, runFrom, if_pos ht, Logged.result_bind, hs]
    rfl

/-- A pass that reads one token at each step has read a front of the line wherever it stands.
What holds of nothing read and nothing put out, and is kept by each token read, holds there. -/
theorem Reaches.exists_front {p : Pass} (Inv : (front behind : List Token) → Prop)
    (start : Inv [] [])
    (keep : ∀ {front behind t}, Inv front behind → p.starts t = false →
      Inv (front ++ [t]) (t :: behind))
    (step : ∀ {front behind t after s}, Inv front behind → p.starts t = true →
      (p.step behind t after).result = .ok s → s.skip = 0 ∧ Inv (front ++ [t]) (s.behind behind))
    {line behind ahead : List Token} (h : p.Reaches [] line behind ahead) :
    ∃ front, line = front ++ ahead ∧ Inv front behind := by
  induction h with
  | start => exact ⟨[], rfl, start⟩
  | @keep t behind after _ ht ih =>
    obtain ⟨front, rfl, hi⟩ := ih
    exact ⟨front ++ [t], by rw [List.append_assoc, List.singleton_append], keep hi ht⟩
  | @step t behind after s _ ht hs ih =>
    obtain ⟨front, rfl, hi⟩ := ih
    obtain ⟨hskip, hi⟩ := step hi ht hs
    refine ⟨front ++ [t], ?_, hi⟩
    rw [Step.ahead, hskip, List.drop_zero, List.append_assoc, List.singleton_append]

/-- A pass that succeeds comes to the end of its line with what it makes behind it. -/
theorem Reaches.of_eq_ok {p : Pass} {before ahead behind after out : List Token}
    (hr : p.Reaches before ahead behind after) (h : (p.runFrom behind after).result = .ok out) :
    p.Reaches before ahead out.reverse [] := by
  match after, hr, h with
  | [], hr, h =>
    rw [result_runFrom_nil] at h
    rw [← Except.ok.inj h, List.reverse_reverse]
    exact hr
  | t :: after, hr, h =>
    cases ht : p.starts t with
    | false =>
      rw [runFrom_of_not_starts ht] at h
      exact (hr.keep ht).of_eq_ok h
    | true =>
      obtain ⟨s, hs, h⟩ := (runFrom_eq_ok_of_starts ht).mp h
      exact (hr.step ht hs).of_eq_ok h
termination_by after.length
decreasing_by
  · exact Nat.lt_succ_self _
  · exact Nat.lt_succ_of_le (s.length_ahead_le _)

/-! ## Failures -/

/-- The failure of a pass is that of a step at a place that the pass comes to. -/
theorem Reaches.exists_of_eq_error {p : Pass} {before ahead behind after : List Token}
    {e : CompileError} (hr : p.Reaches before ahead behind after)
    (h : (p.runFrom behind after).result = .error e) :
    ∃ last t rest, p.Reaches before ahead last (t :: rest) ∧ p.starts t = true ∧
      (p.step last t rest).result = .error e := by
  match after, hr, h with
  | [], _, h =>
    rw [result_runFrom_nil] at h
    cases h
  | t :: after, hr, h =>
    cases ht : p.starts t with
    | false =>
      rw [runFrom_of_not_starts ht] at h
      exact (hr.keep ht).exists_of_eq_error h
    | true =>
      rw [runFrom, if_pos ht] at h
      rcases Logged.result_bind_eq_error.mp h with hs | ⟨s, hs, h⟩
      · exact ⟨behind, t, after, hr, ht, hs⟩
      · exact (hr.step ht hs).exists_of_eq_error h
termination_by after.length
decreasing_by
  · exact Nat.lt_succ_self _
  · exact Nat.lt_succ_of_le (s.length_ahead_le _)

/-- A pass fails only where one of its steps does. -/
theorem runFrom_eq_error {p : Pass} {before after : List Token} {e : CompileError}
    (h : (p.runFrom before after).result = .error e) :
    ∃ behind t ahead, p.starts t = true ∧ (p.step behind t ahead).result = .error e := by
  obtain ⟨behind, t, ahead, -, ht, hs⟩ := Reaches.start.exists_of_eq_error h
  exact ⟨behind, t, ahead, ht, hs⟩

section

variable {before after : List Token} {t : Token} {e : CompileError}

theorem selector_step_eq_error (h : (selector.step before t after).result = .error e) :
    e = .selectorWithoutName before.length := by
  rcases Logged.result_bind_eq_error.mp h with hf | ⟨⟨count, found⟩, -, hr⟩
  · rw [Logged.result_ofExcept, foldSelector] at hf
    cases hn : (scan SelectorRun.take {} (t :: after)).1.name with
    | none =>
      simp only [hn] at hf
      exact (Except.error.inj hf).symm
    | some named => simp [hn] at hf
  · cases found <;> cases hr

theorem loop_step_eq_error (h : (loop.step before t after).result = .error e) :
    e = .loopWithoutNumber before.length (nameBehind before) := by
  simp only [loop] at h
  split at h
  · cases h
  · exact (Except.error.inj h).symm

theorem command_step_eq_error (h : (command.step before t after).result = .error e) :
    e = .unknownCommand before.length := by
  simp only [command] at h
  cases hk : commandKind? ((t :: after).takeWhile Token.isActionable) with
  | none =>
    rw [hk] at h
    exact (Except.error.inj h).symm
  | some k =>
    rw [hk] at h
    cases h

end

end Pass

/-! ## The compiler -/

namespace Compiler

/-- The passes of the given kinds, one after the other, turn the first line into the
second. -/
def Makes (c : Compiler) : List PassKind → List Token → List Token → Prop
  | [], line, out => line = out
  | kind :: kinds, line, out =>
    ∃ mid, ((c.pass kind).run line).result = .ok mid ∧ c.Makes kinds mid out

theorem result_runPass (c : Compiler) (line : List Token) (kind : PassKind) :
    (c.runPass line kind).result = ((c.pass kind).run line).result := by
  rw [runPass]
  simp only [Logged.result_bind, Logged.result_emit, Except.bind]
  cases ((c.pass kind).run line).result with
  | error e => rfl
  | ok out => cases c.options.traceTokens <;> rfl

theorem foldlM_runPass_eq_ok {c : Compiler} {kinds : List PassKind} {line out : List Token} :
    (kinds.foldlM c.runPass line).result = .ok out ↔ c.Makes kinds line out := by
  induction kinds generalizing line with
  | nil =>
    rw [List.foldlM_nil, Logged.result_pure, Except.ok.injEq, Makes]
  | cons kind kinds ih =>
    rw [List.foldlM_cons, Logged.result_bind_eq_ok, Makes]
    simp only [result_runPass, ih]

theorem compile_eq_ok {c : Compiler} {line out : List Token} :
    (c.compile line).result = .ok out ↔ c.Makes PassKind.all line out := by
  rw [compile, Logged.result_bind_eq_ok]
  constructor
  · intro h
    obtain ⟨mid, hm, h⟩ := h
    rw [← Except.ok.inj h]
    exact foldlM_runPass_eq_ok.mp hm
  · intro h
    exact ⟨out, foldlM_runPass_eq_ok.mpr h, rfl⟩

/-- Some pass is the first to fail, and the ones in front of it have made its line. -/
theorem foldlM_runPass_eq_error {c : Compiler} {kinds : List PassKind} {line : List Token}
    {e : CompileError} (h : (kinds.foldlM c.runPass line).result = .error e) :
    ∃ front kind back mid, kinds = front ++ kind :: back ∧ c.Makes front line mid ∧
      ((c.pass kind).run mid).result = .error e := by
  induction kinds generalizing line with
  | nil => cases h
  | cons kind kinds ih =>
    rw [List.foldlM_cons] at h
    rcases Logged.result_bind_eq_error.mp h with hr | ⟨mid, hm, hr⟩
    · rw [result_runPass] at hr
      exact ⟨[], kind, kinds, line, rfl, rfl, hr⟩
    · rw [result_runPass] at hm
      obtain ⟨front, k, back, last, rfl, hmade, he⟩ := ih hr
      exact ⟨kind :: front, k, back, last, rfl, ⟨mid, hm, hmade⟩, he⟩

theorem compile_eq_error {c : Compiler} {line : List Token} {e : CompileError}
    (h : (c.compile line).result = .error e) :
    ∃ front kind back mid, PassKind.all = front ++ kind :: back ∧ c.Makes front line mid ∧
      ((c.pass kind).run mid).result = .error e := by
  rw [compile] at h
  rcases Logged.result_bind_eq_error.mp h with hr | ⟨out, -, hr⟩
  · exact foldlM_runPass_eq_error hr
  · cases hr

end Compiler
end DeviceScript
