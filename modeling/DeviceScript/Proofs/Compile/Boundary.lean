/-
Compilation falls apart at the start of a condition.

No step of a pass reads across a `whether` ahead of it, and none takes back a
`whether` behind it.  So a line that goes on with a `whether` compiles as its two
parts do.  The one exception is a connective right in front of the `whether`: a
condition that ends before the last token of a line may end in front of a
connective, but not in front of one with tokens behind it.
-/
import DeviceScript.Proofs.Pass.Progress

namespace DeviceScript

/-- The line does not end with a connective. -/
def Closed (line : List Token) : Prop := ∀ t ∈ line.getLast?, t ≠ .and ∧ t ≠ .or

theorem closed_singleton {t : Token} (h : t ≠ .and ∧ t ≠ .or) : Closed [t] := by
  intro u hu
  cases hu
  exact h

theorem Closed.of_append {front back : List Token} (h : Closed (front ++ back)) : Closed back := by
  intro t ht
  refine h t ?_
  rw [List.getLast?_append, Option.mem_def.mp ht]
  rfl

theorem Closed.tail {t : Token} {line : List Token} (h : Closed (t :: line)) : Closed line := by
  rw [← List.singleton_append] at h
  exact h.of_append

theorem Closed.append {front back : List Token} (hb : Closed back)
    (hf : back = [] → Closed front) : Closed (front ++ back) := by
  intro t ht
  rw [List.getLast?_append] at ht
  cases hl : back.getLast? with
  | none =>
    rw [hl, Option.none_or] at ht
    exact hf (List.getLast?_eq_none_iff.mp hl) t ht
  | some u =>
    rw [hl, Option.some_or] at ht
    exact hb t (hl.trans ht)

theorem Closed.drop {line : List Token} (h : Closed line) (n : Nat) : Closed (line.drop n) := by
  rw [← List.take_append_drop n line] at h
  exact h.of_append

/-! ## Forward passes -/

namespace Pass

/-- Steps stop in front of a `whether`, put something in place of what they take, and
keep a `whether` that they start at. -/
structure Walled (p : Pass) : Prop where
  step : ∀ {t x b s}, p.starts t = true → Closed (t :: x) →
    ((p.step [] t (x ++ .whether :: b)).result = .ok s ↔ (p.step [] t x).result = .ok s)
  skip : ∀ {t x s}, p.starts t = true → (p.step [] t x).result = .ok s → s.skip ≤ x.length
  emit : ∀ {t x s}, p.starts t = true → (p.step [] t x).result = .ok s →
    ∃ front last, s.emit = front ++ [last] ∧ last ≠ .and ∧ last ≠ .or
  whether : ∀ {x s}, p.starts .whether = true → (p.step [] .whether x).result = .ok s →
    ∃ more, s.emit = .whether :: more

section

variable {p : Pass}

theorem Walled.join (hp : p.Walled) {a b x y : List Token} (ha : Closed a)
    (hx : p.Yields a x) (hy : p.Yields (.whether :: b) y) :
    p.Yields (a ++ .whether :: b) (x ++ y) := by
  induction hx with
  | nil => exact hy
  | keep ht _ ih => exact .keep ht (ih ha.tail)
  | @step t after out s ht hs _ ih =>
    rw [List.append_assoc]
    refine .step ht ((hp.step ht ha).mpr hs) ?_
    show p.Yields (s.ahead (after ++ .whether :: b)) (out ++ y)
    rw [Step.ahead_append (hp.skip ht hs)]
    exact ih (ha.tail.drop s.skip)

theorem Walled.split (hp : p.Walled) {a b out : List Token} (ha : Closed a)
    (h : p.Yields (a ++ .whether :: b) out) :
    ∃ x y, p.Yields a x ∧ p.Yields (.whether :: b) y ∧ out = x ++ y := by
  generalize hl : a ++ .whether :: b = line at h
  induction h generalizing a with
  | nil => cases a <;> cases hl
  | @keep t after out ht h ih =>
    cases a with
    | nil =>
      obtain ⟨rfl, rfl⟩ := List.cons.inj hl
      exact ⟨[], _, .nil, .keep ht h, rfl⟩
    | cons u a =>
      obtain ⟨rfl, rfl⟩ := List.cons.inj hl
      obtain ⟨x, y, hx, hy, rfl⟩ := ih ha.tail rfl
      exact ⟨u :: x, y, .keep ht hx, hy, rfl⟩
  | @step t after out s ht hs h ih =>
    cases a with
    | nil =>
      obtain ⟨rfl, rfl⟩ := List.cons.inj hl
      exact ⟨[], _, .nil, .step ht hs h, rfl⟩
    | cons u a =>
      obtain ⟨rfl, rfl⟩ := List.cons.inj hl
      have hs := (hp.step ht ha).mp hs
      have hahead := (Step.ahead_append (hp.skip ht hs) (.whether :: b)).symm
      obtain ⟨x, y, hx, hy, rfl⟩ := ih (ha.tail.drop s.skip) hahead
      exact ⟨s.emit ++ x, y, .step ht hs hx, hy, (List.append_assoc ..).symm⟩

theorem Walled.ne_nil (hp : p.Walled) {a x : List Token} (h : p.Yields a x) (ha : a ≠ []) :
    x ≠ [] := by
  cases h with
  | nil => exact ha
  | keep _ _ => exact List.cons_ne_nil _ _
  | step ht hs _ =>
    obtain ⟨front, last, he, -⟩ := hp.emit ht hs
    rw [he]
    simp

theorem Walled.closed (hp : p.Walled) {a x : List Token} (h : p.Yields a x) (ha : Closed a) :
    Closed x := by
  induction h with
  | nil => exact ha
  | @keep t after out _ h ih =>
    show Closed ([t] ++ out)
    refine (ih ha.tail).append fun ho => ?_
    by_cases hn : after = []
    · rwa [hn] at ha
    · exact absurd ho (hp.ne_nil h hn)
  | step ht hs _ ih =>
    refine (ih (ha.tail.drop _)).append fun _ => ?_
    obtain ⟨front, last, he, hl⟩ := hp.emit ht hs
    rw [he]
    exact Closed.append (closed_singleton hl) (by simp)

theorem Walled.head (hp : p.Walled) {b y : List Token} (h : p.Yields (.whether :: b) y) :
    ∃ more, y = .whether :: more := by
  cases h with
  | keep _ _ => exact ⟨_, rfl⟩
  | step ht hs _ =>
    obtain ⟨more, he⟩ := hp.whether ht hs
    rw [he]
    exact ⟨_, rfl⟩

end

theorem ne_connective {p : Pass} {t : Token} (h : p.starts t = true)
    (ha : p.starts .and = false) (ho : p.starts .or = false) : t ≠ .and ∧ t ≠ .or := by
  constructor
  · intro he
    rw [he, ha] at h
    cases h
  · intro he
    rw [he, ho] at h
    cases h

theorem foldSelector_append_whether (x b : List Token) (position : Nat) :
    foldSelector (x ++ .whether :: b) position = foldSelector x position := by
  rw [foldSelector, foldSelector, scan_append_of_refused fun _ => rfl]

theorem selector_walled : selector.Walled where
  step _ _ := by
    simp only [selector_step_eq_ok, ← List.cons_append, foldSelector_append_whether]
  skip _ h := selector_inside.skip h
  emit ht h := by
    obtain ⟨_, _, rfl⟩ | ⟨_, _, _, rfl⟩ := selector_step_eq_ok.mp h
    · exact ⟨[], _, rfl, ne_connective ht rfl rfl⟩
    · exact ⟨[], _, rfl, nofun, nofun⟩
  whether ht _ := by cases ht

theorem function_walled (functions : NameSet) : (function functions).Walled where
  step _ _ := by rw [result_function_step, result_function_step]
  skip _ h := (function_inside functions).skip h
  emit {t} _ _ ht h := by
    rw [result_function_step] at h
    cases h
    by_cases hn : namesFunction functions t = true
    · exact ⟨[.jump .goto], t, by simp [hn], ne_connective ht rfl rfl⟩
    · exact ⟨[], t, by simp [hn], ne_connective ht rfl rfl⟩
  whether ht _ := by cases ht

theorem runArgument_walled (relex : Relexer) : (runArgument relex).Walled where
  step _ _ := by rw [result_runArgument_step, result_runArgument_step]
  skip _ h := (runArgument_inside relex).skip h
  emit {t} _ _ ht h := by
    rw [result_runArgument_step] at h
    cases h
    cases hr : runText? t with
    | none => exact ⟨[], t, by simp, ne_connective ht rfl rfl⟩
    | some text => exact ⟨[.property (.text .run)], _, rfl, nofun, nofun⟩
  whether ht _ := by cases ht

theorem takeWhile_append_whether (x b : List Token) :
    (x ++ .whether :: b).takeWhile Token.isActionable = x.takeWhile Token.isActionable := by
  induction x with
  | nil => rfl
  | cons t x ih => rw [List.cons_append, List.takeWhile_cons, List.takeWhile_cons, ih]

theorem command_walled : command.Walled where
  step _ _ := by
    simp only [command_step_eq_ok, ← List.cons_append, takeWhile_append_whether]
  skip _ h := command_inside.skip h
  emit _ h := by
    obtain ⟨_, _, rfl⟩ := command_step_eq_ok.mp h
    exact ⟨[], _, rfl, nofun, nofun⟩
  whether ht _ := by cases ht

end Pass

/-! ## Conditions -/

namespace Piece

section

variable {registry : Registry} {b : List Token}

/-- A `whether` ends a run like the end of the line does. -/
theorem isRun_append_whether {run rest : List Token} {c : Condition} :
    IsRun registry run (rest ++ .whether :: b) c ↔ IsRun registry run rest c := by
  rw [isRun_iff, isRun_iff]
  cases rest with
  | nil =>
    have hw : ∀ r : ConditionRun, r.take .whether = none := fun _ => rfl
    simp [hw]
  | cons t rest => rfl

theorem spelled_append_whether {pieces : List Piece} {span rest : List Token} :
    Spelled registry (rest ++ .whether :: b) pieces span ↔ Spelled registry rest pieces span := by
  constructor
  · intro h
    induction h with
    | nil => exact .nil
    | mark hm _ ih => exact .mark hm ih
    | run hr _ ih =>
      rw [← List.append_assoc] at hr
      exact .run (isRun_append_whether.mp hr) ih
  · intro h
    induction h with
    | nil => exact .nil
    | mark hm _ ih => exact .mark hm ih
    | run hr _ ih =>
      refine .run ?_ ih
      rw [← List.append_assoc]
      exact isRun_append_whether.mpr hr

theorem Spelled.whether_not_mem {pieces : List Piece} {span rest : List Token}
    (h : Spelled registry rest pieces span) : .whether ∉ span := by
  induction h with
  | nil => exact List.not_mem_nil
  | @mark p t _ _ hm _ ih =>
    intro hw
    rcases List.mem_cons.mp hw with rfl | hw
    · cases p with
      | join k => cases k <;> cases hm
      | _ => cases hm
    · exact ih hw
  | run hr _ ih =>
    obtain ⟨-, r, hf, -⟩ := isRun_iff.mp hr
    intro hw
    rcases List.mem_append.mp hw with hw | hw
    · exact not_mem_of_foldlM (fun _ => rfl) hf hw
    · exact ih hw

/-- A spelled span does not reach over a `whether`. -/
theorem Spelled.before_whether {pieces : List Piece} {span rest x : List Token}
    (h : Spelled registry rest pieces span) (he : x ++ .whether :: b = span ++ rest) :
    ∃ more, x = span ++ more ∧ rest = more ++ .whether :: b := by
  obtain ⟨more, hs, hr⟩ | ⟨more, hx, hr⟩ := List.append_eq_append_iff.mp he
  · cases more with
    | nil =>
      rw [List.append_nil] at hs
      exact ⟨[], by rw [hs, List.append_nil], hr.symm⟩
    | cons t more =>
      cases hr
      refine absurd ?_ h.whether_not_mem
      rw [hs]
      simp
  · exact ⟨more, hx, hr⟩

theorem ends_append_whether {span rest : List Token} (h : Closed (span ++ rest)) :
    Ends (rest ++ .whether :: b) ↔ Ends rest := by
  constructor
  · intro he
    constructor
    · intro hc
      refine he.closed ?_
      rw [List.head?_append, hc]
      rfl
    · intro t next more hr
      exact he.unjoined t next (more ++ .whether :: b) (by rw [hr]; rfl)
  · intro he
    constructor
    · intro hc
      rw [List.head?_append] at hc
      cases hr : rest.head? with
      | none =>
        rw [hr] at hc
        cases hc
      | some t =>
        rw [hr] at hc
        exact he.closed (hr.trans hc)
    · intro t next more hr
      match rest, hr with
      | [], hr =>
        cases hr
        exact ⟨nofun, nofun⟩
      | [u], hr =>
        cases hr
        exact h.of_append t rfl
      | u :: v :: rest, hr =>
        cases hr
        exact he.unjoined t next rest rfl

end
end Piece

namespace Pass

open Piece

theorem condition_walled (registry : Registry) (limit : Nat) :
    (condition registry limit).Walled where
  step {t x b s} ht hx := by
    rw [condition_step_eq_ok, condition_step_eq_ok]
    constructor
    · intro h
      obtain ⟨span, rest, n, c, he, ⟨pieces, hs, hc⟩, hn, hr, rfl⟩ := h
      obtain ⟨more, rfl, rfl⟩ := hs.before_whether he
      refine ⟨span, more, n, c, rfl, ⟨pieces, ?_, hc⟩, hn, ?_, rfl⟩
      · exact spelled_append_whether.mp hs
      · exact (ends_append_whether hx.tail).mp hr
    · intro h
      obtain ⟨span, rest, n, c, rfl, ⟨pieces, hs, hc⟩, hn, hr, rfl⟩ := h
      refine ⟨span, rest ++ .whether :: b, n, c, List.append_assoc .., ⟨pieces, ?_, hc⟩, hn, ?_, rfl⟩
      · exact spelled_append_whether.mpr hs
      · exact (ends_append_whether hx.tail).mpr hr
  skip _ h := (condition_inside registry limit).skip h
  emit _ h := by
    obtain ⟨_, _, _, _, _, _, _, _, rfl⟩ := condition_step_eq_ok.mp h
    exact ⟨[_], _, rfl, nofun, nofun⟩
  whether _ h := by
    obtain ⟨_, _, _, _, _, _, _, _, rfl⟩ := condition_step_eq_ok.mp h
    exact ⟨_, rfl⟩

/-! ## The loop pass -/

theorem Binds.split {a b out : List Token} (h : Binds (a ++ .whether :: b) out) :
    ∃ x y, Binds a x ∧ Binds (.whether :: b) y ∧ out = x ++ y := by
  generalize hl : a ++ .whether :: b = line at h
  induction h generalizing a with
  | nil => cases a <;> cases hl
  | keep ht h ih =>
    cases a with
    | nil =>
      obtain ⟨rfl, rfl⟩ := List.cons.inj hl
      exact ⟨[], _, .nil, .keep ht h, rfl⟩
    | cons u a =>
      obtain ⟨rfl, rfl⟩ := List.cons.inj hl
      obtain ⟨x, y, hx, hy, rfl⟩ := ih rfl
      exact ⟨u :: x, y, .keep ht hx, hy, rfl⟩
  | bind h ih =>
    -- A number and its loop stand on the same side, since neither is a `whether`.
    match a, hl with
    | [], hl => cases hl
    | [u], hl => cases hl
    | u :: v :: a, hl =>
      cases hl
      obtain ⟨x, y, hx, hy, rfl⟩ := ih rfl
      exact ⟨_, y, .bind hx, hy, rfl⟩

theorem Binds.closed {a x : List Token} (h : Binds a x) (ha : Closed a) : Closed x := by
  induction h with
  | nil => exact ha
  | @keep t after out _ h ih =>
    show Closed ([t] ++ out)
    refine (ih ha.tail).append fun ho => ?_
    rw [ho] at h
    cases h
    exact ha
  | @bind value count after out _ ih =>
    show Closed ([_] ++ out)
    exact (ih ha.tail.tail).append fun _ => closed_singleton ⟨nofun, nofun⟩

/-! ## All passes -/

/-- A pass makes of a line up to a `whether` and of the rest what it makes of the two
together. -/
structure Splits (p : Pass) : Prop where
  iff : ∀ {a b out}, Closed a → ((p.run (a ++ .whether :: b)).result = .ok out ↔
    ∃ x y, (p.run a).result = .ok x ∧ (p.run (.whether :: b)).result = .ok y ∧ out = x ++ y)
  closed : ∀ {a x}, (p.run a).result = .ok x → Closed a → Closed x
  head : ∀ {b y}, (p.run (.whether :: b)).result = .ok y → ∃ more, y = .whether :: more

theorem Walled.splits {p : Pass} (hp : p.Walled) (hf : p.Forward) : p.Splits where
  iff ha := by
    simp only [hf.run_eq_ok]
    constructor
    · exact hp.split ha
    · intro h
      obtain ⟨x, y, hx, hy, rfl⟩ := h
      exact hp.join ha hx hy
  closed h := hp.closed (hf.run_eq_ok.mp h)
  head h := hp.head (hf.run_eq_ok.mp h)

theorem loop_splits : loop.Splits where
  iff _ := by
    simp only [loop_run_eq_ok]
    constructor
    · exact Binds.split
    · intro h
      obtain ⟨x, y, hx, hy, rfl⟩ := h
      exact hx.join hy
  closed h := (loop_run_eq_ok.mp h).closed
  head h := by
    cases loop_run_eq_ok.mp h with
    | keep _ _ => exact ⟨_, rfl⟩

end Pass

namespace Compiler

theorem pass_splits (c : Compiler) (kind : PassKind) : (c.pass kind).Splits := by
  cases kind with
  | selector => exact Pass.selector_walled.splits Pass.selector_forward
  | function => exact (Pass.function_walled _).splits (Pass.function_forward _)
  | runArgument => exact (Pass.runArgument_walled _).splits (Pass.runArgument_forward _)
  | loop => exact Pass.loop_splits
  | condition => exact (Pass.condition_walled _ _).splits (Pass.condition_forward _ _)
  | command => exact Pass.command_walled.splits Pass.command_forward

theorem makes_append_whether {c : Compiler} {kinds : List PassKind} {a b out : List Token}
    (ha : Closed a) :
    c.Makes kinds (a ++ .whether :: b) out ↔
      ∃ x y, c.Makes kinds a x ∧ c.Makes kinds (.whether :: b) y ∧ out = x ++ y := by
  induction kinds generalizing a b with
  | nil =>
    constructor
    · intro h
      exact ⟨a, .whether :: b, rfl, rfl, h.symm⟩
    · intro h
      obtain ⟨x, y, rfl, rfl, rfl⟩ := h
      rfl
  | cons kind kinds ih =>
    have hp := c.pass_splits kind
    constructor
    · intro h
      obtain ⟨mid, hm, h⟩ := h
      obtain ⟨x, y, hx, hy, rfl⟩ := (hp.iff ha).mp hm
      obtain ⟨more, rfl⟩ := hp.head hy
      obtain ⟨x', y', hx', hy', rfl⟩ := (ih (hp.closed hx ha)).mp h
      exact ⟨x', y', ⟨x, hx, hx'⟩, ⟨_, hy, hy'⟩, rfl⟩
    · intro h
      obtain ⟨x', y', ⟨x, hx, hx'⟩, ⟨y, hy, hy'⟩, rfl⟩ := h
      obtain ⟨more, rfl⟩ := hp.head hy
      refine ⟨x ++ .whether :: more, (hp.iff ha).mpr ⟨x, _, hx, hy, rfl⟩, ?_⟩
      exact (ih (hp.closed hx ha)).mpr ⟨x', y', hx', hy', rfl⟩

/-- A line compiles across a `whether` exactly when the parts before it and from it on
both compile, and then to what these compile to. -/
theorem compile_append_whether (c : Compiler) (a b out : List Token)
    (ha : ∀ t ∈ a.getLast?, t ≠ .and ∧ t ≠ .or) :
    (c.compile (a ++ [.whether] ++ b)).result = .ok out ↔
      ∃ x y, (c.compile a).result = .ok x ∧ (c.compile ([.whether] ++ b)).result = .ok y ∧
        out = x ++ y := by
  rw [List.append_assoc, List.singleton_append]
  simp only [compile_eq_ok]
  exact makes_append_whether ha

/-- The first condition ends right in front of the second one. -/
theorem compile_two_conditions :
    let a : List Token := [.wait, .whether, .text "Gate" [], .device .door, .boolean true]
    let b : List Token := [.not, .text "Lamps" [.device .light, .group], .boolean false, .send]
    (∀ t ∈ a.getLast?, t ≠ .and ∧ t ≠ .or) ∧
      ((({} : Compiler).compile (a ++ [.whether] ++ b)).result = .ok
        ([.command .wait [.wait], .whether, .condition (.aggregate .all
            (.boolean .door .open .equal true) ⟨.door, false, "Gate", none⟩)] ++
          [.whether, .condition (.not (.aggregate .all (.boolean .light .power .equal false)
            ⟨.light, true, "Lamps", none⟩)), .command .send [.send]])) := by
  intro a b
  have ha : ∀ t ∈ a.getLast?, t ≠ .and ∧ t ≠ .or := by
    intro t ht
    cases ht
    exact ⟨nofun, nofun⟩
  refine ⟨ha, (compile_append_whether {} a b _ ha).mpr ⟨_, _, ?_, ?_, rfl⟩⟩
  · with_unfolding_all rfl
  · with_unfolding_all rfl

end Compiler
end DeviceScript
