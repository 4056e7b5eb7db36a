/-
The normal form of a compiled line.

Each pass either keeps a token of the line or puts one of its own in place of some,
and the tokens that it puts in are of few kinds.  Followed back through the six
passes, a token of the compiled line is one of the first line that takes part in
nothing, a loop with its count, a condition or a command.  That every `whether` has
its condition right behind it is a fact about neighbours, and is followed forward
from the pass that puts the condition there.
-/
import DeviceScript.Proofs.Pass.Run

namespace DeviceScript

/-- The place of a kind in the order in which the kinds are tried. -/
def CommandKind.rank : CommandKind → Nat
  | .function => 0
  | .listen => 1
  | .send => 2
  | .control => 3
  | .wait => 4
  | .block => 5

/-- The tokens make a command of this kind and of no kind that is tried earlier. -/
structure Grouped (kind : CommandKind) (tokens : List Token) : Prop where
  ne_nil : tokens ≠ []
  actionable : ∀ t ∈ tokens, t.isActionable = true
  marker : ∃ t ∈ tokens, kind.isMarker t = true
  first : ∀ k : CommandKind, k.rank < kind.rank → ∀ t ∈ tokens, k.isMarker t = false

/-- Every `whether` has a condition right behind it. -/
def Guarded (line : List Token) : Prop :=
  ∀ front back, line = front ++ .whether :: back → ∃ c rest, back = .condition c :: rest

/-- What a line looks like once `line` is compiled to it. -/
structure NormalForm (line out : List Token) : Prop where
  inert : ∀ t ∈ out, t.isActionable = false
  noDevice : ∀ d, .device d ∉ out
  guarded : Guarded out
  bound : ∀ count, .loop count ∈ out → ∃ n, count = some n
  grouped : ∀ kind tokens, .command kind tokens ∈ out →
    .command kind tokens ∈ line ∨ Grouped kind tokens

/-! ## Where tokens come from -/

namespace Pass

theorem Yields.mem {p : Pass} {line out : List Token} (h : p.Yields line out) {t : Token}
    (ht : t ∈ out) :
    (t ∈ line ∧ p.starts t = false) ∨
      ∃ u ∈ line, ∃ after s, p.starts u = true ∧ (p.step [] u after).result = .ok s ∧
        t ∈ s.emit := by
  induction h with
  | nil => cases ht
  | @keep u after out hu _ ih =>
    rcases List.mem_cons.mp ht with rfl | ht
    · exact .inl ⟨List.mem_cons_self, hu⟩
    · rcases ih ht with ⟨hm, hs⟩ | ⟨v, hv, rest⟩
      · exact .inl ⟨List.mem_cons_of_mem _ hm, hs⟩
      · exact .inr ⟨v, List.mem_cons_of_mem _ hv, rest⟩
  | @step u after out s hu hs _ ih =>
    have hmem : ∀ v ∈ s.ahead after, v ∈ u :: after := by
      intro v hv
      exact List.mem_cons_of_mem _ (List.mem_of_mem_drop hv)
    rcases List.mem_append.mp ht with ht | ht
    · exact .inr ⟨u, List.mem_cons_self, after, s, hu, hs, ht⟩
    · rcases ih ht with ⟨hm, hs⟩ | ⟨v, hv, rest⟩
      · exact .inl ⟨hmem t hm, hs⟩
      · exact .inr ⟨v, hmem v hv, rest⟩

theorem Binds.mem {line out : List Token} (h : Binds line out) {t : Token} (ht : t ∈ out) :
    (t ∈ line ∧ startsLoop t = false) ∨ ∃ n, t = .loop (some n) := by
  induction h with
  | nil => cases ht
  | keep hs _ ih =>
    rcases List.mem_cons.mp ht with rfl | ht
    · exact .inl ⟨List.mem_cons_self, hs⟩
    · rcases ih ht with ⟨hm, hs⟩ | hn
      · exact .inl ⟨List.mem_cons_of_mem _ hm, hs⟩
      · exact .inr hn
  | bind _ ih =>
    rcases List.mem_cons.mp ht with rfl | ht
    · exact .inr ⟨_, rfl⟩
    · rcases ih ht with ⟨hm, hs⟩ | hn
      · exact .inl ⟨List.mem_cons_of_mem _ (List.mem_cons_of_mem _ hm), hs⟩
      · exact .inr hn

theorem device_isSome_take (r : SelectorRun) (t : Token) (s : SelectorRun)
    (hr : r.device.isSome = true) (h : r.take t = some s) : s.device.isSome = true := by
  cases t <;> simp only [SelectorRun.take, reduceCtorEq, Option.some.injEq] at h
  case group | index => rw [← h, hr]
  case text =>
    split at h
    · cases h
    · cases h
      exact hr
  case device => simp [hr] at h

/-- A run that starts with a device has one, so it is a selector if it is anything. -/
theorem foldSelector_device {d : Device} {after : List Token} {position count : Nat} :
    foldSelector (.device d :: after) position ≠ .ok (count, none) := by
  intro h
  have hd : (scan SelectorRun.take {} (.device d :: after)).1.device.isSome = true := by
    have hs : ({ device := some d } : SelectorRun).device.isSome = true := rfl
    exact scan_invariant device_isSome_take hs after
  obtain ⟨e, he⟩ := Option.isSome_iff_exists.mp hd
  rw [foldSelector] at h
  cases hn : (scan SelectorRun.take {} (.device d :: after)).1.name with
  | none => simp [hn] at h
  | some named => simp [hn, SelectorRun.selector?, he] at h

theorem selector_mem {line out : List Token} (h : selector.Yields line out) {t : Token}
    (ht : t ∈ out) : (t ∈ line ∧ ∀ d, t ≠ .device d) ∨ ∃ s, t = .selector s := by
  obtain ⟨hm, hs⟩ | ⟨u, hu, after, s, -, hs, he⟩ := h.mem ht
  · refine .inl ⟨hm, fun d hd => ?_⟩
    rw [hd] at hs
    cases hs
  · obtain ⟨count, hf, rfl⟩ | ⟨_, found, _, rfl⟩ := selector_step_eq_ok.mp hs
    · cases List.mem_singleton.mp he
      refine .inl ⟨hu, fun d hd => ?_⟩
      rw [hd] at hf
      exact foldSelector_device hf
    · exact .inr ⟨found, List.mem_singleton.mp he⟩

theorem function_mem {functions : NameSet} {line out : List Token}
    (h : (function functions).Yields line out) {t : Token} (ht : t ∈ out) :
    t ∈ line ∨ t = .jump .goto := by
  obtain ⟨hm, -⟩ | ⟨u, hu, after, s, -, hs, he⟩ := h.mem ht
  · exact .inl hm
  · rw [result_function_step] at hs
    cases hs
    by_cases hn : namesFunction functions u = true
    · simp only [hn, if_true, List.mem_cons, List.not_mem_nil, or_false] at he
      rcases he with rfl | rfl
      · exact .inr rfl
      · exact .inl hu
    · simp only [hn, if_false, Bool.false_eq_true, List.mem_singleton] at he
      rw [he]
      exact .inl hu

theorem runArgument_mem {relex : Relexer} {line out : List Token}
    (h : (runArgument relex).Yields line out) {t : Token} (ht : t ∈ out) :
    t ∈ line ∨ t.isActionable = true := by
  obtain ⟨hm, -⟩ | ⟨u, hu, after, s, -, hs, he⟩ := h.mem ht
  · exact .inl hm
  · rw [result_runArgument_step] at hs
    cases hs
    cases hr : runText? u with
    | none =>
      simp only [hr, List.mem_singleton] at he
      rw [he]
      exact .inl hu
    | some text =>
      simp only [hr, List.mem_cons, List.not_mem_nil, or_false] at he
      rcases he with rfl | rfl <;> exact .inr rfl

theorem condition_mem {registry : Registry} {limit : Nat} {line out : List Token}
    (h : (condition registry limit).Yields line out) {t : Token} (ht : t ∈ out) :
    t ∈ line ∨ ∃ c, t = .condition c := by
  obtain ⟨hm, -⟩ | ⟨u, hu, after, s, -, hs, he⟩ := h.mem ht
  · exact .inl hm
  · obtain ⟨_, _, _, c, _, _, _, _, rfl⟩ := condition_step_eq_ok.mp hs
    simp only [List.mem_cons, List.not_mem_nil, or_false] at he
    rcases he with rfl | rfl
    · exact .inl hu
    · exact .inr ⟨c, rfl⟩

theorem grouped_of_commandKind? {run : List Token} {kind : CommandKind}
    (h : commandKind? run = some kind) (hr : ∀ t ∈ run, t.isActionable = true) :
    Grouped kind run := by
  obtain ⟨hk, front, back, hall, hf⟩ := List.find?_eq_some_iff_append.mp h
  obtain ⟨m, hm, hmark⟩ := List.any_eq_true.mp hk
  refine ⟨List.ne_nil_of_mem hm, hr, ⟨m, hm, hmark⟩, ?_⟩
  intro k hlt t ht
  have hsorted : CommandKind.all.Pairwise fun i j => i.rank < j.rank := by decide
  rw [hall] at hsorted
  have hback := (List.pairwise_cons.mp (List.pairwise_append.mp hsorted).2.1).1
  have hmem : k ∈ CommandKind.all := by cases k <;> decide
  rw [hall] at hmem
  rcases List.mem_append.mp hmem with hfront | hrest
  · have hno : run.any k.isMarker = false := by simpa only [Bool.not_eq_true'] using hf k hfront
    exact Bool.eq_false_iff.mpr (List.any_eq_false.mp hno t ht)
  · rcases List.mem_cons.mp hrest with rfl | hin
    · omega
    · have := hback k hin
      omega

theorem command_mem {line out : List Token} (h : command.Yields line out) {t : Token}
    (ht : t ∈ out) :
    (t ∈ line ∧ t.isActionable = false) ∨ ∃ kind run, t = .command kind run ∧ Grouped kind run := by
  obtain ⟨hm, hs⟩ | ⟨u, hu, after, s, -, hs, he⟩ := h.mem ht
  · exact .inl ⟨hm, hs⟩
  · obtain ⟨kind, hk, rfl⟩ := command_step_eq_ok.mp hs
    refine .inr ⟨kind, _, List.mem_singleton.mp he, grouped_of_commandKind? hk ?_⟩
    intro v hv
    exact List.all_eq_true.mp List.all_takeWhile v hv

end Pass

/-! ## Conditions behind their `whether` -/

theorem Guarded.nil : Guarded [] := by
  intro front back h
  cases front <;> cases h

theorem guarded_cons {t : Token} {line : List Token} :
    Guarded (t :: line) ↔ (t = .whether → ∃ c rest, line = .condition c :: rest) ∧ Guarded line := by
  constructor
  · intro h
    constructor
    · intro ht
      exact h [] line (by rw [ht]; rfl)
    · intro front back hl
      exact h (t :: front) back (by rw [hl]; rfl)
  · intro h front back hl
    cases front with
    | nil =>
      obtain ⟨ht, rfl⟩ := List.cons.inj hl
      exact h.1 ht
    | cons u front =>
      exact h.2 front back (List.cons.inj hl).2

theorem Guarded.drop {line : List Token} (h : Guarded line) (n : Nat) : Guarded (line.drop n) := by
  intro front back hd
  refine h (line.take n ++ front) back ?_
  rw [List.append_assoc, ← hd, List.take_append_drop]

namespace Pass

theorem condition_guarded {registry : Registry} {limit : Nat} {line out : List Token}
    (h : (condition registry limit).Yields line out) : Guarded out := by
  induction h with
  | nil => exact .nil
  | keep hs _ ih =>
    refine guarded_cons.mpr ⟨?_, ih⟩
    intro ht
    rw [ht] at hs
    cases hs
  | @step t after out s _ hs _ ih =>
    obtain ⟨_, _, _, c, _, _, _, _, rfl⟩ := condition_step_eq_ok.mp hs
    have hc : Guarded (.condition c :: out) := guarded_cons.mpr ⟨nofun, ih⟩
    exact guarded_cons.mpr ⟨fun _ => ⟨c, out, rfl⟩, hc⟩

/-- A condition is not actionable, so it stays where it is. -/
theorem command_guarded {line out : List Token} (h : command.Yields line out)
    (hl : Guarded line) : Guarded out := by
  induction h with
  | nil => exact .nil
  | keep hs hy ih =>
    obtain ⟨hw, hl⟩ := guarded_cons.mp hl
    refine guarded_cons.mpr ⟨?_, ih hl⟩
    intro ht
    obtain ⟨c, rest, rfl⟩ := hw ht
    cases hy with
    | keep _ _ => exact ⟨c, _, rfl⟩
    | step ha => cases ha
  | @step t after out s _ hs _ ih =>
    obtain ⟨kind, _, rfl⟩ := command_step_eq_ok.mp hs
    have hl := (guarded_cons.mp hl).2
    exact guarded_cons.mpr ⟨nofun, ih (hl.drop _)⟩

end Pass

/-! ## The compiler -/

/-- How a token can come to stand in the line that `line` is compiled to. -/
inductive Origin (line : List Token) : Token → Prop where
  | kept {t : Token} : t ∈ line → t.isActionable = false → (∀ d, t ≠ .device d) →
      (∀ count, t ≠ .loop count) → Origin line t
  | loop (n : Int32) : Origin line (.loop (some n))
  | condition (c : Condition) : Origin line (.condition c)
  | command {kind : CommandKind} {run : List Token} :
      Grouped kind run → Origin line (.command kind run)

namespace Compiler

/-- The lines between the passes. -/
theorem makes_all {c : Compiler} {line out : List Token} (h : c.Makes PassKind.all line out) :
    ∃ folded called split counted guarded,
      Pass.selector.Yields line folded ∧
      (Pass.function c.options.functions).Yields folded called ∧
      (Pass.runArgument c.relex).Yields called split ∧
      Pass.Binds split counted ∧
      (Pass.condition c.registry c.options.maxConditionDepth.toNat).Yields counted guarded ∧
      Pass.command.Yields guarded out := by
  obtain ⟨folded, h₁, called, h₂, split, h₃, counted, h₄, guarded, h₅, _, h₆, rfl⟩ := h
  refine ⟨folded, called, split, counted, guarded, ?_, ?_, ?_, ?_, ?_, ?_⟩
  · exact Pass.selector_forward.run_eq_ok.mp h₁
  · exact (Pass.function_forward _).run_eq_ok.mp h₂
  · exact (Pass.runArgument_forward _).run_eq_ok.mp h₃
  · exact Pass.loop_run_eq_ok.mp h₄
  · exact (Pass.condition_forward _ _).run_eq_ok.mp h₅
  · exact Pass.command_forward.run_eq_ok.mp h₆

theorem origin_of_makes {c : Compiler} {line out : List Token}
    (h : c.Makes PassKind.all line out) {t : Token} (ht : t ∈ out) : Origin line t := by
  obtain ⟨_, _, _, _, _, h₁, h₂, h₃, h₄, h₅, h₆⟩ := makes_all h
  obtain ⟨ht, hi⟩ | ⟨kind, run, rfl, hg⟩ := Pass.command_mem h₆ ht
  · obtain ht | ⟨d, rfl⟩ := Pass.condition_mem h₅ ht
    · obtain ⟨ht, hl⟩ | ⟨n, rfl⟩ := h₄.mem ht
      · -- What the second and third passes put in is actionable, so `t` is older.
        obtain ht | ha := Pass.runArgument_mem h₃ ht
        · obtain ht | rfl := Pass.function_mem h₂ ht
          · obtain ⟨ht, hd⟩ | ⟨s, rfl⟩ := Pass.selector_mem h₁ ht
            · refine .kept ht hi hd ?_
              intro count he
              rw [he] at hl
              cases hl
            · cases hi
          · cases hi
        · rw [ha] at hi
          cases hi
      · exact .loop n
    · exact .condition d
  · exact .command hg

/-- In a compiled line nothing is left to group or to fold, each condition stands behind
its `whether`, each loop has a count, and the new commands are what they are called. -/
theorem compile_normalForm (c : Compiler) (line out : List Token)
    (h : (c.compile line).result = .ok out) : NormalForm line out := by
  have hm := compile_eq_ok.mp h
  constructor
  · intro t ht
    cases origin_of_makes hm ht with
    | kept _ hi => exact hi
    | loop | condition | command => rfl
  · intro d hd
    cases origin_of_makes hm hd with
    | kept _ _ hn => exact hn d rfl
  · obtain ⟨_, _, _, _, _, -, -, -, -, h₅, h₆⟩ := makes_all hm
    exact Pass.command_guarded h₆ (Pass.condition_guarded h₅)
  · intro count ht
    cases origin_of_makes hm ht with
    | kept _ _ _ hl => exact absurd rfl (hl count)
    | loop n => exact ⟨n, rfl⟩
  · intro kind tokens ht
    cases origin_of_makes hm ht with
    | kept hl => exact .inl hl
    | command hg => exact .inr hg

/-- A line with a command that is already there, a counted loop, a condition, and
devices to be switched off. -/
theorem compile_normalForm_lamps :
    let two : Single := .ofInt .single 2
    let line : List Token := [.command .wait [.wait], .number two, .loop none, .whether,
      .text "Gate" [], .device .door, .boolean true, .text "Lamps" [.device .light, .group],
      .boolean false]
    let out : List Token := [.command .wait [.wait], .loop (some 2), .whether,
      .condition (.aggregate .all (.boolean .door .open .equal true)
        ⟨.door, false, "Gate", none⟩),
      .command .block [.selector ⟨.light, true, "Lamps", none⟩, .boolean false]]
    (({} : Compiler).compile line).result = .ok out ∧ NormalForm line out := by
  intro two line out
  have htwo : two.toInt32 = 2 := by decide +kernel
  have h : (({} : Compiler).compile line).result = .ok out := by
    show (Compiler.compile {} [_, .number two, _, _, _, _, _, _, _]).result =
      .ok [_, .loop (some 2), _, _, _]
    rw [← htwo]
    generalize two = value
    with_unfolding_all rfl
  exact ⟨h, compile_normalForm {} line out h⟩

end Compiler
end DeviceScript
