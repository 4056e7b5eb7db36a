/-
What a step of a pass may touch.

A step replaces a piece of the line around its token by other tokens.  The piece lies
inside of the line, it reaches back over the token by one token at most, and that only
in the loop pass, and the pass goes on behind what is put in its place.  So what a step
has not read is what is ahead of the cursor afterwards, and that gets shorter with each
step even where the line gets longer or the cursor stays.
-/
import DeviceScript.Proofs.Pass.Run

namespace DeviceScript

/-- How many tokens in front of its own a step of a pass may take back. -/
def PassKind.reach : PassKind → Nat
  | .loop => 1
  | _ => 0

/-! ## Bounds of a step -/

/-- A run with a name has a first token. -/
theorem exists_front_of_foldSelector {t : Token} {after : List Token} {position count : Nat}
    {found : Option Selector} (h : foldSelector (t :: after) position = .ok (count, found)) :
    ∃ front back, after = front ++ back ∧ count = front.length + 1 := by
  rw [foldSelector, scan] at h
  cases ht : SelectorRun.take {} t with
  | none =>
    rw [ht] at h
    cases h
  | some r =>
    obtain ⟨front, back, hafter, hcount⟩ := exists_scan_span SelectorRun.take r after
    refine ⟨front, back, hafter, ?_⟩
    simp only [ht, hcount] at h
    split at h
    · cases h
    · exact (Prod.mk.inj (Except.ok.inj h)).1.symm

namespace Pass

/-- A step takes back at most `reach` tokens, and takes only tokens that are there. -/
structure Inside (p : Pass) (reach : Nat) : Prop where
  reach : ∀ {before t after s}, (p.step before t after).result = .ok s → s.retract ≤ reach
  retract : ∀ {before t after s}, (p.step before t after).result = .ok s →
    s.retract ≤ before.length
  skip : ∀ {before t after s}, (p.step before t after).result = .ok s → s.skip ≤ after.length

theorem Forward.inside {p : Pass} (hp : p.Forward)
    (hs : ∀ {before t after s}, (p.step before t after).result = .ok s → s.skip ≤ after.length) :
    p.Inside 0 where
  reach h := Nat.le_of_eq (hp.retract h)
  retract h := by
    rw [hp.retract h]
    exact Nat.zero_le _
  skip := hs

theorem selector_inside : selector.Inside 0 := by
  refine selector_forward.inside ?_
  intro before t after s h
  obtain ⟨_, _, rfl⟩ | ⟨count, _, hf, rfl⟩ := selector_step_eq_ok.mp h
  · exact Nat.zero_le _
  · obtain ⟨front, back, rfl, rfl⟩ := exists_front_of_foldSelector hf
    show front.length + 1 - 1 ≤ (front ++ back).length
    rw [List.length_append]
    omega

theorem function_inside (functions : NameSet) : (function functions).Inside 0 := by
  refine (function_forward functions).inside ?_
  intro before t after s h
  rw [result_function_step] at h
  cases h
  exact Nat.zero_le _

theorem runArgument_inside (relex : Relexer) : (runArgument relex).Inside 0 := by
  refine (runArgument_forward relex).inside ?_
  intro before t after s h
  rw [result_runArgument_step] at h
  cases h
  exact Nat.zero_le _

theorem loop_inside : loop.Inside 1 where
  reach h := by
    obtain ⟨_, _, _, rfl⟩ := loop_step_eq_ok.mp h
    exact Nat.le_refl 1
  retract h := by
    obtain ⟨value, rest, rfl, rfl⟩ := loop_step_eq_ok.mp h
    show 1 ≤ rest.length + 1
    omega
  skip h := by
    obtain ⟨_, _, _, rfl⟩ := loop_step_eq_ok.mp h
    exact Nat.zero_le _

theorem condition_inside (registry : Registry) (limit : Nat) :
    (condition registry limit).Inside 0 := by
  refine (condition_forward registry limit).inside ?_
  intro before t after s h
  obtain ⟨span, rest, _, _, rfl, _, _, _, rfl⟩ := condition_step_eq_ok.mp h
  show span.length ≤ (span ++ rest).length
  rw [List.length_append]
  omega

theorem command_inside : command.Inside 0 := by
  refine command_forward.inside ?_
  intro before t after s h
  obtain ⟨_, _, rfl⟩ := command_step_eq_ok.mp h
  have hrun := (List.takeWhile_prefix Token.isActionable (l := t :: after)).length_le
  rw [List.length_cons] at hrun
  show ((t :: after).takeWhile Token.isActionable).length - 1 ≤ after.length
  omega

end Pass

theorem Compiler.pass_inside (c : Compiler) (kind : PassKind) :
    (c.pass kind).Inside kind.reach := by
  cases kind with
  | selector => exact Pass.selector_inside
  | function => exact Pass.function_inside _
  | runArgument => exact Pass.runArgument_inside _
  | loop => exact Pass.loop_inside
  | condition => exact Pass.condition_inside _ _
  | command => exact Pass.command_inside

/-! ## Progress -/

/-- What becomes of a line when a step at `index` that reaches back by at most `reach`
tokens makes `out` of it and goes on at `cursor`. -/
structure Advances (reach : Nat) (line : List Token) (index : Nat) (out : List Token)
    (cursor : Nat) : Prop where
  bound : cursor ≤ out.length
  /-- What is left to read is a proper end of what was. -/
  unread : ∃ taken, taken ≠ [] ∧ line.drop index = taken ++ out.drop cursor
  frame : out.take (index - reach) = line.take (index - reach)

namespace Pass

/-- A step replaces the tokens that it takes back, its own and those that it skips. -/
theorem Inside.replaces {p : Pass} {reach : Nat} (hp : p.Inside reach) {line out : List Token}
    {index cursor : Nat} {hi : index < line.length}
    (h : (p.stepWithin line index hi).result = .ok (cursor, out)) :
    ∃ retract emit skip, retract ≤ reach ∧ retract ≤ index ∧ index + 1 + skip ≤ line.length ∧
      cursor = index - retract + emit.length ∧
      out = line.take (index - retract) ++ emit ++ line.drop (index + 1 + skip) := by
  obtain ⟨s, hs, hr⟩ := stepWithin_eq_ok.mp h
  have hlen : (line.take index).length = index := List.length_take_of_le (Nat.le_of_lt hi)
  have hretract := hp.retract hs
  have hskip := hp.skip hs
  rw [List.length_reverse, hlen] at hretract
  rw [List.length_drop] at hskip
  have hkept : ((line.take index).reverse.drop s.retract).reverse =
      line.take (index - s.retract) := by
    rw [List.drop_reverse, List.reverse_reverse, hlen, List.take_take,
      Nat.min_eq_left (Nat.sub_le index s.retract)]
  have hbehind : (s.behind (line.take index).reverse).reverse =
      line.take (index - s.retract) ++ s.emit := by
    rw [Step.behind, List.reverse_append, List.reverse_reverse, hkept]
  obtain ⟨rfl, rfl⟩ := Prod.mk.inj hr
  refine ⟨s.retract, s.emit, s.skip, hp.reach hs, hretract, by omega, ?_, ?_⟩
  · rw [← List.length_reverse, hbehind, List.length_append, List.length_take_of_le (by omega)]
  · rw [hbehind, Step.ahead, List.drop_drop]

theorem Inside.advances {p : Pass} {reach : Nat} (hp : p.Inside reach) {line out : List Token}
    {index cursor : Nat} {hi : index < line.length}
    (h : (p.stepWithin line index hi).result = .ok (cursor, out)) :
    Advances reach line index out cursor := by
  obtain ⟨retract, emit, skip, hreach, hretract, hskip, hcursor, hout⟩ := hp.replaces h
  have hkept : (line.take (index - retract)).length = index - retract :=
    List.length_take_of_le (by omega)
  have hmade : (line.take (index - retract) ++ emit).length = cursor := by
    rw [List.length_append, hkept, hcursor]
  have hahead : out.drop cursor = line.drop (index + 1 + skip) := by
    rw [hout, ← hmade, List.drop_left]
  refine ⟨?_, ?_, ?_⟩
  · rw [hout, List.length_append, hmade]
    omega
  · refine ⟨(line.drop index).take (skip + 1), ?_, ?_⟩
    · rw [← List.length_pos_iff, List.length_take, List.length_drop]
      omega
    · have hrest : (line.drop index).drop (skip + 1) = line.drop (index + 1 + skip) := by
        rw [List.drop_drop]
        congr 1
        omega
      rw [hahead, ← hrest, List.take_append_drop]
  · rw [hout, List.append_assoc, List.take_append_of_le_length (by omega), List.take_take,
      Nat.min_eq_left (by omega)]

end Pass
end DeviceScript
