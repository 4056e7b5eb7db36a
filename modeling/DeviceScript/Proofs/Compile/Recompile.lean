/-
Compiling what is compiled already.

In a compiled line no pass can still make a step: texts and numbers have gone into
commands, so a group or an index left over has no text to go with and a counted loop has
no number in front of it, and behind each `whether` stands a condition and not the tokens
of one.  A pass therefore passes over the whole line or fails at the first token that it
starts at.  So a compiled line compiles to itself or not at all, and which of the two
depends on whether it has a token that some pass starts at.
-/
import DeviceScript.Proofs.Compile.NormalForm

namespace DeviceScript

/-- The tokens of a compiled line at which a pass starts. -/
def Token.isPending : Token → Bool
  | .whether | .loop _ | .group | .index _ => true
  | _ => false

/-- What a pass finds in a compiled line, wherever the line came from. -/
structure Settled (line : List Token) : Prop where
  inert : ∀ t ∈ line, t.isActionable = false
  noDevice : ∀ d, .device d ∉ line
  guarded : Guarded line

theorem Compiler.settled_of_makes {c : Compiler} {line out : List Token}
    (h : c.Makes PassKind.all line out) : Settled out := by
  refine ⟨?_, ?_, ?_⟩
  · intro t ht
    cases origin_of_makes h ht with
    | kept _ hi => exact hi
    | loop | condition | command => rfl
  · intro d hd
    cases origin_of_makes h hd with
    | kept _ _ hn => exact hn d rfl
  · obtain ⟨_, _, _, _, _, -, -, -, -, hguard, hcommand⟩ := makes_all h
    exact Pass.command_guarded hcommand (Pass.condition_guarded hguard)

/-! ## Passes that fail where they start -/

namespace Pass

theorem name_isSome_take {r s : SelectorRun} {t : Token} (h : r.take t = some s)
    (hs : s.name.isSome = true) : r.name.isSome = true ∨ t.isActionable = true := by
  cases t with
  | text => exact .inr rfl
  | group | index =>
    cases h
    exact .inl hs
  | device d =>
    simp only [SelectorRun.take, Option.ite_none_left_eq_some, Option.some.injEq] at h
    obtain ⟨-, rfl⟩ := h
    exact .inl hs
  | _ => cases h

/-- A run of selector tokens without a text has no name. -/
theorem scan_name_of_inert {line : List Token} (hl : ∀ t ∈ line, t.isActionable = false)
    {r : SelectorRun} (hr : r.name = none) : (scan SelectorRun.take r line).1.name = none := by
  induction line generalizing r with
  | nil => exact hr
  | cons t line ih =>
    obtain ⟨ht, hl⟩ := List.forall_mem_cons.mp hl
    rw [scan]
    cases h : r.take t with
    | none => exact hr
    | some s =>
      refine ih hl ?_
      by_cases hs : s.name.isSome = true
      · rcases name_isSome_take h hs with hn | ha
        · rw [hr] at hn
          cases hn
        · rw [ht] at ha
          cases ha
      · exact Option.not_isSome_iff_eq_none.mp hs

theorem selector_yields_inert {line out : List Token} (h : selector.Yields line out)
    (hl : ∀ t ∈ line, t.isActionable = false) : ∀ t ∈ line, selector.starts t = false := by
  induction h with
  | nil => exact nofun
  | keep ht _ ih => exact List.forall_mem_cons.mpr ⟨ht, ih (List.forall_mem_cons.mp hl).2⟩
  | @step t after out s ht hs _ _ =>
    have hname : (scan SelectorRun.take {} (t :: after)).1.name = none := scan_name_of_inert hl rfl
    have hfold : foldSelector (t :: after) 0 = .error (.selectorWithoutName 0) := by
      rw [foldSelector]
      simp only [hname]
    obtain ⟨_, hf, -⟩ | ⟨_, _, hf, -⟩ := selector_step_eq_ok.mp hs
    · rw [hfold] at hf
      cases hf
    · rw [hfold] at hf
      cases hf

theorem binds_inert {line out : List Token} (h : Binds line out)
    (hl : ∀ t ∈ line, t.isActionable = false) : ∀ t ∈ line, startsLoop t = false := by
  induction h with
  | nil => exact nofun
  | keep ht _ ih => exact List.forall_mem_cons.mpr ⟨ht, ih (List.forall_mem_cons.mp hl).2⟩
  | bind => cases (List.forall_mem_cons.mp hl).1

/-- A condition cannot be the first token of the condition behind a `whether`. -/
theorem condition_step_condition {registry : Registry} {limit : Nat} {before after : List Token}
    {t : Token} {c : Condition} {s : Step} :
    ((condition registry limit).step before t (.condition c :: after)).result ≠ .ok s := by
  intro h
  obtain ⟨span, rest, n, d, he, ⟨pieces, hs, hc⟩, -, -, -⟩ := condition_step_eq_ok.mp h
  cases hs with
  | nil => exact hc.walk.ne_nil rfl
  | @mark p u pieces span hm _ =>
    rw [← (List.cons.inj he).1] at hm
    cases p with
    | join k => cases k <;> cases hm
    | _ => cases hm
  | @run run span d pieces hr _ =>
    obtain ⟨u, more, hu⟩ := List.exists_cons_of_ne_nil hr.ne_nil
    obtain ⟨-, r, hf, -⟩ := Piece.isRun_iff.mp hr
    rw [hu] at he hf
    rw [← (List.cons.inj he).1] at hf
    cases hf

theorem condition_yields_guarded {registry : Registry} {limit : Nat} {line out : List Token}
    (h : (condition registry limit).Yields line out) (hl : Guarded line) :
    ∀ t ∈ line, startsCondition t = false := by
  induction h with
  | nil => exact nofun
  | keep ht _ ih => exact List.forall_mem_cons.mpr ⟨ht, ih (guarded_cons.mp hl).2⟩
  | @step t after out s ht hs _ _ =>
    have hw : t = .whether := by
      cases t with
      | whether => rfl
      | _ => cases ht
    obtain ⟨c, rest, rfl⟩ := (guarded_cons.mp hl).1 hw
    exact absurd hs condition_step_condition

end Pass

namespace Compiler

theorem starts_of_run {c : Compiler} {line out : List Token} (hl : Settled line) {kind : PassKind}
    (h : ((c.pass kind).run line).result = .ok out) :
    ∀ t ∈ line, (c.pass kind).starts t = false := by
  have htext : ∀ t ∈ line, Pass.startsText t = false := by
    intro t ht
    have hi := hl.inert t ht
    cases t with
    | text => cases hi
    | _ => rfl
  cases kind with
  | selector => exact Pass.selector_yields_inert (Pass.selector_forward.run_eq_ok.mp h) hl.inert
  | function => exact htext
  | runArgument => exact htext
  | loop => exact Pass.binds_inert (Pass.loop_run_eq_ok.mp h) hl.inert
  | condition =>
    exact Pass.condition_yields_guarded ((Pass.condition_forward _ _).run_eq_ok.mp h) hl.guarded
  | command => exact hl.inert

/-- What passes make of a settled line, they make by passing over it. -/
theorem starts_of_makes {c : Compiler} {kinds : List PassKind} {line out : List Token}
    (hl : Settled line) (h : c.Makes kinds line out) :
    ∀ kind ∈ kinds, ∀ t ∈ line, (c.pass kind).starts t = false := by
  induction kinds with
  | nil => exact nofun
  | cons kind kinds ih =>
    obtain ⟨mid, hm, h⟩ := h
    have hstarts := starts_of_run hl hm
    have hmid : mid = line := by
      rw [Pass.result_run_of_not_starts hstarts] at hm
      exact (Except.ok.inj hm).symm
    rw [hmid] at h
    exact List.forall_mem_cons.mpr ⟨hstarts, ih h⟩

theorem makes_of_not_starts {c : Compiler} {kinds : List PassKind} {line : List Token}
    (h : ∀ kind, ∀ t ∈ line, (c.pass kind).starts t = false) : c.Makes kinds line line := by
  induction kinds with
  | nil => rfl
  | cons kind kinds ih => exact ⟨line, Pass.result_run_of_not_starts (h kind), ih⟩

theorem not_starts_of_not_isPending (c : Compiler) (kind : PassKind) {line : List Token}
    (hl : Settled line) {t : Token} (ht : t ∈ line) (hp : t.isPending = false) :
    (c.pass kind).starts t = false := by
  have hi := hl.inert t ht
  cases t with
  | group | index | loop | whether => cases hp
  | device d => exact absurd ht (hl.noDevice d)
  | comparison | aggregation | not | and | or | openParen | closeParen | condition | command =>
    cases kind <;> rfl
  | _ => cases hi

theorem exists_starts_of_isPending (c : Compiler) {t : Token} (h : t.isPending = true) :
    ∃ kind ∈ PassKind.all, (c.pass kind).starts t = true := by
  cases t with
  | group | index => exact ⟨.selector, by decide, rfl⟩
  | loop => exact ⟨.loop, by decide, rfl⟩
  | whether => exact ⟨.condition, by decide, rfl⟩
  | _ => cases h

/-- A compiled line compiles to itself if it has no `whether`, loop, group or index, and
does not compile if it has one. -/
theorem compile_compiled (c : Compiler) (line out : List Token)
    (h : (c.compile line).result = .ok out) :
    ((∀ t ∈ out, t.isPending = false) → (c.compile out).result = .ok out) ∧
    ((∃ t ∈ out, t.isPending = true) → ∃ e, (c.compile out).result = .error e) := by
  have hsettled := settled_of_makes (compile_eq_ok.mp h)
  constructor
  · intro hnone
    refine compile_eq_ok.mpr (makes_of_not_starts ?_)
    intro kind t ht
    exact not_starts_of_not_isPending c kind hsettled ht (hnone t ht)
  · intro hsome
    obtain ⟨t, ht, hpending⟩ := hsome
    cases hr : (c.compile out).result with
    | error e => exact ⟨e, rfl⟩
    | ok again =>
      obtain ⟨kind, hkind, hstart⟩ := exists_starts_of_isPending c hpending
      have hquiet := starts_of_makes hsettled (compile_eq_ok.mp hr) kind hkind t ht
      rw [hquiet] at hstart
      cases hstart

/-- The text behind the index goes into a command and leaves the index behind. -/
theorem compile_compiled_twice :
    let line : List Token := [.not, .wait, .comparison .less, .index 3, .text "Lamps" [], .send]
    let out : List Token := [.not, .command .wait [.wait], .comparison .less, .index 3,
      .command .send [.text "Lamps" [], .send]]
    let short : List Token := [.not, .command .wait [.wait], .comparison .less]
    (({} : Compiler).compile line).result = .ok out ∧
      (∃ e, (({} : Compiler).compile out).result = .error e) ∧
      (({} : Compiler).compile (line.take 3)).result = .ok short ∧
      (({} : Compiler).compile short).result = .ok short := by
  intro line out short
  have hline : (({} : Compiler).compile line).result = .ok out := by with_unfolding_all rfl
  have hshort : (({} : Compiler).compile (line.take 3)).result = .ok short := by
    with_unfolding_all rfl
  refine ⟨hline, (compile_compiled {} line out hline).2 ⟨.index 3, by simp [out], rfl⟩, hshort, ?_⟩
  exact (compile_compiled {} _ short hshort).1 (by decide)

end Compiler
end DeviceScript
