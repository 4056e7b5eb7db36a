/-
When the loops of a line are counted.

The loop pass looks at numbers and loops alone, and the three passes in front of it
let both alone.  A step of theirs reads no further than to the next number or loop, and
puts in neither.  So a number stands right in front of a loop behind such a pass exactly
if it did so before.  Taking that number away does not join what stood on its two sides,
since the loop stays between them.  The loop pass could as well come first.
-/
import DeviceScript.Proofs.Pass.Progress

namespace DeviceScript

/-- Whether the loop pass looks at the token. -/
def Token.isCounting : Token → Bool
  | .number _ | .loop _ => true
  | _ => false

theorem Step.ahead_taken {s : Step} {taken : List Token} (h : s.skip = taken.length)
    (rest : List Token) : s.ahead (taken ++ rest) = rest := by
  rw [Step.ahead, h, List.drop_left]

namespace Pass

/-! ## The loop pass on what it does not look at -/

theorem startsLoop_of_not_isCounting {t : Token} (h : t.isCounting = false) :
    startsLoop t = false := by
  cases t with
  | loop => cases h
  | _ => rfl

theorem binds_append_iff {front line out : List Token}
    (hf : ∀ t ∈ front, t.isCounting = false) :
    Binds (front ++ line) out ↔ ∃ made, out = front ++ made ∧ Binds line made := by
  induction front generalizing out with
  | nil =>
    show Binds line out ↔ ∃ made, out = made ∧ Binds line made
    simp only [exists_eq_left']
  | cons t front ih =>
    obtain ⟨ht, hf⟩ := List.forall_mem_cons.mp hf
    constructor
    · intro h
      generalize hl : t :: front ++ line = whole at h
      cases h with
      | nil => cases hl
      | keep _ h =>
        obtain ⟨rfl, rfl⟩ := List.cons.inj hl
        obtain ⟨made, rfl, hm⟩ := (ih hf).mp h
        exact ⟨made, rfl, hm⟩
      | bind =>
        rw [(List.cons.inj hl).1] at ht
        cases ht
    · intro h
      obtain ⟨made, rfl, hm⟩ := h
      exact .keep (startsLoop_of_not_isCounting ht) ((ih hf).mpr ⟨made, rfl, hm⟩)

/-! ## Passes that can change places with the loop pass -/

/-- The pass neither reads nor writes what the loop pass looks at. -/
structure Separated (p : Pass) : Prop where
  forward : p.Forward
  starts : ∀ {t}, t.isCounting = true → p.starts t = false
  step : ∀ {t after counted s}, Binds after counted →
    ((p.step [] t after).result = .ok s ↔ (p.step [] t counted).result = .ok s)
  taken : ∀ {t after s}, (p.step [] t after).result = .ok s →
    ∃ taken rest, after = taken ++ rest ∧ s.skip = taken.length ∧
      ∀ u ∈ taken, u.isCounting = false
  emit : ∀ {t after s}, p.starts t = true → (p.step [] t after).result = .ok s →
    s.emit ≠ [] ∧ ∀ u ∈ s.emit, u.isCounting = false

section

variable {p : Pass}

theorem Separated.startsLoop (hp : p.Separated) {t : Token} (h : p.starts t = true) :
    startsLoop t = false := by
  by_cases ht : t.isCounting = true
  · rw [hp.starts ht] at h
    cases h
  · exact startsLoop_of_not_isCounting (Bool.eq_false_iff.mpr ht)

/-- A loop in front was in front before the pass. -/
theorem Separated.head (hp : p.Separated) {line out : List Token} {count : Option Int32}
    (h : p.Yields line (.loop count :: out)) :
    ∃ rest, line = .loop count :: rest ∧ p.Yields rest out := by
  generalize hl : Token.loop count :: out = made at h
  cases h with
  | nil => cases hl
  | @keep t after _ _ h =>
    cases hl
    exact ⟨after, rfl, h⟩
  | step ht hs _ =>
    obtain ⟨hne, hemit⟩ := hp.emit ht hs
    obtain ⟨u, more, he⟩ := List.exists_cons_of_ne_nil hne
    rw [he, List.cons_append] at hl
    have hu : u.isCounting = false := hemit u (by rw [he]; exact List.mem_cons_self)
    rw [← (List.cons.inj hl).1] at hu
    cases hu

/-- What a pass and the loop pass behind it make, the loop pass and the pass behind it
make as well. -/
theorem Separated.loop_first (hp : p.Separated) {line mid out : List Token}
    (hy : p.Yields line mid) (hb : Binds mid out) :
    ∃ counted, Binds line counted ∧ p.Yields counted out := by
  induction hn : line.length using Nat.strongRecOn generalizing line mid out with
  | ind n ih =>
    subst hn
    cases hy with
    | nil =>
      cases hb
      exact ⟨[], .nil, .nil⟩
    | @keep t after mid ht hy =>
      generalize hl : t :: mid = whole at hb
      cases hb with
      | nil => cases hl
      | keep hloop hb =>
        obtain ⟨rfl, rfl⟩ := List.cons.inj hl
        obtain ⟨counted, hc, hout⟩ := ih after.length (Nat.lt_succ_self _) hy hb rfl
        exact ⟨t :: counted, .keep hloop hc, .keep ht hout⟩
      | bind hb =>
        -- The loop behind the number is not a new one, so the two stood together.
        obtain ⟨rfl, rfl⟩ := List.cons.inj hl
        obtain ⟨rest, rfl, hrest⟩ := hp.head hy
        have hlt : rest.length < rest.length + 1 + 1 := by omega
        obtain ⟨counted, hc, hout⟩ := ih rest.length hlt hrest hb rfl
        exact ⟨_, .bind hc, .keep (hp.starts rfl) hout⟩
    | @step t after mid s ht hs hy =>
      obtain ⟨made, rfl, hmade⟩ := (binds_append_iff (hp.emit ht hs).2).mp hb
      obtain ⟨taken, rest, rfl, hskip, htaken⟩ := hp.taken hs
      rw [Step.ahead_taken hskip] at hy
      have hlt : rest.length < (t :: (taken ++ rest)).length := by
        rw [List.length_cons, List.length_append]
        omega
      obtain ⟨counted, hc, hout⟩ := ih rest.length hlt hy hmade rfl
      have hafter : Binds (taken ++ rest) (taken ++ counted) :=
        (binds_append_iff htaken).mpr ⟨counted, rfl, hc⟩
      refine ⟨t :: (taken ++ counted), .keep (hp.startsLoop ht) hafter, ?_⟩
      refine .step ht ((hp.step hafter).mp hs) ?_
      rw [Step.ahead_taken hskip]
      exact hout

theorem Separated.loop_last (hp : p.Separated) {line counted out : List Token}
    (hb : Binds line counted) (hy : p.Yields counted out) :
    ∃ mid, p.Yields line mid ∧ Binds mid out := by
  induction hn : line.length using Nat.strongRecOn generalizing line counted out with
  | ind n ih =>
    subst hn
    cases hb with
    | nil =>
      cases hy
      exact ⟨[], .nil, .nil⟩
    | @keep t after counted hloop hb =>
      cases hy with
      | keep ht hy =>
        obtain ⟨mid, hm, hout⟩ := ih after.length (Nat.lt_succ_self _) hb hy rfl
        exact ⟨t :: mid, .keep ht hm, .keep hloop hout⟩
      | @step _ _ out s ht hs hy =>
        have hstep := (hp.step hb).mpr hs
        obtain ⟨taken, rest, rfl, hskip, htaken⟩ := hp.taken hstep
        obtain ⟨made, rfl, hmade⟩ := (binds_append_iff htaken).mp hb
        rw [Step.ahead_taken hskip] at hy
        have hlt : rest.length < (t :: (taken ++ rest)).length := by
          rw [List.length_cons, List.length_append]
          omega
        obtain ⟨mid, hm, hout⟩ := ih rest.length hlt hmade hy rfl
        refine ⟨s.emit ++ mid, .step ht hstep ?_, ?_⟩
        · rw [Step.ahead_taken hskip]
          exact hm
        · exact (binds_append_iff (hp.emit ht hstep).2).mpr ⟨out, rfl, hout⟩
    | @bind value count after out hb =>
      cases hy with
      | keep _ hy =>
        have hlt : after.length < after.length + 1 + 1 := by omega
        obtain ⟨mid, hm, hout⟩ := ih after.length hlt hb hy rfl
        exact ⟨_, .keep (hp.starts rfl) (.keep (hp.starts rfl) hm), .bind hout⟩
      | step ht =>
        rw [hp.starts rfl] at ht
        cases ht

theorem Separated.swap (hp : p.Separated) {line out : List Token} :
    (∃ counted, (loop.run line).result = .ok counted ∧ (p.run counted).result = .ok out) ↔
      ∃ mid, (p.run line).result = .ok mid ∧ (loop.run mid).result = .ok out := by
  simp only [loop_run_eq_ok, hp.forward.run_eq_ok]
  constructor
  · intro h
    obtain ⟨counted, hb, hy⟩ := h
    exact hp.loop_last hb hy
  · intro h
    obtain ⟨mid, hy, hb⟩ := h
    exact hp.loop_first hy hb

end

/-! ## The passes in front of the loop pass -/

/-- A run of a selector ends at a number and at a loop alike. -/
theorem scan_selector_of_binds {line counted : List Token} (h : Binds line counted)
    (r : SelectorRun) : scan SelectorRun.take r line = scan SelectorRun.take r counted := by
  induction h generalizing r with
  | nil => rfl
  | keep _ _ ih =>
    rw [scan, scan]
    simp only [ih]
  | bind => rfl

theorem foldSelector_of_binds {t : Token} {after counted : List Token} (h : Binds after counted)
    (position : Nat) : foldSelector (t :: after) position = foldSelector (t :: counted) position := by
  have hscan : scan SelectorRun.take {} (t :: after) = scan SelectorRun.take {} (t :: counted) := by
    rw [scan, scan]
    simp only [scan_selector_of_binds h]
  rw [foldSelector, foldSelector, hscan]

/-- A run of a selector has neither numbers nor loops. -/
theorem foldSelector_span {t : Token} {after : List Token} {position count : Nat}
    {found : Option Selector} (h : foldSelector (t :: after) position = .ok (count, found)) :
    ∃ taken rest, after = taken ++ rest ∧ count - 1 = taken.length ∧
      ∀ u ∈ taken, u.isCounting = false := by
  have hcount : (scan SelectorRun.take {} (t :: after)).2 = count := by
    rw [foldSelector] at h
    cases hn : (scan SelectorRun.take {} (t :: after)).1.name with
    | none => simp [hn] at h
    | some named =>
      simp only [hn, Except.ok.injEq, Prod.mk.injEq] at h
      exact h.1
  obtain ⟨run, rest, hrun, hlen⟩ := exists_scan_span SelectorRun.take {} (t :: after)
  have hscan : scan SelectorRun.take {} (run ++ rest) =
      ((scan SelectorRun.take {} (t :: after)).1, run.length) := by
    rw [← hrun, ← hlen]
  obtain ⟨hfold, -⟩ := scan_append_eq_iff.mp hscan
  have hclear : ∀ u ∈ run, u.isCounting = false := by
    intro u hu
    by_cases hc : u.isCounting = true
    · have hrefused : ∀ r : SelectorRun, r.take u = none := by
        intro r
        cases u with
        | number | loop => rfl
        | _ => cases hc
      exact absurd hu (not_mem_of_foldlM hrefused hfold)
    · exact Bool.eq_false_iff.mpr hc
  rw [hlen] at hcount
  cases run with
  | nil => exact ⟨[], after, rfl, by rw [← hcount]; rfl, List.forall_mem_nil _⟩
  | cons u run =>
    obtain ⟨rfl, rfl⟩ := List.cons.inj hrun
    refine ⟨run, rest, rfl, ?_, fun v hv => hclear v (List.mem_cons_of_mem t hv)⟩
    rw [← hcount, List.length_cons]
    omega

theorem selector_separated : selector.Separated where
  forward := selector_forward
  starts {t} h := by
    cases t with
    | number | loop => rfl
    | _ => cases h
  step h := by simp only [selector_step_eq_ok, foldSelector_of_binds h]
  taken {t after s} h := by
    obtain ⟨count, hf, rfl⟩ | ⟨count, found, hf, rfl⟩ := selector_step_eq_ok.mp h
    · exact ⟨[], after, rfl, rfl, List.forall_mem_nil _⟩
    · exact foldSelector_span hf
  emit {t after s} ht h := by
    obtain ⟨count, hf, rfl⟩ | ⟨count, found, hf, rfl⟩ := selector_step_eq_ok.mp h
    · refine ⟨List.cons_ne_nil _ _, ?_⟩
      intro u hu
      rw [List.mem_singleton.mp hu]
      cases t with
      | number | loop => cases ht
      | _ => rfl
    · refine ⟨List.cons_ne_nil _ _, ?_⟩
      intro u hu
      rw [List.mem_singleton.mp hu]
      rfl

/-- A pass that starts at texts, and replaces each without looking around. -/
theorem separated_of_texts {p : Pass} {replace : Token → List Token} (hp : p.Forward)
    (hstarts : p.starts = startsText)
    (hstep : ∀ t after, (p.step [] t after).result = .ok { emit := replace t })
    (hreplace : ∀ s nested, replace (.text s nested) ≠ [] ∧
      ∀ u ∈ replace (.text s nested), u.isCounting = false) : p.Separated where
  forward := hp
  starts {t} h := by
    rw [hstarts]
    cases t with
    | number | loop => rfl
    | _ => cases h
  step _ := by rw [hstep, hstep]
  taken {t after s} h := by
    rw [hstep] at h
    cases h
    exact ⟨[], after, rfl, rfl, List.forall_mem_nil _⟩
  emit {t after s} ht h := by
    rw [hstarts] at ht
    rw [hstep] at h
    cases h
    cases t with
    | text value nested => exact hreplace value nested
    | _ => cases ht

theorem function_separated (functions : NameSet) : (function functions).Separated := by
  refine separated_of_texts (function_forward functions) rfl
    (fun _ _ => result_function_step functions) ?_
  intro s nested
  by_cases h : namesFunction functions (.text s nested) = true
  · simp [h, Token.isCounting]
  · simp [h, Token.isCounting]

theorem runArgument_separated (relex : Relexer) : (runArgument relex).Separated := by
  refine separated_of_texts (runArgument_forward relex) rfl
    (fun _ _ => result_runArgument_step relex) ?_
  intro s nested
  cases h : runText? (.text s nested) with
  | none => simp [Token.isCounting]
  | some text => simp [Token.isCounting]

end Pass

namespace Compiler

/-- The loop pass can be moved to the front of passes that are separated from it. -/
theorem makes_loop_first {c : Compiler} (kinds : List PassKind)
    (hk : ∀ kind ∈ kinds, (c.pass kind).Separated) {line out : List Token} :
    c.Makes (.loop :: kinds) line out ↔ c.Makes (kinds ++ [.loop]) line out := by
  induction kinds generalizing line with
  | nil => rfl
  | cons kind kinds ih =>
    obtain ⟨hkind, hk⟩ := List.forall_mem_cons.mp hk
    constructor
    · intro h
      obtain ⟨counted, hl, made, hp, h⟩ := h
      obtain ⟨mid, hm, hl⟩ := hkind.swap.mp ⟨counted, hl, hp⟩
      exact ⟨mid, hm, (ih hk).mp ⟨made, hl, h⟩⟩
    · intro h
      obtain ⟨mid, hm, h⟩ := h
      obtain ⟨made, hl, h⟩ := (ih hk).mpr h
      obtain ⟨counted, hc, hp⟩ := hkind.swap.mpr ⟨mid, hm, hl⟩
      exact ⟨counted, hc, made, hp, h⟩

/-- Counting the loops first makes the same line of any line as counting them behind the
selector, function and run-argument passes, and fails on the same lines. -/
theorem foldlM_runPass_loop_first (c : Compiler) (line out : List Token) :
    (([.loop, .selector, .function, .runArgument] : List PassKind).foldlM c.runPass
        line).result = .ok out ↔
      (([.selector, .function, .runArgument, .loop] : List PassKind).foldlM c.runPass
        line).result = .ok out := by
  rw [foldlM_runPass_eq_ok, foldlM_runPass_eq_ok]
  refine makes_loop_first [.selector, .function, .runArgument] ?_
  intro kind hkind
  cases kind with
  | selector => exact Pass.selector_separated
  | function => exact Pass.function_separated _
  | runArgument => exact Pass.runArgument_separated _
  | loop | condition | command => simp at hkind

end Compiler
end DeviceScript
