/-
What the selector pass leaves of a line.

The pass puts selectors in place of runs of the line and keeps everything else.  In what it
makes of a line there is nothing left to fold: no device stands outside of a selector, no text
has one inside, and each group or index that is left leads up to a text.  A line of this form
is one that the pass does not change, so a second pass does nothing.
-/
import DeviceScript.Proofs.Selector.Declined
import Mathlib.Data.List.Basic

namespace DeviceScript

/-- The second line is the first with a selector in place of each of some runs. -/
inductive Folds : List Token → List Token → Prop where
  | nil : Folds [] []
  | keep {t : Token} {line out : List Token} : Folds line out → Folds (t :: line) (t :: out)
  | fold {run rest out : List Token} {s : Selector} :
      foldSelector (run ++ rest) 0 = .ok (run.length, some s) →
      (∀ t ∈ run, Pass.startsSelector t = true) → (run.filterMap Token.named?).length = 1 →
      Folds rest out → Folds (run ++ rest) (.selector s :: out)

/-- A line in which there is nothing to fold. -/
structure Resolved (line : List Token) : Prop where
  noDevice : ∀ d, .device d ∉ line
  plain : ∀ s nested, .text s nested ∈ line → ∀ d, .device d ∉ nested
  named : ∀ front t back, line = front ++ t :: back → t.isQualifier = true →
    ∃ more s nested rest, back = more ++ .text s nested :: rest ∧ ∀ u ∈ more, u.isQualifier = true

/-! ## Nothing is lost -/

theorem exists_run_of_foldSelector {line : List Token} {position count : Nat} {s : Selector}
    (h : foldSelector line position = .ok (count, some s)) :
    ∃ run rest, line = run ++ rest ∧ count = run.length ∧
      (∀ t ∈ run, Pass.startsSelector t = true) ∧ (run.filterMap Token.named?).length = 1 := by
  obtain ⟨run, rest, rfl, hrun⟩ := SelectorRun.readsOff.exists_longestFront line
  have hone : ∀ {name nested}, .text name nested ∈ run →
      (run.filterMap Token.named?).length = 1 := by
    intro name nested hs
    have hpos := List.length_pos_of_mem (Token.mem_filterMap_named?.mpr hs)
    have hle := hrun.holds.name
    omega
  cases (SelectorRun.foldSelector_eq_iff hrun).mp h with
  | named hs => exact ⟨run, rest, rfl, rfl, hrun.holds.only, hone hs⟩
  | nested hs => exact ⟨run, rest, rfl, rfl, hrun.holds.only, hone hs⟩

namespace Pass

theorem folds_of_yields {line out : List Token} (h : selector.Yields line out) :
    Folds line out := by
  induction h with
  | nil => exact .nil
  | keep _ _ ih => exact .keep ih
  | @step t after out s _ hs _ ih =>
    obtain ⟨count, -, rfl⟩ | ⟨count, found, hf, rfl⟩ := selector_step_eq_ok.mp hs
    · exact .keep ih
    · obtain ⟨run, rest, hline, rfl, honly, hone⟩ := exists_run_of_foldSelector hf
      cases run with
      | nil => cases hone
      | cons u run =>
        obtain ⟨rfl, rfl⟩ := List.cons.inj hline
        have hahead : (run ++ rest).drop ((t :: run).length - 1) = rest := by
          rw [List.length_cons, Nat.add_sub_cancel, List.drop_left]
        have hrest : Folds rest out := by
          rw [← hahead]
          exact ih
        exact .fold hf honly hone hrest

end Pass

/-! ## Nothing is left to fold -/

theorem Resolved.nil : Resolved [] := by
  refine ⟨nofun, nofun, ?_⟩
  intro front t back h
  cases front <;> cases h

theorem Resolved.cons {t : Token} {line : List Token} (h : Resolved line)
    (hd : ∀ d, t ≠ .device d) (hs : ∀ s nested, t = .text s nested → ∀ d, .device d ∉ nested)
    (hq : t.isQualifier = true → ∃ more s nested rest,
      line = more ++ .text s nested :: rest ∧ ∀ u ∈ more, u.isQualifier = true) :
    Resolved (t :: line) := by
  refine ⟨?_, ?_, ?_⟩
  · intro d hm
    rcases List.mem_cons.mp hm with he | hm
    · exact hd d he.symm
    · exact h.noDevice d hm
  · intro s nested hm
    rcases List.mem_cons.mp hm with he | hm
    · exact hs s nested he.symm
    · exact h.plain s nested hm
  · intro front u back hline hu
    cases front with
    | nil =>
      obtain ⟨rfl, rfl⟩ := List.cons.inj hline
      exact hq hu
    | cons v front => exact h.named front u back (List.cons.inj hline).2 hu

theorem Resolved.tail {t : Token} {line : List Token} (h : Resolved (t :: line)) :
    Resolved line := by
  refine ⟨?_, ?_, ?_⟩
  · intro d hm
    exact h.noDevice d (List.mem_cons_of_mem t hm)
  · intro s nested hm
    exact h.plain s nested (List.mem_cons_of_mem t hm)
  · intro front u back hline hu
    exact h.named (t :: front) u back (by rw [hline]; rfl) hu

namespace Pass

/-- A plain run in front is kept up to its text. -/
theorem plain_of_yields (r : PlainRun) {rest out : List Token} (hends : PlainRun.Ends rest)
    (h : selector.Yields (r.tokens ++ rest) out) :
    ∃ made, out = r.front ++ .text r.name r.nested :: made := by
  have hrun := selector_forward.run_eq_ok.mpr h
  have hstart : selector.Reaches [] (r.tokens ++ rest) [] (r.tokens ++ rest) := .start
  rw [run, (hstart.plain_text r hends).result_runFrom] at hrun
  obtain ⟨made, -, rfl⟩ := selector_forward.runFrom_eq_ok.mp hrun
  exact ⟨made, by simp⟩

theorem resolved_of_yields {line out : List Token} (h : selector.Yields line out) :
    Resolved out := by
  induction h with
  | nil => exact .nil
  | @keep t after out ht _ ih =>
    cases t with
    | group | text | device | index => cases ht
    | _ => exact ih.cons nofun nofun nofun
  | @step t after out s ht hs hy ih =>
    obtain ⟨count, hf, rfl⟩ | ⟨_, found, _, rfl⟩ := selector_step_eq_ok.mp hs
    · obtain ⟨⟨front, name, nested, back, hfront, hback, hin⟩, rest, hline, hends, -⟩ :=
        PlainRun.exists_of_foldSelector hf
      cases front with
      | nil =>
        obtain ⟨rfl, -⟩ := List.cons.inj hline
        refine ih.cons nofun ?_ nofun
        intro s nested he
        cases he
        exact hin
      | cons u front =>
        obtain ⟨rfl, rfl⟩ := List.cons.inj hline
        obtain ⟨hu, hfront⟩ := List.forall_mem_cons.mp hfront
        -- The rest of the run is a plain run again, and its text is still there.
        obtain ⟨made, rfl⟩ :=
          plain_of_yields ⟨front, name, nested, back, hfront, hback, hin⟩ hends hy
        refine ih.cons ?_ ?_ fun _ => ⟨front, name, nested, made, rfl, hfront⟩
        · intro d he
          rw [he] at hu
          cases hu
        · intro s nested he
          rw [he] at hu
          cases hu
    · exact ih.cons nofun nofun nofun

end Pass

/-! ## A second pass -/

/-- Where a text comes next behind qualifiers, a line without devices has a plain run. -/
theorem Resolved.exists_plainRun (front : List Token) {nested back : List Token} {s : String}
    (h : Resolved (front ++ .text s nested :: back)) (hf : ∀ t ∈ front, t.isQualifier = true) :
    ∃ (r : PlainRun) (rest : List Token),
      front ++ .text s nested :: back = r.tokens ++ rest ∧ PlainRun.Ends rest := by
  have hin : ∀ d, .device d ∉ nested :=
    h.plain s nested (List.mem_append_right front List.mem_cons_self)
  have hback : ∀ t ∈ back.takeWhile Token.isQualifier, t.isQualifier = true := by
    intro t ht
    exact List.all_eq_true.mp List.all_takeWhile t ht
  refine ⟨⟨front, s, nested, back.takeWhile Token.isQualifier, hf, hback, hin⟩,
    back.dropWhile Token.isQualifier, ?_, ?_⟩
  · rw [PlainRun.tokens, List.append_assoc, List.cons_append, List.takeWhile_append_dropWhile]
  · intro t ht
    have hq := List.head?_dropWhile_not Token.isQualifier back
    rw [ht] at hq
    refine ⟨by simpa using hq, ?_⟩
    have hm : t ∈ back := (List.dropWhile_suffix Token.isQualifier).mem (List.mem_of_mem_head? ht)
    cases t with
    | device d =>
      exact absurd (List.mem_append_right front (List.mem_cons_of_mem _ hm)) (h.noDevice d)
    | _ => rfl

theorem Resolved.foldSelector_eq_none {t : Token} {line : List Token} (h : Resolved (t :: line))
    (ht : Pass.startsSelector t = true) :
    ∃ count, foldSelector (t :: line) 0 = .ok (count, none) := by
  have hplain : ∃ (r : PlainRun) (rest : List Token),
      t :: line = r.tokens ++ rest ∧ PlainRun.Ends rest := by
    cases t with
    | text s nested => exact Resolved.exists_plainRun [] h nofun
    | group | index =>
      obtain ⟨more, s, nested, rest, rfl, hmore⟩ := h.named [] _ line rfl rfl
      refine Resolved.exists_plainRun (_ :: more) h ?_
      exact List.forall_mem_cons.mpr ⟨rfl, hmore⟩
    | device d => exact absurd List.mem_cons_self (h.noDevice d)
    | _ => cases ht
  obtain ⟨r, rest, hline, hends⟩ := hplain
  rw [hline]
  exact ⟨_, r.foldSelector_tokens hends 0⟩

namespace Pass

theorem yields_of_resolved {line : List Token} (h : Resolved line) : selector.Yields line line := by
  induction line with
  | nil => exact .nil
  | cons t line ih =>
    cases ht : startsSelector t with
    | false => exact .keep ht (ih h.tail)
    | true =>
      obtain ⟨count, hf⟩ := h.foldSelector_eq_none ht
      exact .step ht (selector_step_eq_ok.mpr (.inl ⟨count, hf, rfl⟩)) (ih h.tail)

/-- The selector pass folds runs and keeps the rest, leaves nothing to fold, and does not
change its own result. -/
theorem selector_run_folds (line out : List Token) (h : (selector.run line).result = .ok out) :
    Folds line out ∧ Resolved out ∧ (selector.run out).result = .ok out := by
  have hy := selector_forward.run_eq_ok.mp h
  have hresolved := resolved_of_yields hy
  exact ⟨folds_of_yields hy, hresolved,
    selector_forward.run_eq_ok.mpr (yields_of_resolved hresolved)⟩

/-- The first text is left alone, the second takes the index between them, and the third is a
selector by the device inside it. -/
theorem selector_run_folds_three_texts :
    let line : List Token := [.group, .text "Deck" [], .text "Gate" [], .index 2, .device .door,
      .wait, .text "Lamps" [.device .light, .group]]
    let out : List Token := [.group, .text "Deck" [], .selector ⟨.door, false, "Gate", some 2⟩,
      .wait, .selector ⟨.light, true, "Lamps", none⟩]
    (selector.run line).result = .ok out ∧
      Folds line out ∧ Resolved out ∧ (selector.run out).result = .ok out := by
  intro line out
  have h : (selector.run line).result = .ok out := by with_unfolding_all rfl
  exact ⟨h, selector_run_folds line out h⟩

end Pass
end DeviceScript
