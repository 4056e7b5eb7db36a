/-
Passes that rewrite each token on its own.

The function pass and the run-argument pass put two tokens in place of one and go on behind
both.  What is ahead of them is at every moment a rest of the line as it was given, so what
they put in is never looked at again, also where it would be rewritten if it were.  A pass
of this kind cannot fail, and what it makes is the concatenation of what it makes of each
token.
-/
import DeviceScript.Proofs.Pass.Run

namespace DeviceScript
namespace Pass

/-- The pass puts `replace t` in place of each token `t`, whatever stands around it. -/
structure TokenWise (p : Pass) (replace : Token → List Token) : Prop where
  keep : ∀ {t}, p.starts t = false → replace t = [t]
  step : ∀ {t}, p.starts t = true → ∀ before after,
    (p.step before t after).result = .ok { emit := replace t }

namespace TokenWise

variable {p : Pass} {replace : Token → List Token} {line behind ahead : List Token}

/-- Wherever the pass stands, a front of the line is replaced and the rest is untouched. -/
theorem exists_front (hp : p.TokenWise replace) (h : p.Reaches [] line behind ahead) :
    ∃ front, line = front ++ ahead ∧ behind.reverse = front.flatMap replace := by
  refine h.exists_front (fun front behind => behind.reverse = front.flatMap replace) rfl ?_ ?_
  · intro front behind t hb ht
    rw [List.reverse_cons, hb, List.flatMap_append, List.flatMap_singleton, hp.keep ht]
  · intro front behind t after s hb ht hs
    rw [hp.step ht] at hs
    obtain rfl := Except.ok.inj hs
    refine ⟨rfl, ?_⟩
    rw [Step.behind, List.reverse_append, List.reverse_reverse, List.drop_zero, hb,
      List.flatMap_append, List.flatMap_singleton]

theorem result_run (hp : p.TokenWise replace) (line : List Token) :
    (p.run line).result = .ok (line.flatMap replace) := by
  cases hr : (p.run line).result with
  | ok out =>
    obtain ⟨front, hline, hout⟩ := hp.exists_front (Reaches.start.of_eq_ok hr)
    rw [List.append_nil] at hline
    rw [← List.reverse_reverse out, hout, hline]
  | error e =>
    obtain ⟨last, t, rest, -, ht, hs⟩ := Reaches.start.exists_of_eq_error hr
    rw [hp.step ht] at hs
    cases hs

end TokenWise

/-! ## The function pass -/

/-- A text that names one of the functions gets a jump in front. -/
def tagged (functions : NameSet) : Token → List Token
  | .text s nested =>
    if s ∈ functions.names then [.jump .goto, .text s nested] else [.text s nested]
  | t => [t]

theorem function_tokenWise (functions : NameSet) :
    (function functions).TokenWise (tagged functions) where
  keep {t} ht := by
    cases t with
    | text => cases ht
    | _ => rfl
  step {t} ht before after := by
    rw [result_function_step]
    cases t with
    | text s nested => simp only [namesFunction, NameSet.contains, List.contains_iff_mem, tagged]
    | _ => cases ht

/-! ## The run-argument pass -/

/-- A text whose first nested token is the property `run` becomes that property and a text
of the pieces behind the first. -/
def splitRun (relex : Relexer) : Token → List Token
  | .text s (.property (.text .run) :: _) =>
    [.property (.text .run), .text (" ".intercalate ((relex s).drop 1)) []]
  | t => [t]

theorem runArgument_tokenWise (relex : Relexer) :
    (runArgument relex).TokenWise (splitRun relex) where
  keep {t} ht := by
    cases t with
    | text => cases ht
    | _ => rfl
  step {t} ht before after := by
    rw [result_runArgument_step]
    fun_cases runText? t with
    | case1 s nested => rfl
    | case2 _ hother =>
      rw [splitRun]
      exact hother

/-- Both passes succeed on every line and replace each token on its own.  Wherever they
stand, what is ahead is a rest of the line as it was given. -/
theorem textPasses_run_flatMap (functions : NameSet) (relex : Relexer) (line : List Token) :
    ((function functions).run line).result = .ok (line.flatMap (tagged functions)) ∧
    ((runArgument relex).run line).result = .ok (line.flatMap (splitRun relex)) ∧
    (∀ behind ahead, (function functions).Reaches [] line behind ahead →
      ∃ front, line = front ++ ahead ∧ behind.reverse = front.flatMap (tagged functions)) ∧
    ∀ behind ahead, (runArgument relex).Reaches [] line behind ahead →
      ∃ front, line = front ++ ahead ∧ behind.reverse = front.flatMap (splitRun relex) := by
  have hf := function_tokenWise functions
  have hr := runArgument_tokenWise relex
  exact ⟨hf.result_run line, hr.result_run line, fun _ _ => hf.exists_front,
    fun _ _ => hr.exists_front⟩

/-- What is put in may name a function again or start with `run`. -/
theorem textPasses_run_flatMap_triggers :
    let functions : NameSet := .ofList ["dock", "run dock"]
    let run : Token := .property (.text .run)
    let last : Token := .text "run run  dock" [run, .wait]
    let line : List Token := [.text "dock" [], .text "dock" [run], last]
    ((function functions).run line).result =
      .ok [.jump .goto, .text "dock" [], .jump .goto, .text "dock" [run], last] ∧
    ((runArgument Lexeme.words).run line).result =
      .ok [.text "dock" [], run, .text "" [], run, .text "run dock" []] ∧
    (function functions).Reaches [] line [.text "dock" [], .jump .goto] [.text "dock" [run], last] ∧
    ∃ front, line = front ++ [.text "dock" [run], last] ∧
      [.jump .goto, .text "dock" []] = front.flatMap (tagged functions) := by
  intro functions run last line
  obtain ⟨hf, hr, hfront, -⟩ := textPasses_run_flatMap functions Lexeme.words line
  have hreach : (function functions).Reaches [] line [.text "dock" [], .jump .goto]
      [.text "dock" [run], last] := Reaches.start.step rfl (result_function_step functions)
  refine ⟨hf.trans ?_, hr.trans ?_, hreach, hfront _ _ hreach⟩
  · with_unfolding_all rfl
  · with_unfolding_all rfl

end Pass
end DeviceScript
