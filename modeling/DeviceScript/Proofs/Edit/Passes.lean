/-
The passes in place, but for the one on conditions.

Each of them does what its pass does: it finds the tokens that the pass is shown at the
index, and puts what the pass hands out in their place.
-/
import DeviceScript.Edit.Passes
import DeviceScript.Proofs.Edit.Refinement
import DeviceScript.Proofs.Pass.Progress

namespace DeviceScript
namespace Editor

open Edit

variable {turns : Nat}

theorem selector_implements : selector.Implements .selector turns where
  starts := rfl
  convertNext before t after _ := by
    have hi : before.reverse.length = before.length := List.length_reverse
    refine (does_length _).refines ?_
    refine (does_slice_end hi).refines ?_
    refine refines_ofLogged.bind ?_
    rintro ⟨count, found⟩ hf
    cases found with
    | none =>
      refine refines_pure ?_
      simp [Step.behind, Step.ahead]
    | some s =>
      obtain ⟨front, back, rfl, rfl⟩ := exists_front_of_foldSelector hf
      refine (refines_emit _).bind fun _ _ => ?_
      refine (does_splice_append (t :: front) hi rfl _).refines ?_
      refine refines_pure ?_
      simp [Step.behind, Step.ahead]

theorem function_implements (functions : NameSet) :
    (function functions).Implements (.function functions) turns where
  starts := rfl
  convertNext before t after _ := by
    have hi : before.reverse.length = before.length := List.length_reverse
    refine (does_token (getElem?_append_at hi)).refines ?_
    show (if _ then _ else _ : Edit Nat).Refines _ (if _ then _ else _) _
    by_cases hn : Pass.namesFunction functions t = true
    · rw [if_pos hn, if_pos hn]
      refine (refines_emit _).bind fun _ _ => ?_
      refine (does_insert_append hi).refines ?_
      refine refines_pure ?_
      simp [Step.behind, Step.ahead]
    · rw [if_neg hn, if_neg hn]
      refine refines_pure ?_
      simp [Step.behind, Step.ahead]

theorem runArgument_implements (relex : Relexer) :
    (runArgument relex).Implements (.runArgument relex) turns where
  starts := rfl
  convertNext before t after _ := by
    have hi : before.reverse.length = before.length := List.length_reverse
    refine (does_token (getElem?_append_at hi)).refines ?_
    simp only [Pass.runArgument]
    cases hs : Pass.runText? t with
    | none =>
      refine refines_pure ?_
      simp [Step.behind, Step.ahead]
    | some s =>
      refine (refines_emit _).bind fun _ _ => ?_
      refine (refines_emit _).bind fun _ _ => ?_
      refine (does_splice_append [t] hi rfl _).refines ?_
      refine refines_pure ?_
      simp [Step.behind, Step.ahead]

theorem loop_implements : loop.Implements .loop turns where
  starts := rfl
  convertNext before t after _ := by
    cases before with
    | nil => exact refines_fail
    | cons u before =>
      have hi : before.reverse.length = before.length := List.length_reverse
      have hj : (before.reverse ++ [u]).length = before.length + 1 := length_snoc hi
      have hu : (before.reverse ++ [u] ++ t :: after)[before.length]? = some u := by
        rw [List.append_assoc]
        exact getElem?_append_at hi
      have hbefore := (does_token hu).bind (f := fun u => pure (some u)) fun _ => rfl
      rw [List.reverse_cons]
      refine hbefore.refines ?_
      cases u with
      | number value =>
        refine (does_token (getElem?_append_at hj)).refines ?_
        refine (does_splice_append [t] hj rfl _).refines ?_
        refine (refines_emit _).bind fun _ _ => ?_
        rw [List.append_assoc]
        refine (does_remove_append hi).refines ?_
        refine refines_pure ?_
        simp [Step.behind, Step.ahead]
      | _ => exact refines_fail

theorem command_implements : command.Implements .command turns where
  starts := rfl
  convertNext before t after _ := by
    have hi : before.reverse.length = before.length := List.length_reverse
    refine (does_length _).refines ?_
    refine (does_slice_end hi).refines ?_
    have hsplit := List.takeWhile_append_dropWhile (p := Token.isActionable) (l := t :: after)
    simp only [Pass.command]
    generalize (t :: after).takeWhile Token.isActionable = run at hsplit ⊢
    generalize (t :: after).dropWhile Token.isActionable = back at hsplit
    rw [← hsplit]
    refine (does_slice_append _ hi rfl).refines ?_
    cases run with
    | nil => exact refines_fail
    | cons u front =>
      obtain ⟨rfl, rfl⟩ := List.cons.inj hsplit
      cases hk : Pass.commandKind? (u :: front) with
      | none => exact refines_fail
      | some k =>
        refine (does_splice_append _ hi rfl _).refines ?_
        refine (refines_emit _).bind fun _ _ => ?_
        refine (does_insert_append hi).refines ?_
        refine refines_pure ?_
        simp [Step.behind, Step.ahead]

end Editor
end DeviceScript
