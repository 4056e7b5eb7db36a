/-
What is taken away from a text.

Texts are searched from the left, so the piece that goes is the leftmost one also where
occurrences overlap, and a text in front of another is what goes from the two together.  A
number says how many characters are kept.  It is cut to its whole part before it is compared
with the length, so what is kept is always shorter than the text.
-/
import DeviceScript.Primitive.Operator
import DeviceScript.Proofs.Numeral.Value

namespace DeviceScript

namespace Text

/-- What is left of a text when the leftmost occurrence of a piece is taken out of it. -/
inductive Without (piece s : List Char) : List Char → Prop where
  | leftmost {front back : List Char} : s = front ++ piece ++ back →
      (∀ other rest, s = other ++ piece ++ rest → front.length ≤ other.length) →
      Without piece s (front ++ back)
  | absent : (∀ front back, s ≠ front ++ piece ++ back) → Without piece s s

theorem Without.eq {piece s u v : List Char} (hu : Without piece s u) (hv : Without piece s v) :
    u = v := by
  cases hu with
  | @leftmost front back hs hleft =>
    cases hv with
    | @leftmost other rest hs' hleft' =>
      have hlen : front.length = other.length :=
        Nat.le_antisymm (hleft other rest hs') (hleft' front back hs)
      rw [hs, List.append_assoc, List.append_assoc] at hs'
      obtain ⟨rfl, htail⟩ := List.append_inj hs' hlen
      rw [List.append_cancel_left htail]
    | absent hnone => exact absurd hs (hnone front back)
  | absent hnone =>
    cases hv with
    | leftmost hs => exact absurd hs (hnone _ _)
    | absent => rfl

/-- Where a piece is no prefix, its occurrences are those behind the first character. -/
theorem occurrence_cons {piece s front back : List Char} {c : Char} (hp : ¬ piece <+: c :: s)
    (h : c :: s = front ++ piece ++ back) :
    ∃ rest, front = c :: rest ∧ s = rest ++ piece ++ back := by
  cases front with
  | nil => exact absurd ⟨back, h.symm⟩ hp
  | cons d front =>
    obtain ⟨rfl, hs⟩ := List.cons.inj h
    exact ⟨front, rfl, hs⟩

theorem without_eraseFirst (piece s : List Char) : Without piece s (eraseFirst piece s) := by
  induction s with
  | nil =>
    rw [eraseFirst]
    cases piece with
    | nil => exact @Without.leftmost [] [] [] [] rfl fun _ _ _ => Nat.zero_le _
    | cons d piece => exact .absent fun front back h => by simp at h
  | cons c s ih =>
    rw [eraseFirst]
    by_cases hp : piece <+: c :: s
    · obtain ⟨back, hback⟩ := hp
      rw [if_pos (List.isPrefixOf_iff_prefix.mpr ⟨back, hback⟩), ← hback, List.drop_left]
      exact @Without.leftmost piece (piece ++ back) [] back rfl fun _ _ _ => Nat.zero_le _
    · rw [if_neg (mt List.isPrefixOf_iff_prefix.mp hp)]
      generalize eraseFirst piece s = u at ih ⊢
      cases ih with
      | @leftmost front back hs hleft =>
        refine @Without.leftmost piece (c :: s) (c :: front) back (congrArg (c :: ·) hs) ?_
        intro other rest hother
        obtain ⟨other, rfl, hrest⟩ := occurrence_cons hp hother
        exact Nat.succ_le_succ (hleft other rest hrest)
      | absent hnone =>
        refine .absent fun front back h => ?_
        obtain ⟨rest, -, hrest⟩ := occurrence_cons hp h
        exact hnone rest back hrest

theorem without_iff {piece s u : List Char} : Without piece s u ↔ u = eraseFirst piece s := by
  constructor
  · intro h
    exact h.eq (without_eraseFirst piece s)
  · intro h
    rw [h]
    exact without_eraseFirst piece s

end Text

namespace Primitive

theorem not_isNegative (m : Nat) (h : Numeral.Format.single.Fits m) :
    (Numeral.Binary.finite false m h).isNegative = false := by
  obtain ⟨h0, hzero⟩ := Numeral.Binary.zero_eq_finite (f := .single) false
  have hnot : compare (m : Int) 0 ≠ .lt := by
    rw [Ne, Int.compare_eq_lt]
    omega
  rw [Numeral.Binary.isNegative, hzero, beq_eq_false_iff_ne]
  exact fun hlt => hnot (Option.some.inj hlt)

/-- The test for the sign and the cut together ask for a whole part that is shorter than the
text. -/
theorem keptLength_eq (n : Single) (length : Nat) :
    keptLength n length =
      match n.floor? with
      | some k => if k < length then k else 0
      | none => 0 := by
  have hlargest : length ≤ largestSize length := Nat.le_max_right _ _
  rw [keptLength]
  cases n with
  | nan => exact ite_self 0
  | infinite s =>
    cases s with
    | true => exact ite_self 0
    | false =>
      refine if_pos ?_
      rw [Bool.or_eq_true, decide_eq_true_eq]
      exact .inr hlargest
  | finite s m h =>
    cases s with
    | true =>
      -- Below zero the cut leaves nothing, and zero has nothing to leave.
      refine (ite_self 0).trans ?_
      cases m with
      | zero => exact (ite_self 0).symm
      | succ m => rfl
    | false =>
      show (if _ then 0 else min (m / _) (largestSize length)) =
        if m / Numeral.Format.single.unit < length then m / Numeral.Format.single.unit else 0
      rw [not_isNegative, Bool.false_or]
      by_cases hlt : m / Numeral.Format.single.unit < length
      · have hcut : Numeral.Binary.toSize (largestSize length) (.finite false m h) =
            m / Numeral.Format.single.unit := Nat.min_eq_left (by omega)
        rw [hcut, if_pos hlt, if_neg (by rw [decide_eq_true_eq]; omega)]
        exact Nat.min_eq_left (by omega)
      · have hcut : length ≤ Numeral.Binary.toSize (largestSize length) (.finite false m h) :=
          Nat.le_min.mpr ⟨by omega, hlargest⟩
        rw [if_neg hlt, if_pos (decide_eq_true hcut)]

theorem keptLength_of_floor {n : Single} {q : ℚ} {length : Nat} (hn : n.value? = some q)
    (hq : 0 ≤ q) (hlt : ⌊q⌋ < length) : (keptLength n length : ℤ) = ⌊q⌋ := by
  have hfloor : n.floor? = some ⌊q⌋.toNat := by
    refine Numeral.Binary.floor?_eq_some_iff.mpr ⟨q, hn, hq, ?_⟩
    exact (Int.toNat_of_nonneg (Int.floor_nonneg.mpr hq)).symm
  have hpos := Int.floor_nonneg.mpr hq
  rw [keptLength_eq, hfloor]
  dsimp only
  rw [if_pos (by omega)]
  omega

theorem keptLength_eq_zero {n : Single} {length : Nat}
    (h : ∀ q, n.value? = some q → 0 ≤ q → (length : ℤ) ≤ ⌊q⌋) : keptLength n length = 0 := by
  rw [keptLength_eq]
  cases hf : n.floor? with
  | none => rfl
  | some k =>
    obtain ⟨q, hq, hpos, hk⟩ := Numeral.Binary.floor?_eq_some_iff.mp hf
    have hle := h q hq hpos
    exact if_neg (by omega)

theorem keptLength_lt (n : Single) {length : Nat} (h : 0 < length) :
    keptLength n length < length := by
  rw [keptLength_eq]
  cases n.floor? with
  | none => exact h
  | some k =>
    dsimp only
    split <;> omega

theorem plus_minus_text (s t : String) :
    ((text s).plus (text t)).bind (fun sum => sum.minus (text s)) = .ok (text t) := by
  show Except.ok (text (String.ofList (Text.eraseFirst s.toList (s ++ t).toList))) = _
  rw [String.toList_append, Text.eraseFirst_append, String.ofList_toList]

/-- A text loses the leftmost occurrence of another, which is all of its front where it was put
in front.  A number leaves as many characters at the start as its whole part says, and none
unless these are fewer than there are. -/
theorem minus_from_text (s : String) :
    (∀ t : String, ∃ u : String, (text s).minus (text t) = .ok (text u) ∧
      ∀ w, Text.Without t.toList s.toList w ↔ w = u.toList) ∧
    (text s).minus (text "") = .ok (text s) ∧
    (∀ t : String, ((text s).plus (text t)).bind (fun sum => sum.minus (text s)) =
      .ok (text t)) ∧
    ∀ n : Single, ∃ u : String, (text s).minus (number n) = .ok (text u) ∧
      u.toList <+: s.toList ∧
      (∀ q, n.value? = some q → 0 ≤ q → ⌊q⌋ < s.length → (u.length : ℤ) = ⌊q⌋) ∧
      ((∀ q, n.value? = some q → 0 ≤ q → (s.length : ℤ) ≤ ⌊q⌋) → u.length = 0) ∧
      (s ≠ "" → u.length < s.length) := by
  refine ⟨?_, ?_, plus_minus_text s, ?_⟩
  · intro t
    refine ⟨_, rfl, fun w => ?_⟩
    rw [Text.without_iff, String.toList_ofList]
  · rw [minus, String.toList_empty, Text.eraseFirst_empty, String.ofList_toList]
  · intro n
    refine ⟨String.ofList (s.toList.take (keptLength n s.toList.length)), rfl, ?_⟩
    rw [String.toList_ofList, String.length_ofList, List.length_take, String.length_toList]
    refine ⟨List.take_prefix _ _, ?_, ?_, ?_⟩
    · intro q hn hq hlt
      have hkept := keptLength_of_floor hn hq hlt
      omega
    · intro h
      rw [keptLength_eq_zero h, Nat.zero_min]
    · intro hne
      have hpos : 0 < s.length := by
        rw [← String.length_toList]
        exact List.length_pos_iff.mpr fun hnil => hne (String.toList_eq_nil_iff.mp hnil)
      have hkept := keptLength_lt n hpos
      omega

/-- Of two occurrences that overlap the left one goes, two and a half characters are two, and six
of six are none. -/
theorem minus_from_text_overlapping :
    let half : Single := .ofDecimal .single false 25 (-1)
    let six : Single := .ofInt .single 6
    Text.Without "aba".toList "ababac".toList "bac".toList ∧
      (text "ababac").minus (text "aba") = .ok (text "bac") ∧
    half.value? = some (5 / 2) ∧
      (∃ u : String, (text "ababac").minus (number half) = .ok (text u) ∧ u.length = 2) ∧
    six.value? = some 6 ∧
      ∃ u : String, (text "ababac").minus (number six) = .ok (text u) ∧ u.length = 0 := by
  intro half six
  obtain ⟨hpiece, -, -, hnumber⟩ := minus_from_text "ababac"
  have hwithout : Text.Without "aba".toList "ababac".toList "bac".toList :=
    @Text.Without.leftmost _ _ [] ['b', 'a', 'c'] rfl fun _ _ _ => Nat.zero_le _
  have hhalf : half.value? = some (5 / 2) := by decide +kernel
  have hsix : six.value? = some 6 := by decide +kernel
  refine ⟨hwithout, ?_, hhalf, ?_, hsix, ?_⟩
  · obtain ⟨u, hu, hunique⟩ := hpiece "aba"
    rw [hu, ← String.toList_inj.mp ((hunique _).mp hwithout)]
  · obtain ⟨u, hu, -, hkept, -⟩ := hnumber half
    have hfloor : ⌊(5 / 2 : ℚ)⌋ = 2 := by decide +kernel
    have hlength := hkept _ hhalf (by norm_num) (by rw [hfloor]; decide)
    rw [hfloor] at hlength
    exact ⟨u, hu, by omega⟩
  · obtain ⟨u, hu, -, -, hnone, -⟩ := hnumber six
    refine ⟨u, hu, hnone fun q hq _ => ?_⟩
    rw [← Option.some.inj (hsix.symm.trans hq)]
    decide +kernel

end Primitive
end DeviceScript
