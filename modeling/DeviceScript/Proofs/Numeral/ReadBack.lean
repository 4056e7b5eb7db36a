/-
Numbers read back from their text.

The shortest digits of a number are found by trying decimals out, and one that is taken reads
back.  If none was, the exact expansion stands in, which reads back too as long as the powers of
two of the format stay within the powers of ten that reading looks at.  What remains is the
layout: positional notation is read as the same digits and exponent, or with the zeros of a
whole number counted among its digits, and reading depends on the value of a decimal only.
-/
import Mathlib.Data.List.TakeWhile
import DeviceScript.Numeral.Shortest
import DeviceScript.Proofs.Numeral.Digits
import DeviceScript.Text.Blank

namespace DeviceScript
namespace Numeral

/-! ## Reading positional notation -/

namespace Literal

theorem unsigned?_whole {ds : List Char} (hne : ds ≠ []) (hd : ∀ c ∈ ds, c.isDigit = true)
    (negative : Bool) :
    unsigned? negative ds = some (.decimal negative (Nat.ofDigitChars 10 ds 0) 0) := by
  rw [unsigned?, List.takeWhile_eq_self_iff.mpr hd, List.dropWhile_eq_nil_iff.mpr hd]
  simp [fraction, exponent?, hne]

theorem unsigned?_point {ds part : List Char} (hne : ds ≠ []) (hd : ∀ c ∈ ds, c.isDigit = true)
    (hp : ∀ c ∈ part, c.isDigit = true) (negative : Bool) :
    unsigned? negative (ds ++ '.' :: part) =
      some (.decimal negative (Nat.ofDigitChars 10 (ds ++ part) 0) (0 - part.length)) := by
  have htake : (ds ++ '.' :: part).takeWhile Char.isDigit = ds := by
    rw [List.takeWhile_append_of_pos hd]
    exact List.append_nil ds
  have hdrop : (ds ++ '.' :: part).dropWhile Char.isDigit = '.' :: part := by
    rw [List.dropWhile_append_of_pos hd]
    rfl
  have hfraction : fraction ('.' :: part) = (part, []) := by
    rw [fraction, List.takeWhile_eq_self_iff.mpr hp, List.dropWhile_eq_nil_iff.mpr hp]
  rw [unsigned?, htake, hdrop, hfraction]
  simp [exponent?, hne]

theorem toLower_of_isDigit {c : Char} (h : c.isDigit = true) : c.toLower = c := by
  simp only [Char.isDigit, Bool.and_eq_true, decide_eq_true_eq] at h
  have hle := h.2
  refine dif_neg fun hupper => ?_
  grind

theorem sign_mark (negative : Bool) {c : Char} (hc : c.isDigit = true) (s : List Char) :
    sign (Binary.chars.mark negative ++ c :: s) = (negative, c :: s) := by
  cases negative with
  | true => rfl
  | false =>
    show sign (c :: s) = _
    unfold sign
    split
    · rename_i h
      cases h
      cases hc
    · rename_i h
      cases h
      cases hc
    · rfl

/-- A text that starts with digits is read by them, behind a minus sign or not. -/
theorem read?_mark (negative : Bool) {ds : List Char} (hne : ds ≠ [])
    (hd : ∀ c ∈ ds, c.isDigit = true) (rest : List Char) :
    read? (Binary.chars.mark negative ++ (ds ++ rest)) = unsigned? negative (ds ++ rest) := by
  cases ds with
  | nil => exact absurd rfl hne
  | cons c ds =>
    have hc := hd c List.mem_cons_self
    -- A digit is no letter, so the text spells none of the words.
    have hword : ∀ (d : Char) (word : List Char), d.isDigit = false →
        (c :: (ds ++ rest)).map Char.toLower ≠ d :: word := by
      intro d word hletter h
      have hlower : c.toLower = d := (List.cons.inj h).1
      rw [toLower_of_isDigit hc] at hlower
      rw [← hlower, hc] at hletter
      cases hletter
    rw [List.cons_append, read?, sign_mark negative hc]
    dsimp only
    rw [if_neg (hword 'n' _ rfl), if_neg (not_or.mpr ⟨hword 'i' _ rfl, hword 'i' _ rfl⟩)]

/-- The decimal that positional notation is read as. -/
def ofPositional (negative : Bool) (digits : Nat) : Int → Literal
  | .ofNat k => .decimal negative (digits * 10 ^ k) 0
  | .negSucc k => .decimal negative digits (.negSucc k)

theorem read?_positional (negative : Bool) (digits : Nat) (exponent : Int) :
    read? (Binary.chars.mark negative ++ positional digits exponent) =
      some (ofPositional negative digits exponent) := by
  cases exponent with
  | ofNat k =>
    have hd := isDigit_append (isDigit_toDigits digits) (isDigit_replicate k)
    have hne : Nat.toDigits 10 digits ++ List.replicate k '0' ≠ [] :=
      List.append_ne_nil_of_left_ne_nil Nat.toDigits_ne_nil _
    rw [positional, read?_mark _ Nat.toDigits_ne_nil (isDigit_toDigits digits),
      unsigned?_whole hne hd, Nat.ofDigitChars_append, Nat.ofDigitChars_ten_toDigits,
      Nat.ofDigitChars_replicate_zero, Nat.mul_comm]
    rfl
  | negSucc k =>
    have hlt : digits % 10 ^ (k + 1) < 10 ^ (k + 1) := Nat.mod_lt _ (Nat.pow_pos (by decide))
    have hlength := length_padded (Nat.succ_pos k) hlt
    have hdigits : Nat.ofDigitChars 10 (Nat.toDigits 10 (digits / 10 ^ (k + 1)) ++
        padded (k + 1) (digits % 10 ^ (k + 1))) 0 = digits := by
      rw [Nat.ofDigitChars_append, Nat.ofDigitChars_ten_toDigits,
        ofDigitChars_padded (Nat.succ_pos k) hlt, Nat.div_add_mod]
    show read? (Binary.chars.mark negative ++ (Nat.toDigits 10 (digits / 10 ^ (k + 1)) ++
      '.' :: padded (k + 1) (digits % 10 ^ (k + 1)))) = _
    rw [read?_mark _ Nat.toDigits_ne_nil (isDigit_toDigits _),
      unsigned?_point Nat.toDigits_ne_nil (isDigit_toDigits _) (isDigit_padded _ _),
      hdigits, hlength, ofPositional, Int.negSucc_eq]
    simp

end Literal

/-! ## The value of a decimal -/

namespace Binary

variable {f : Format}

/-- Reading looks at the value of a decimal, not at how many of its zeros are written out. -/
theorem ofDecimal_mul_pow (negative : Bool) (digits k : Nat) :
    ofDecimal f negative (digits * 10 ^ k) 0 = ofDecimal f negative digits k := by
  by_cases hz : digits = 0
  · rw [hz, Nat.zero_mul, ofDecimal, ofDecimal, if_pos rfl, if_pos rfl]
  have hpos : 0 < digits := Nat.pos_of_ne_zero hz
  have hz' : digits * 10 ^ k ≠ 0 := Nat.mul_ne_zero hz (Nat.ne_of_gt (Nat.pow_pos (by decide)))
  have hplace : ((Nat.toDigits 10 (digits * 10 ^ k)).length : Int) + 0 =
      (Nat.toDigits 10 digits).length + (k : Int) := by
    rw [toDigits_mul_pow hpos, List.length_append, List.length_replicate]
    omega
  have hratio : decimalRatio f (digits * 10 ^ k) 0 = decimalRatio f digits k := by
    show (digits * 10 ^ k * 10 ^ 0 * f.unit, 1) = (digits * 10 ^ k * f.unit, 1)
    rw [Nat.pow_zero, Nat.mul_one]
  rw [ofDecimal, ofDecimal, if_neg hz, if_neg hz', hplace, hratio]

theorem read?_positional (negative : Bool) (digits : Nat) (exponent : Int) :
    read? f (chars.mark negative ++ positional digits exponent) =
      some (ofDecimal f negative digits exponent) := by
  rw [read?, Literal.read?_positional]
  cases exponent with
  | ofNat k => exact congrArg some (ofDecimal_mul_pow negative digits k)
  | negSucc k => rfl

/-! ## Reading back -/

theorem ofRatio_eq_finite_iff {negative s : Bool} {num den m : Nat} {h : f.Fits m} :
    ofRatio f negative num den = .finite s m h ↔ negative = s ∧ f.nearest num den = m := by
  unfold ofRatio
  constructor
  · intro hr
    split at hr
    · cases hr
      exact ⟨rfl, rfl⟩
    · cases hr
  · intro hr
    obtain ⟨rfl, rfl⟩ := hr
    rw [dif_pos h.2]

theorem ofRatio_of_sign {s : Bool} {num den m : Nat} {h : f.Fits m}
    (hr : ofRatio f s num den = .finite s m h) (negative : Bool) :
    ofRatio f negative num den = .finite negative m h :=
  ofRatio_eq_finite_iff.mpr ⟨rfl, (ofRatio_eq_finite_iff.mp hr).2⟩

/-- The sign of a decimal is that of the number it is read as, and changes nothing else. -/
theorem ofDecimal_of_sign {s : Bool} {digits m : Nat} {exponent : Int} {h : f.Fits m}
    (hd : ofDecimal f s digits exponent = .finite s m h) (negative : Bool) :
    ofDecimal f negative digits exponent = .finite negative m h := by
  unfold ofDecimal at hd ⊢
  dsimp only at hd ⊢
  -- No test looks at the sign, so both readings take the same branch.
  split at hd
  · rename_i hzero
    rw [if_pos hzero]
    exact ofRatio_of_sign hd negative
  · rename_i hzero
    rw [if_neg hzero]
    split at hd
    · cases hd
    · rename_i hreach
      rw [if_neg hreach]
      split at hd
      · rename_i hsmall
        rw [if_pos hsmall]
        exact ofRatio_of_sign hd negative
      · rename_i hsmall
        rw [if_neg hsmall]
        exact ofRatio_of_sign hd negative

theorem ofDecimal_of_readsBack {n digits : Nat} {exponent : Int} (hn : f.Fits n)
    (h : f.readsBack n digits exponent = true) (negative : Bool) :
    ofDecimal f negative digits exponent = .finite negative n hn := by
  unfold Format.readsBack at h
  split at h
  · rename_i m hm hd
    obtain rfl : m = n := beq_iff_eq.mp h
    exact ofDecimal_of_sign hd negative
  · cases h

end Binary

namespace Format

variable {f : Format}

/-- The powers of two down to the quantum of the format lie within the powers of ten that
reading looks at. -/
structure Spacious (f : Format) : Prop where
  exponentBits_pos : 0 < f.exponentBits
  scale_le : f.scale ≤ 2 ^ f.exponentBits

theorem double_spacious : double.Spacious := ⟨by decide, by decide⟩

/-- The exact expansion of `n` quanta, as a ratio. -/
theorem decimalRatio_exact (f : Format) (n : Nat) :
    decimalRatio f (n * 5 ^ f.scale) (-(f.scale : Int)) = (n * 10 ^ f.scale, 10 ^ f.scale) := by
  have hten : 5 ^ f.scale * f.unit = 10 ^ f.scale := by
    rw [unit, ← Nat.mul_pow]
  cases hk : f.scale with
  | zero =>
    show (n * 5 ^ 0 * 10 ^ 0 * f.unit, 1) = _
    rw [unit, hk]
    simp
  | succ k =>
    show (n * 5 ^ (k + 1) * f.unit, 10 ^ (k + 1)) = _
    rw [Nat.mul_assoc, ← hk, hten]

theorem bound_mul_le (hf : f.Spacious) :
    f.bound * 5 ^ f.scale ≤ 10 ^ (f.scale + 2 ^ f.exponentBits) := by
  have hp := f.precision_pos
  have hhalf : 2 ^ f.exponentBits = 2 * 2 ^ (f.exponentBits - 1) := by
    rw [← Nat.pow_succ', Nat.succ_eq_add_one, Nat.sub_add_cancel hf.exponentBits_pos]
  have hone := Nat.two_pow_pos (f.exponentBits - 1)
  have hexponent : f.precision + (2 ^ f.exponentBits - 3) ≤ f.scale + 2 ^ f.exponentBits := by
    unfold scale
    omega
  calc f.bound * 5 ^ f.scale
      ≤ 2 ^ (f.scale + 2 ^ f.exponentBits) * 5 ^ f.scale :=
        Nat.mul_le_mul_right _ (Nat.pow_le_pow_right (by decide) hexponent)
    _ ≤ 2 ^ (f.scale + 2 ^ f.exponentBits) * 5 ^ (f.scale + 2 ^ f.exponentBits) :=
        Nat.mul_le_mul_left _ (Nat.pow_le_pow_right (by decide) (Nat.le_add_right _ _))
    _ = 10 ^ (f.scale + 2 ^ f.exponentBits) := (Nat.mul_pow 2 5 _).symm

/-- The exact expansion reads back. -/
theorem readsBack_exact (hf : f.Spacious) {n : Nat} (hn : f.Fits n) (hpos : 0 < n) :
    f.readsBack n (n * 5 ^ f.scale) (-(f.scale : Int)) = true := by
  have hdigits : n * 5 ^ f.scale ≠ 0 :=
    Nat.mul_ne_zero (Nat.ne_of_gt hpos) (Nat.ne_of_gt (Nat.pow_pos (by decide)))
  have hlength : (Nat.toDigits 10 (n * 5 ^ f.scale)).length ≤ f.scale + 2 ^ f.exponentBits := by
    refine (Nat.length_toDigits_le_iff (by decide) ?_).mpr ?_
    · exact Nat.lt_of_lt_of_le (Nat.two_pow_pos _) (Nat.le_add_left _ _)
    · refine Nat.lt_of_lt_of_le ?_ (bound_mul_le hf)
      exact Nat.mul_lt_mul_of_pos_right hn.2 (Nat.pow_pos (by decide))
  have hscale := hf.scale_le
  have hreach : (2 : Int) ^ f.exponentBits = (2 ^ f.exponentBits : Nat) :=
    (Int.natCast_pow 2 f.exponentBits).symm
  have hread : Binary.ofDecimal f false (n * 5 ^ f.scale) (-(f.scale : Int)) =
      .finite false n hn := by
    unfold Binary.ofDecimal
    dsimp only
    -- The leading place lies between `-f.scale` and the bound on the length, within reach.
    rw [hreach, if_neg hdigits, if_neg (by omega), if_neg (by omega), decimalRatio_exact]
    exact Binary.ofRatio_of_fits hn false (Nat.pow_pos (by decide))
  rw [readsBack, hread]
  exact beq_self_eq_true n

/-- The shortest digits were tried out, or are those of the exact expansion. -/
theorem shortest_cases (f : Format) (tie : Tie) (n : Nat) :
    f.readsBack n (f.shortest tie n).1 (f.shortest tie n).2 = true ∨
      f.shortest tie n = (n * 5 ^ f.scale, -(f.scale : Int)) := by
  rw [shortest]
  cases hfound : List.findSome? (f.onGrid? tie n)
      ((List.range 18).map fun (i : Nat) => f.leadingPlace n - i) with
  | none => exact .inr rfl
  | some found =>
    obtain ⟨exponent, -, hgrid⟩ := List.exists_of_findSome?_eq_some hfound
    rw [onGrid?, Option.map_eq_some_iff] at hgrid
    obtain ⟨digits, hdigits, rfl⟩ := hgrid
    have hback := List.find?_some hdigits
    exact .inl hback

theorem readsBack_shortest (hf : f.Spacious) (tie : Tie) {n : Nat} (hn : f.Fits n)
    (hpos : 0 < n) : f.readsBack n (f.shortest tie n).1 (f.shortest tie n).2 = true := by
  rcases f.shortest_cases tie n with h | h
  · exact h
  · rw [h]
    exact readsBack_exact hf hn hpos

theorem readsBack_zero {n : Nat} {exponent : Int}
    (h : f.readsBack n 0 exponent = true) : n = 0 := by
  have hnearest : f.nearest 0 1 = 0 := by simp [nearest, nearestEven]
  have hzero : Binary.ofDecimal f false 0 exponent = Binary.zero f false := by
    rw [Binary.ofDecimal]
    exact if_pos rfl
  rw [readsBack, hzero, Binary.zero, Binary.ofRatio] at h
  by_cases hlt : f.nearest 0 1 < f.bound
  · rw [dif_pos hlt] at h
    have hn : f.nearest 0 1 = n := beq_iff_eq.mp h
    rw [← hn, hnearest]
  · rw [dif_neg hlt] at h
    cases h

theorem shortest_pos {tie : Tie} {n : Nat} (hn : 0 < n) : 0 < (f.shortest tie n).1 := by
  rcases f.shortest_cases tie n with h | h
  · refine Nat.pos_of_ne_zero fun hz => ?_
    rw [hz] at h
    exact Nat.ne_of_gt hn (readsBack_zero h)
  · rw [h]
    exact Nat.mul_pos hn (Nat.pow_pos (by decide))

end Format

/-- Every number is read back from its text, not-a-number and the infinities as such, and a zero
with its sign. -/
theorem Binary.read?_chars {f : Format} (hf : f.Spacious) (x : Binary f) :
    Binary.read? f x.chars = some x := by
  cases x with
  | nan => rfl
  | infinite negative => cases negative <;> rfl
  | finite negative m hm =>
    rw [chars]
    by_cases hzero : m = 0
    · subst hzero
      rw [if_pos rfl]
      show read? f (chars.mark negative ++ positional 0 0) = _
      rw [read?_positional]
      exact congrArg some (ofRatio_of_fits hm negative Nat.one_pos)
    · rw [if_neg hzero]
      show read? f (chars.mark negative ++
        positional (f.shortest .up m).1 (f.shortest .up m).2) = _
      rw [read?_positional, ofDecimal_of_readsBack hm
        (Format.readsBack_shortest hf .up hm (Nat.pos_of_ne_zero hzero))]

/-! ## The characters of a number -/

theorem mem_positional {digits : Nat} {exponent : Int} {c : Char}
    (h : c ∈ positional digits exponent) : c.isDigit = true ∨ c = '.' := by
  cases exponent with
  | ofNat k =>
    exact .inl (isDigit_append (isDigit_toDigits digits) (isDigit_replicate k) c h)
  | negSucc k =>
    rcases List.mem_append.mp h with h | h
    · exact .inl (isDigit_toDigits _ c h)
    · rcases List.mem_cons.mp h with h | h
      · exact .inr h
      · exact .inl (isDigit_padded (k + 1) _ c h)

theorem Binary.mem_chars {f : Format} {x : Binary f} {c : Char} (h : c ∈ x.chars) :
    c.isDigit = true ∨ c ∈ ['-', '.', 'N', 'a', 'i', 'n', 'f'] := by
  have hmark : ∀ negative, c ∈ chars.mark negative → c = '-' := by
    intro negative hc
    cases negative with
    | true => exact List.mem_singleton.mp hc
    | false => exact absurd hc List.not_mem_nil
  cases x with
  | nan =>
    have hsub : ∀ d ∈ ['N', 'a', 'N'], d ∈ ['-', '.', 'N', 'a', 'i', 'n', 'f'] := by simp
    exact .inr (hsub c h)
  | infinite negative =>
    have hsub : ∀ d ∈ ['i', 'n', 'f'], d ∈ ['-', '.', 'N', 'a', 'i', 'n', 'f'] := by simp
    rcases List.mem_append.mp h with h | h
    · exact .inr (by simp [hmark negative h])
    · exact .inr (hsub c h)
  | finite negative m hm =>
    rw [chars] at h
    split at h
    · rcases List.mem_append.mp h with h | h
      · exact .inr (by simp [hmark negative h])
      · exact .inl (by rw [List.mem_singleton.mp h]; rfl)
    · rcases List.mem_append.mp h with h | h
      · exact .inr (by simp [hmark negative h])
      · rcases mem_positional h with h | h
        · exact .inl h
        · exact .inr (by simp [h])

/-- No blank and no colon stands in the text of a number. -/
theorem Binary.isBlank_of_mem_chars {f : Format} {x : Binary f} {c : Char} (h : c ∈ x.chars) :
    Text.isBlank c = false ∧ c ≠ ':' := by
  have hother : ∀ d ∈ ['-', '.', 'N', 'a', 'i', 'n', 'f'], Text.isBlank d = false ∧ d ≠ ':' := by
    simp [Text.isBlank]
  rcases mem_chars h with h | h
  · simp only [Char.isDigit, Bool.and_eq_true, decide_eq_true_eq] at h
    have hlow : 48 ≤ c.toNat := h.1
    have hhigh : c.toNat ≤ 57 := h.2
    constructor
    · simp only [Text.isBlank, Bool.or_eq_false_iff, Bool.and_eq_false_iff, beq_eq_false_iff_ne,
        decide_eq_false_iff_not]
      omega
    · intro hc
      subst hc
      exact absurd hhigh (by decide)
  · exact hother c h

end Numeral
end DeviceScript
