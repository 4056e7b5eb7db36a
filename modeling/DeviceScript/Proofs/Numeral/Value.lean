/-
The exact values of numbers.

A finite number stands for a rational, its signed quanta over the quanta of one.  The whole
part and the nearest integer of a number are computed on its magnitude; here they are what
their names say of the value.  Rounding to an integer could carry a number past the largest
one that an integer type holds, but a number that close to it has no digits left behind the
point, and is not moved.
-/
import Mathlib.Data.Rat.Floor
import Mathlib.Tactic.Linarith
import DeviceScript.Proofs.Numeral.Order

namespace DeviceScript
namespace Numeral

/-! ## Nearest integers -/

/-- The integer is nearest to the rational.  Halfway between two, it is the even one. -/
def IsNearest (q : ℚ) (k : ℤ) : Prop := |q - k| < 1 / 2 ∨ |q - k| = 1 / 2 ∧ Even k

namespace IsNearest

variable {p q : ℚ} {j k : ℤ}

theorem intCast (k : ℤ) : IsNearest k k := by
  refine .inl ?_
  rw [sub_self, abs_zero]
  exact one_half_pos

theorem abs_sub_le (h : IsNearest q k) : |q - k| ≤ 1 / 2 := by
  rcases h with h | ⟨h, -⟩
  · exact h.le
  · exact h.le

theorem even (h : IsNearest q k) (hq : |q - k| = 1 / 2) : Even k := by
  rcases h with h | ⟨-, h⟩
  · exact absurd hq h.ne
  · exact h

theorem neg (h : IsNearest q k) : IsNearest (-q) (-k) := by
  have habs : |-q - ((-k : ℤ) : ℚ)| = |q - k| := by
    rw [Int.cast_neg, ← abs_neg]
    congr 1
    ring
  rw [IsNearest, habs, even_neg]
  exact h

/-- Two integers that are nearest to one rational would be the two halves around it, and only
one of these is even. -/
theorem le (hj : IsNearest p j) (hk : IsNearest q k) (h : p ≤ q) : j ≤ k := by
  by_contra hlt
  have hstep : (k : ℚ) + 1 ≤ j := by
    have hle : k + 1 ≤ j := by omega
    exact_mod_cast hle
  have hp := abs_le.mp hj.abs_sub_le
  have hq := abs_le.mp hk.abs_sub_le
  have hpq : p = q := by linarith
  have hpj : p - j = -(1 / 2) := by linarith
  have hqk : q - k = 1 / 2 := by linarith
  have hjk : j = k + 1 := by
    have hcast : (j : ℚ) = k + 1 := by linarith
    exact_mod_cast hcast
  have hjeven : Even j := hj.even (by rw [hpj, abs_neg, abs_of_pos (by norm_num)])
  have hkeven : Even k := hk.even (by rw [hqk, abs_of_pos (by norm_num)])
  rw [hjk, Int.even_add_one] at hjeven
  exact hjeven hkeven

theorem eq (hj : IsNearest q j) (hk : IsNearest q k) : j = k :=
  le_antisymm (hj.le hk le_rfl) (hk.le hj le_rfl)

end IsNearest

theorem natCast_div_eq (num : Nat) {den : Nat} (hd : 0 < den) :
    (num : ℚ) / den = (num / den : Nat) + (num % den : Nat) / den := by
  have hden : (den : ℚ) ≠ 0 := by exact_mod_cast hd.ne'
  have hnum : (num : ℚ) = den * (num / den : Nat) + (num % den : Nat) := by
    exact_mod_cast (Nat.div_add_mod num den).symm
  rw [div_eq_iff hden, add_mul, div_mul_cancel₀ _ hden, mul_comm]
  exact hnum

theorem isNearest_nearestEven (num : Nat) {den : Nat} (hd : 0 < den) :
    IsNearest (num / den) (nearestEven num den : Nat) := by
  have hden : (0 : ℚ) < den := by exact_mod_cast hd
  have hpos : (0 : ℚ) ≤ (num % den : Nat) / den := by positivity
  have hlt : ((num % den : Nat) : ℚ) / den < 1 := by
    rw [div_lt_one hden]
    exact_mod_cast Nat.mod_lt num hd
  rw [IsNearest, natCast_div_eq num hd, Int.cast_natCast, Int.even_coe_nat, Nat.even_iff]
  unfold nearestEven
  dsimp only
  rcases Nat.lt_trichotomy (2 * (num % den)) den with h | h | h
  · have hhalf : ((num % den : Nat) : ℚ) / den < 1 / 2 := by
      rw [div_lt_div_iff₀ hden two_pos, mul_comm, one_mul]
      exact_mod_cast h
    rw [if_pos h]
    refine .inl (abs_lt.mpr ⟨?_, ?_⟩) <;> linarith
  · have hhalf : ((num % den : Nat) : ℚ) / den = 1 / 2 := by
      rw [div_eq_div_iff hden.ne' two_ne_zero, mul_comm, one_mul]
      exact_mod_cast h
    rw [if_neg (by omega), if_neg (by omega), hhalf]
    by_cases heven : num / den % 2 = 0
    · rw [if_pos heven, add_sub_cancel_left]
      exact .inr ⟨abs_of_pos one_half_pos, heven⟩
    · rw [if_neg heven, Nat.cast_add, add_sub_add_left_eq_sub]
      refine .inr ⟨?_, by omega⟩
      norm_num
  · have hhalf : 1 / 2 < ((num % den : Nat) : ℚ) / den := by
      rw [div_lt_div_iff₀ two_pos hden, one_mul, mul_comm]
      exact_mod_cast h
    rw [if_neg (by omega), if_pos h, Nat.cast_add, Nat.cast_one]
    refine .inl (abs_lt.mpr ⟨?_, ?_⟩) <;> linarith

/-- A number with all its digits in front of the point is whole. -/
theorem unit_dvd_of_le {f : Format} {m e : Nat} (hf : f.Fits m) (he : f.precision ≤ e + 1)
    (h : 2 ^ e ≤ m / f.unit) : f.unit ∣ m := by
  have hle : 2 ^ (e + f.scale) ≤ m := by
    rw [Nat.pow_add]
    exact (Nat.le_div_iff_mul_le (Nat.two_pow_pos f.scale)).mp h
  have hpos := Nat.two_pow_pos (e + f.scale)
  have hlog : e + f.scale ≤ m.log2 := (Nat.le_log2 (by omega)).mpr hle
  refine Nat.dvd_trans (Nat.pow_dvd_pow 2 ?_) hf.1
  unfold Format.excess
  omega

theorem nearestEven_lt_two_pow {f : Format} {m e : Nat} (hf : f.Fits m) (he : f.precision ≤ e)
    (hm : m < 2 ^ e * f.unit) : nearestEven m f.unit < 2 ^ e := by
  have hunit : 0 < f.unit := Nat.two_pow_pos _
  have hlt : m / f.unit < 2 ^ e := (Nat.div_lt_iff_lt_mul hunit).mpr hm
  by_cases hw : m / f.unit + 1 < 2 ^ e
  · exact Nat.lt_of_le_of_lt (nearestEven_le m f.unit) hw
  have hprecision := f.precision_pos
  have hpow : 2 ^ (e - 1) ≤ m / f.unit := by
    have hdouble : 2 ^ e = 2 * 2 ^ (e - 1) := by
      rw [← Nat.pow_succ']
      congr 1
      omega
    have := Nat.two_pow_pos (e - 1)
    omega
  obtain ⟨k, rfl⟩ := unit_dvd_of_le hf (by omega) hpow
  rw [Nat.mul_comm, nearestEven_mul hunit]
  rwa [Nat.mul_div_cancel_left k hunit] at hlt

/-- The format has whole numbers past all those that lie between others. -/
def Format.Roomy (f : Format) : Prop := f.scale < 2 ^ f.exponentBits - 3

instance (f : Format) : Decidable f.Roomy :=
  inferInstanceAs (Decidable (f.scale < 2 ^ f.exponentBits - 3))

/-- The nearest whole number is a number again. -/
theorem fits_nearestEven_mul {f : Format} (hf : f.Roomy) {m : Nat} (hm : f.Fits m) :
    f.Fits (nearestEven m f.unit * f.unit) := by
  have hunit : 0 < f.unit := Nat.two_pow_pos _
  by_cases hw : m / f.unit < 2 ^ f.precision
  · have hle : nearestEven m f.unit ≤ 2 ^ f.precision :=
      Nat.le_trans (nearestEven_le m f.unit) hw
    refine ⟨f.excess_dvd_mul hle, ?_⟩
    calc nearestEven m f.unit * f.unit
        ≤ 2 ^ f.precision * f.unit := Nat.mul_le_mul_right f.unit hle
      _ = 2 ^ (f.precision + f.scale) := (Nat.pow_add 2 f.precision f.scale).symm
      _ < f.bound := Nat.pow_lt_pow_right (by decide) (Nat.add_lt_add_left hf f.precision)
  · obtain ⟨k, rfl⟩ := unit_dvd_of_le hm (Nat.le_succ _) (Nat.le_of_not_lt hw)
    rw [Nat.mul_comm f.unit k] at hm ⊢
    rwa [nearestEven_mul hunit]

namespace Binary

variable {f : Format}

/-- The rational that a number stands for, if it is finite. -/
def value? : Binary f → Option ℚ
  | .finite negative magnitude _ => some (signed negative magnitude / f.unit)
  | _ => none

theorem unit_pos (f : Format) : (0 : ℚ) < f.unit := by
  exact_mod_cast Nat.two_pow_pos f.scale

/-! ## The whole part -/

/-- The whole part of a number that is not negative; nothing for an infinity, a negative number
or not-a-number. -/
def floor? : Binary f → Option Nat
  | .finite false m _ => some (m / f.unit)
  | .finite true 0 _ => some 0
  | _ => none

theorem floor?_finite {negative : Bool} {m : Nat} (h : f.Fits m) :
    floor? (.finite negative m h) =
      if 0 ≤ signed negative m then some (m / f.unit) else none := by
  cases negative with
  | false => rfl
  | true =>
    cases m with
    | zero => simp [floor?, signed]
    | succ m => rw [if_neg (by simp [signed]; omega)]; rfl

/-- The numbers that are not negative have a whole part, and it is the floor of their value. -/
theorem floor?_eq_some_iff {a : Binary f} {k : Nat} :
    a.floor? = some k ↔ ∃ q, a.value? = some q ∧ 0 ≤ q ∧ ⌊q⌋ = k := by
  cases a with
  | nan => simp [floor?, value?]
  | infinite s => simp [floor?, value?]
  | finite s m h =>
    have hunit := unit_pos f
    rw [floor?_finite]
    simp only [value?, Option.some.injEq, exists_eq_left', Rat.floor_intCast_div_natCast]
    rw [le_div_iff₀ hunit, zero_mul, Int.cast_nonneg_iff]
    by_cases hs : 0 ≤ signed s m
    · have habs : signed s m = m := by
        have := natAbs_signed s m
        omega
      rw [if_pos hs, habs]
      simp only [Option.some.injEq, Int.natCast_nonneg, true_and]
      exact_mod_cast Iff.rfl
    · rw [if_neg hs]
      simp [hs]

/-! ## Thirty-two bits -/

theorem toInt_ofIntClamp (i : Int) :
    (Int32.ofIntClamp i).toInt = max (-2147483648) (min 2147483647 i) := by
  have hmin : Int32.minValue.toInt = -2147483648 := Int32.toInt_minValue
  have hmax : Int32.maxValue.toInt = 2147483647 := Int32.toInt_maxValue
  by_cases hlow : Int32.minValue.toInt ≤ i
  · by_cases hhigh : i ≤ Int32.maxValue.toInt
    · rw [Int32.toInt_ofIntClamp hlow hhigh]
      omega
    · rw [Int32.ofIntClamp, dif_pos hlow, dif_neg hhigh]
      omega
  · rw [Int32.ofIntClamp, dif_neg hlow]
    omega

theorem isNearest_signed (f : Format) (negative : Bool) (m : Nat) :
    IsNearest (signed negative m / f.unit) (signed negative (nearestEven m f.unit)) := by
  have h := isNearest_nearestEven m (Nat.two_pow_pos f.scale)
  cases negative with
  | false => exact h
  | true =>
    have hneg := h.neg
    rwa [← neg_div] at hneg

/-- Rounding a finite number and cutting it is taking its nearest integer. -/
theorem toInt32_finite (hf : f.Roomy) (s : Bool) {m : Nat} (hm : f.Fits m) :
    toInt32 (.finite s m hm) = Int32.ofIntClamp (signed s (nearestEven m f.unit)) := by
  have hunit : 0 < f.unit := Nat.two_pow_pos f.scale
  have hfits := fits_nearestEven_mul hf hm
  have hround : roundEven (.finite s m hm) = .finite s _ hfits := by
    rw [roundEven, ← ofRatio_of_fits hfits s Nat.one_pos, Nat.mul_one]
  rw [toInt32, hround, truncate, Nat.mul_div_cancel _ hunit]

/-- The integer of a finite number is the nearest one to its value, held within the bounds. -/
theorem exists_isNearest (hf : f.Roomy) {a : Binary f} {q : ℚ} (h : a.value? = some q) :
    ∃ k, IsNearest q k ∧ a.toInt32.toInt = max (-2147483648) (min 2147483647 k) := by
  cases a with
  | nan => cases h
  | infinite s => cases h
  | finite s m hm =>
    rw [← Option.some.inj h, toInt32_finite hf]
    exact ⟨_, isNearest_signed f s m, toInt_ofIntClamp _⟩

theorem toInt32_of_le (hf : f.Roomy) {a : Binary f} {q : ℚ} (h : a.value? = some q)
    (hq : 2147483648 ≤ q) : a.toInt32 = Int32.maxValue := by
  obtain ⟨k, hk, hclamp⟩ := exists_isNearest hf h
  have hle : 2147483648 ≤ k := (IsNearest.intCast 2147483648).le hk (by exact_mod_cast hq)
  apply Int32.toInt_inj.mp
  rw [hclamp, Int32.toInt_maxValue]
  omega

theorem toInt32_of_ge (hf : f.Roomy) {a : Binary f} {q : ℚ} (h : a.value? = some q)
    (hq : q ≤ -2147483648) : a.toInt32 = Int32.minValue := by
  obtain ⟨k, hk, hclamp⟩ := exists_isNearest hf h
  have hle : k ≤ -2147483648 := hk.le (IsNearest.intCast (-2147483648)) (by exact_mod_cast hq)
  apply Int32.toInt_inj.mp
  rw [hclamp, Int32.toInt_minValue]
  omega

theorem isNearest_toInt32 (hf : f.Roomy) (hp : f.precision ≤ 31) {a : Binary f} {q : ℚ}
    (h : a.value? = some q) (hlow : -2147483648 < q) (hhigh : q < 2147483648) :
    IsNearest q a.toInt32.toInt := by
  cases a with
  | nan => cases h
  | infinite s => cases h
  | finite s m hm =>
    obtain rfl := Option.some.inj h
    have hunit := unit_pos f
    have hbound : m < 2 ^ 31 * f.unit := by
      have habs := natAbs_signed s m
      have hlt : signed s m < 2147483648 * f.unit := by
        exact_mod_cast (div_lt_iff₀ hunit).mp hhigh
      have hgt : -2147483648 * f.unit < signed s m := by
        exact_mod_cast (lt_div_iff₀ hunit).mp hlow
      omega
    have hlt := nearestEven_lt_two_pow hm hp hbound
    have habs := natAbs_signed s (nearestEven m f.unit)
    have hclamp : (toInt32 (.finite s m hm)).toInt = signed s (nearestEven m f.unit) := by
      rw [toInt32_finite hf, toInt_ofIntClamp]
      omega
    rw [hclamp]
    exact isNearest_signed f s m

/-! ## Order -/

theorem isLE_order_iff {a b : Binary f} : (a.order b).isLE = true ↔ a.rank ≤ b.rank := by
  rw [order_eq_compare_rank]
  exact Int.isLE_compare

/-- Numbers in order have their integers in order. -/
theorem toInt32_le_of_order (hf : f.Roomy) {a b : Binary f} (ha : a ≠ .nan)
    (h : (a.order b).isLE = true) : a.toInt32 ≤ b.toInt32 := by
  rw [isLE_order_iff] at h
  have hrank := natAbs_rank_le ha
  cases b with
  | nan =>
    rw [rank_nan] at h
    omega
  | infinite t =>
    cases t with
    | false => exact Int32.le_maxValue _
    | true =>
      have hinfinite : rank (.infinite true : Binary f) = -(f.bound : Int) := rfl
      have hpos := bound_pos f
      rw [eq_of_rank_eq (show a.rank = rank (.infinite true) by omega) (by omega)]
      exact Int32.le_refl _
  | finite t n hn =>
    cases a with
    | nan => exact absurd rfl ha
    | infinite s =>
      cases s with
      | true => exact Int32.minValue_le _
      | false =>
        have hinfinite : rank (.infinite false : Binary f) = f.bound := rfl
        have habs : (rank (.finite t n hn)).natAbs = n := natAbs_signed t n
        have hlt := hn.2
        omega
    | finite s m hm =>
      have hvalue : (signed s m : ℚ) / f.unit ≤ signed t n / f.unit := by
        rw [div_le_div_iff_of_pos_right (unit_pos f)]
        exact_mod_cast h
      have hnearest := (isNearest_signed f s m).le (isNearest_signed f t n) hvalue
      rw [Int32.le_iff_toInt_le, toInt32_finite hf, toInt32_finite hf, toInt_ofIntClamp,
        toInt_ofIntClamp]
      omega

end Binary
end Numeral
end DeviceScript
