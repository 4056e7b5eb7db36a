/-
The order of numbers.

Each number has a rank, an integer, and comparing numbers is comparing their ranks, so it is a
total preorder.  Rank tells two numbers apart unless they are the two zeros: not-a-number has a
rank of its own below all others, only the infinities reach the bound of the format, and the
rank of a finite number is its signed magnitude.
-/
import DeviceScript.Numeral.Binary

namespace DeviceScript
namespace Numeral
namespace Binary

variable {f : Format}

/-- The place of a number in the order. -/
def rank : Binary f → Int
  | .nan => -(f.bound : Int) - 1
  | .infinite negative => signed negative f.bound
  | .finite negative magnitude _ => signed negative magnitude

theorem natAbs_signed (negative : Bool) (m : Nat) : (signed negative m).natAbs = m := by
  cases negative <;> simp [signed]

theorem bound_pos (f : Format) : 0 < f.bound := Nat.two_pow_pos _

theorem rank_nan : rank (.nan : Binary f) = -(f.bound : Int) - 1 := rfl

theorem natAbs_rank_le {a : Binary f} (h : a ≠ .nan) : a.rank.natAbs ≤ f.bound := by
  cases a with
  | nan => exact absurd rfl h
  | infinite s => exact Nat.le_of_eq (natAbs_signed s f.bound)
  | finite s m hm =>
    rw [rank, natAbs_signed]
    exact Nat.le_of_lt hm.2

theorem natAbs_rank_lt {s : Bool} {m : Nat} (h : f.Fits m) :
    (rank (.finite s m h)).natAbs < f.bound := by
  rw [rank, natAbs_signed]
  exact h.2

/-- On the line, numbers lie as their ranks do. -/
theorem partialOrder_eq_compare_rank {a b : Binary f} (ha : a ≠ .nan) (hb : b ≠ .nan) :
    a.partialOrder b = some (compare a.rank b.rank) := by
  have hpos := bound_pos f
  have htop : rank (.infinite false : Binary f) = f.bound := rfl
  have hbottom : rank (.infinite true : Binary f) = -(f.bound : Int) := rfl
  rw [eq_comm]
  cases a with
  | nan => exact absurd rfl ha
  | infinite s =>
    cases b with
    | nan => exact absurd rfl hb
    | infinite t =>
      cases s <;> cases t <;> refine congrArg some ?_
      · exact Int.compare_eq_eq.mpr rfl
      · exact Int.compare_eq_gt.mpr (by omega)
      · exact Int.compare_eq_lt.mpr (by omega)
      · exact Int.compare_eq_eq.mpr rfl
    | finite t n hn =>
      have hlt := natAbs_rank_lt (s := t) hn
      cases s <;> refine congrArg some ?_
      · exact Int.compare_eq_gt.mpr (by omega)
      · exact Int.compare_eq_lt.mpr (by omega)
  | finite s m hm =>
    cases b with
    | nan => exact absurd rfl hb
    | infinite t =>
      have hlt := natAbs_rank_lt (s := s) hm
      cases t <;> refine congrArg some ?_
      · exact Int.compare_eq_lt.mpr (by omega)
      · exact Int.compare_eq_gt.mpr (by omega)
    | finite t n hn => rfl

theorem partialOrder_nan (a : Binary f) : a.partialOrder .nan = none := by
  cases a <;> rfl

theorem isNaN_eq_false {a : Binary f} (h : a ≠ .nan) : a.isNaN = false := by
  cases a with
  | nan => exact absurd rfl h
  | infinite | finite => rfl

/-- Not-a-number stands below every other number. -/
theorem order_nan {a : Binary f} (h : a ≠ .nan) : order .nan a = .lt := by
  rw [order, isNaN_eq_false h]
  rfl

/-- Numbers are ordered by rank. -/
theorem order_eq_compare_rank (a b : Binary f) : a.order b = compare a.rank b.rank := by
  rw [eq_comm]
  by_cases ha : a = .nan
  · by_cases hb : b = .nan
    · rw [ha, hb]
      exact Int.compare_eq_eq.mpr rfl
    · have hle := natAbs_rank_le hb
      rw [ha, order_nan hb, Int.compare_eq_lt, rank_nan]
      omega
  · by_cases hb : b = .nan
    · have hle := natAbs_rank_le ha
      rw [hb, order, partialOrder_nan, isNaN_eq_false ha]
      refine Int.compare_eq_gt.mpr ?_
      rw [rank_nan]
      omega
    · rw [order, partialOrder_eq_compare_rank ha hb]
      rfl

theorem order_eq_compareOn_rank : order (f := f) = compareOn rank :=
  funext fun a => funext fun b => order_eq_compare_rank a b

instance : Std.TransCmp (order (f := f)) := by
  rw [order_eq_compareOn_rank]
  infer_instance

theorem order_eq_eq_iff_rank {a b : Binary f} : a.order b = .eq ↔ a.rank = b.rank := by
  rw [order_eq_compare_rank]
  exact Int.compare_eq_eq

/-! ## Numbers of one rank -/

theorem eq_of_signed_eq {s t : Bool} {m n : Nat} (h : signed s m = signed t n) :
    m = n ∧ (m ≠ 0 → s = t) := by
  have hmn : m = n := by rw [← natAbs_signed s m, h, natAbs_signed]
  refine ⟨hmn, fun hm => ?_⟩
  cases s <;> cases t <;> simp [signed] at h ⊢ <;> omega

theorem signed_eq_zero_iff {negative : Bool} {m : Nat} : signed negative m = 0 ↔ m = 0 := by
  cases negative <;> simp [signed]

theorem eq_nan_of_rank {a : Binary f} (h : a.rank = rank (.nan : Binary f)) : a = .nan := by
  by_cases ha : a = .nan
  · exact ha
  · have hle := natAbs_rank_le ha
    rw [h, rank_nan] at hle
    omega

/-- Rank tells all numbers apart but the two zeros. -/
theorem eq_of_rank_eq {a b : Binary f} (h : a.rank = b.rank) (ha : a.rank ≠ 0) : a = b := by
  cases a with
  | nan => exact (eq_nan_of_rank h.symm).symm
  | infinite s =>
    cases b with
    | nan => exact eq_nan_of_rank h
    | infinite t => rw [(eq_of_signed_eq h).2 (Nat.ne_of_gt (bound_pos f))]
    | finite t n hn => exact absurd (eq_of_signed_eq h).1 (Nat.ne_of_gt hn.2)
  | finite s m hm =>
    cases b with
    | nan => exact eq_nan_of_rank h
    | infinite t => exact absurd (eq_of_signed_eq h).1 (Nat.ne_of_lt hm.2)
    | finite t n hn =>
      obtain ⟨rfl, hst⟩ := eq_of_signed_eq h
      rw [hst fun h0 => ha (signed_eq_zero_iff.mpr h0)]

/-- One of the two zeros. -/
def IsZero (a : Binary f) : Prop := ∃ negative, a = zero f negative

theorem zero_eq_finite (negative : Bool) :
    ∃ h : f.Fits 0, zero f negative = .finite negative 0 h := by
  have hfits : f.Fits 0 := ⟨Nat.dvd_zero _, bound_pos f⟩
  refine ⟨hfits, ?_⟩
  rw [zero, ← ofRatio_of_fits hfits negative Nat.one_pos, Nat.zero_mul]

theorem isZero_iff_rank {a : Binary f} : a.IsZero ↔ a.rank = 0 := by
  constructor
  · intro h
    obtain ⟨s, rfl⟩ := h
    obtain ⟨h0, hzero⟩ := zero_eq_finite (f := f) s
    rw [hzero]
    exact signed_eq_zero_iff.mpr rfl
  · intro h
    cases a with
    | nan =>
      rw [rank_nan] at h
      omega
    | infinite s => exact absurd (signed_eq_zero_iff.mp h) (Nat.ne_of_gt (bound_pos f))
    | finite s m hm =>
      obtain rfl := signed_eq_zero_iff.mp h
      obtain ⟨h0, hzero⟩ := zero_eq_finite (f := f) s
      exact ⟨s, hzero.symm⟩

/-- Two numbers that compare equal are the same, or both are zeros. -/
theorem order_eq_eq_iff {a b : Binary f} : a.order b = .eq ↔ a = b ∨ a.IsZero ∧ b.IsZero := by
  rw [order_eq_eq_iff_rank, isZero_iff_rank, isZero_iff_rank]
  constructor
  · intro h
    by_cases h0 : a.rank = 0
    · exact .inr ⟨h0, h ▸ h0⟩
    · exact .inl (eq_of_rank_eq h h0)
  · intro h
    rcases h with rfl | ⟨ha, hb⟩
    · rfl
    · rw [ha, hb]

theorem ofRatio_ne_nan (negative : Bool) (num den : Nat) : ofRatio f negative num den ≠ .nan := by
  unfold ofRatio
  split <;> exact nofun

theorem convert_eq_nan_iff {g : Format} {a : Binary f} : a.convert g = .nan ↔ a = .nan := by
  cases a with
  | nan => exact ⟨fun _ => rfl, fun _ => rfl⟩
  | infinite => exact ⟨nofun, nofun⟩
  | finite => exact ⟨fun h => absurd h (ofRatio_ne_nan _ _ _), nofun⟩

end Binary
end Numeral
end DeviceScript
