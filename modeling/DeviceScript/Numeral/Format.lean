/-
Binary interchange formats and rounding onto their grid.

A format has a precision and a number of exponent bits.  Every finite value of a
format is a whole number of quanta, where the quantum `2 ^ -scale` is the
smallest positive value, so magnitudes are natural numbers here and no exponent
has to be carried beside them.  `Format.Fits f n` says that `n` quanta are a
value of the format: `n` has at most `precision` significant bits and lies below
the overflow bound.

`Format.nearest f num den` rounds the ratio `num / den`, measured in quanta, to
the nearest magnitude with `precision` significant bits, a half going to the even
neighbour.  `fits_nearest` says that the result is on the grid, and
`nearest_of_fits` that a magnitude already there is kept.
-/

namespace DeviceScript
namespace Numeral

-- Powers are those of the core library, also where a library of algebra brings its own.
attribute [instance (high), default_instance (high)] instPowNat

/-- The nearest whole number to `num / den`; a half goes to the even neighbour. -/
def nearestEven (num den : Nat) : Nat :=
  let q := num / den
  let r := num % den
  if 2 * r < den then q
  else if den < 2 * r then q + 1
  else if q % 2 = 0 then q
  else q + 1

theorem nearestEven_le (num den : Nat) : nearestEven num den ≤ num / den + 1 := by
  unfold nearestEven
  dsimp only
  split
  · exact Nat.le_succ _
  · split
    · exact Nat.le_refl _
    · split
      · exact Nat.le_succ _
      · exact Nat.le_refl _

/-- A ratio that is already whole is not moved. -/
theorem nearestEven_mul {den : Nat} (h : 0 < den) (n : Nat) : nearestEven (n * den) den = n := by
  simp [nearestEven, Nat.mul_div_cancel n h, h]

/-- A binary interchange format: the bits of its significand, the leading one
included, and of its exponent field. -/
structure Format where
  precision : Nat
  exponentBits : Nat
  precision_pos : 0 < precision := by decide
deriving DecidableEq

namespace Format

/-- Thirty-two bits, the format of numbers. -/
def single : Format := { precision := 24, exponentBits := 8 }

/-- Sixty-four bits, the format of vector components. -/
def double : Format := { precision := 53, exponentBits := 11 }

/-- One is `2 ^ scale` quanta. -/
def scale (f : Format) : Nat := 2 ^ (f.exponentBits - 1) + f.precision - 3

/-- One, in quanta. -/
def unit (f : Format) : Nat := 2 ^ f.scale

/-- The first power of two past the largest finite magnitude, in quanta. -/
def bound (f : Format) : Nat := 2 ^ (f.precision + (2 ^ f.exponentBits - 3))

/-- How many low bits of `n` lie below the precision. -/
def excess (f : Format) (n : Nat) : Nat := n.log2 + 1 - f.precision

/-- Whether `n` quanta are a finite magnitude of the format. -/
def Fits (f : Format) (n : Nat) : Prop := 2 ^ f.excess n ∣ n ∧ n < f.bound

instance (f : Format) (n : Nat) : Decidable (f.Fits n) :=
  inferInstanceAs (Decidable (2 ^ f.excess n ∣ n ∧ n < f.bound))

/-- The nearest magnitude with `precision` significant bits to `num / den`
quanta.  The spacing of the grid is read off the whole part of the ratio: rounding
up to the next power of two lands on both grids that meet there. -/
def nearest (f : Format) (num den : Nat) : Nat :=
  let spacing := 2 ^ f.excess (num / den)
  nearestEven num (den * spacing) * spacing

theorem lt_two_pow_excess (f : Format) (n : Nat) : n < 2 ^ (f.precision + f.excess n) := by
  refine Nat.lt_of_lt_of_le Nat.lt_log2_self (Nat.pow_le_pow_right (by decide) ?_)
  unfold excess
  omega

/-- `m * 2 ^ e` is on the grid as soon as `m` fits the precision, the next power of
two included. -/
theorem excess_dvd_mul (f : Format) {m e : Nat} (hm : m ≤ 2 ^ f.precision) :
    2 ^ f.excess (m * 2 ^ e) ∣ m * 2 ^ e := by
  have hp := f.precision_pos
  rcases Nat.eq_zero_or_pos m with rfl | hpos
  · simp
  rcases Nat.lt_or_eq_of_le hm with hlt | heq
  · have hne : m * 2 ^ e ≠ 0 := Nat.ne_of_gt (Nat.mul_pos hpos (Nat.two_pow_pos e))
    have hlog : (m * 2 ^ e).log2 < f.precision + e := by
      rw [Nat.log2_lt hne, Nat.pow_add]
      exact Nat.mul_lt_mul_of_pos_right hlt (Nat.two_pow_pos e)
    refine Nat.dvd_trans (Nat.pow_dvd_pow 2 ?_) (Nat.dvd_mul_left _ _)
    unfold excess
    omega
  · subst heq
    rw [← Nat.pow_add]
    refine Nat.pow_dvd_pow 2 ?_
    unfold excess
    rw [Nat.log2_two_pow]
    omega

theorem excess_nearest_dvd (f : Format) (num den : Nat) :
    2 ^ f.excess (f.nearest num den) ∣ f.nearest num den := by
  refine f.excess_dvd_mul ?_
  refine Nat.le_trans (nearestEven_le _ _) ?_
  rw [← Nat.div_div_eq_div_mul]
  refine Nat.succ_le_of_lt (Nat.div_lt_of_lt_mul ?_)
  rw [← Nat.pow_add, Nat.add_comm]
  exact f.lt_two_pow_excess _

/-- Rounding lands on the grid unless it overflows. -/
theorem fits_nearest (f : Format) {num den : Nat} (h : f.nearest num den < f.bound) :
    f.Fits (f.nearest num den) :=
  ⟨f.excess_nearest_dvd num den, h⟩

/-- A magnitude on the grid is its own rounding. -/
theorem nearest_of_fits (f : Format) {n : Nat} (h : f.Fits n) {den : Nat} (hd : 0 < den) :
    f.nearest (n * den) den = n := by
  unfold nearest
  rw [Nat.mul_div_cancel n hd]
  obtain ⟨k, hk⟩ := h.1
  have hpos : 0 < den * 2 ^ f.excess n := Nat.mul_pos hd (Nat.two_pow_pos _)
  have hsplit : n * den = k * (den * 2 ^ f.excess n) := by
    conv => lhs; rw [hk]
    ac_rfl
  dsimp only
  rw [hsplit, nearestEven_mul hpos, Nat.mul_comm]
  exact hk.symm

end Format

end Numeral
end DeviceScript
