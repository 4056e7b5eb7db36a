/-
Numbers of a binary format, and their arithmetic.

A number is not-a-number, an infinity, or a sign with a magnitude on the grid of
its format.  There is one not-a-number, so equality of numbers is equality of
what a script can tell apart, the sign of zero included.

Every operation computes an exact ratio and rounds it once with
`Format.nearest`; `ofRatio` is the only place where a magnitude is built.
-/
import DeviceScript.Numeral.Format

namespace DeviceScript
namespace Numeral

inductive Binary (f : Format) where
  | nan
  | infinite (negative : Bool)
  | finite (negative : Bool) (magnitude : Nat) (fits : f.Fits magnitude)
deriving DecidableEq

namespace Binary

variable {f : Format}

/-- The number nearest to `num / den` quanta with the given sign; an infinity when
that is out of range. -/
def ofRatio (f : Format) (negative : Bool) (num den : Nat) : Binary f :=
  if h : f.nearest num den < f.bound then
    .finite negative (f.nearest num den) (f.fits_nearest h)
  else .infinite negative

/-- A magnitude on the grid is kept by rounding. -/
theorem ofRatio_of_fits {n : Nat} (h : f.Fits n) (negative : Bool) {den : Nat} (hd : 0 < den) :
    ofRatio f negative (n * den) den = .finite negative n h := by
  have hn := f.nearest_of_fits h hd
  unfold ofRatio
  rw [dif_pos (by rw [hn]; exact h.2)]
  congr

def zero (f : Format) (negative : Bool) : Binary f := ofRatio f negative 0 1

/-- The number nearest to an integer. -/
def ofInt (f : Format) (i : Int) : Binary f := ofRatio f (decide (i < 0)) (i.natAbs * f.unit) 1

instance : Inhabited (Binary f) := ⟨.nan⟩

/-! ## Order

Numbers are ordered as they lie on the line, with the infinities at its two ends, so
that the two zeros are equal.  Not-a-number does not lie there.  Where all numbers
have to be ordered it stands below the others. -/

def signed (negative : Bool) (magnitude : Nat) : Int :=
  if negative then -(magnitude : Int) else magnitude

def isNaN : Binary f → Bool
  | .nan => true
  | _ => false

/-- How one number lies to another; nothing if one of them is not-a-number. -/
def partialOrder : Binary f → Binary f → Option Ordering
  | .nan, _ => none
  | _, .nan => none
  | .infinite s, .infinite t => some (compare t s)
  | .infinite s, .finite .. => some (if s then .lt else .gt)
  | .finite .., .infinite t => some (if t then .gt else .lt)
  | .finite s m _, .finite t n _ => some (compare (signed s m) (signed t n))

/-- The order of all numbers.  Of two that do not both lie on the line, the one that
does is the greater one. -/
def order (a b : Binary f) : Ordering :=
  (a.partialOrder b).getD (compare a.isNaN b.isNaN).swap

def isPositive (a : Binary f) : Bool := a.partialOrder (zero f false) == some .gt

def isNegative (a : Binary f) : Bool := a.partialOrder (zero f false) == some .lt

/-! ## Arithmetic -/

def neg : Binary f → Binary f
  | .nan => .nan
  | .infinite s => .infinite (!s)
  | .finite s m h => .finite (!s) m h

/-- A sum that vanishes is negative only if both terms are. -/
def add : Binary f → Binary f → Binary f
  | .nan, _ => .nan
  | _, .nan => .nan
  | .infinite s, .infinite t => if s = t then .infinite s else .nan
  | .infinite s, .finite .. => .infinite s
  | .finite .., .infinite t => .infinite t
  | .finite s m _, .finite t n _ =>
    let total := signed s m + signed t n
    if total = 0 then zero f (s && t) else ofRatio f (decide (total < 0)) total.natAbs 1

def sub (a b : Binary f) : Binary f := add a b.neg

def mul : Binary f → Binary f → Binary f
  | .nan, _ => .nan
  | _, .nan => .nan
  | .infinite s, .infinite t => .infinite (s != t)
  | .infinite s, .finite t n _ => if n = 0 then .nan else .infinite (s != t)
  | .finite s m _, .infinite t => if m = 0 then .nan else .infinite (s != t)
  | .finite s m _, .finite t n _ => ofRatio f (s != t) (m * n) f.unit

def div : Binary f → Binary f → Binary f
  | .nan, _ => .nan
  | _, .nan => .nan
  | .infinite _, .infinite _ => .nan
  | .infinite s, .finite t _ _ => .infinite (s != t)
  | .finite s _ _, .infinite t => zero f (s != t)
  | .finite s m _, .finite t n _ =>
    if n = 0 then
      if m = 0 then .nan else .infinite (s != t)
    else ofRatio f (s != t) (m * f.unit) n

/-- The remainder of truncated division, exact, with the sign of the dividend. -/
def rem : Binary f → Binary f → Binary f
  | .nan, _ => .nan
  | _, .nan => .nan
  | .infinite _, _ => .nan
  | .finite s m h, .infinite _ => .finite s m h
  | .finite s m _, .finite _ n _ => if n = 0 then .nan else ofRatio f s (m % n) 1

/-- The floor of the square root of a number of at most `digits` digits in base
four.  Each digit settles one bit of the root. -/
def floorRoot : Nat → Nat → Nat
  | 0, _ => 0
  | digits + 1, n =>
    let r := 2 * floorRoot digits (n / 4)
    if (r + 1) * (r + 1) ≤ n then r + 1 else r

/-- The root of a positive magnitude is taken with one bit to spare, and a last
bit says whether anything was cut off, which is all that rounding has to know. -/
def sqrt : Binary f → Binary f
  | .nan => .nan
  | .infinite s => if s then .nan else .infinite false
  | .finite s m h =>
    if m = 0 then .finite s m h
    else if s then .nan
    else
      let n := 4 * (m * f.unit)
      let r := floorRoot (n.log2 / 2 + 1) n
      ofRatio f false (2 * r + if r * r = n then 0 else 1) 4

/-- The nearest number of another format. -/
def convert (g : Format) : Binary f → Binary g
  | .nan => .nan
  | .infinite s => .infinite s
  | .finite s m _ => ofRatio g s (m * g.unit) f.unit

instance : Neg (Binary f) := ⟨neg⟩
instance : Add (Binary f) := ⟨add⟩
instance : Sub (Binary f) := ⟨sub⟩
instance : Mul (Binary f) := ⟨mul⟩
instance : Div (Binary f) := ⟨div⟩
instance : Mod (Binary f) := ⟨rem⟩

/-! ## Whole numbers

What stands behind the point is cut off when a number becomes an integer, and an
integer that is out of range becomes the nearest one that is not.  Not-a-number
counts as zero. -/

/-- A number as a size of at most `largest`; there is none below zero. -/
def toSize (largest : Nat) : Binary f → Nat
  | .nan => 0
  | .infinite s => if s then 0 else largest
  | .finite s m _ => if s then 0 else min (m / f.unit) largest

/-- A number as an integer of thirty-two bits. -/
def truncate : Binary f → Int32
  | .nan => 0
  | .infinite s => if s then Int32.minValue else Int32.maxValue
  | .finite s m _ => Int32.ofIntClamp (signed s (m / f.unit))

/-- The nearest whole number, a half going to the even one. -/
def roundEven : Binary f → Binary f
  | .nan => .nan
  | .infinite s => .infinite s
  | .finite s m _ => ofRatio f s (nearestEven m f.unit * f.unit) 1

/-- The nearest integer, held within thirty-two bits. -/
def toInt32 (a : Binary f) : Int32 := a.roundEven.truncate

/-! ## Bits

The exponent field and the fraction below it, read as one number, are
`excess * 2 ^ (precision - 1)` plus the significand, for numbers above and below
the normal range alike: the leading one carries into the exponent field. -/

def toBits : Binary f → Nat
  | .nan => (2 ^ f.exponentBits - 1) * 2 ^ (f.precision - 1) + 2 ^ (f.precision - 2)
  | .infinite s => sign s + (2 ^ f.exponentBits - 1) * 2 ^ (f.precision - 1)
  | .finite s m _ => sign s + f.excess m * 2 ^ (f.precision - 1) + m / 2 ^ f.excess m
where
  sign (s : Bool) : Nat := if s then 2 ^ (f.precision - 1 + f.exponentBits) else 0

def ofBits (f : Format) (bits : Nat) : Binary f :=
  let negative := decide (bits / 2 ^ (f.precision - 1 + f.exponentBits) % 2 = 1)
  let exponent := bits / 2 ^ (f.precision - 1) % 2 ^ f.exponentBits
  let fraction := bits % 2 ^ (f.precision - 1)
  if exponent = 2 ^ f.exponentBits - 1 then
    if fraction = 0 then .infinite negative else .nan
  else if exponent = 0 then ofRatio f negative fraction 1
  else ofRatio f negative ((2 ^ (f.precision - 1) + fraction) * 2 ^ (exponent - 1)) 1

end Binary

end Numeral

/-- The numbers of a script. -/
abbrev Single := Numeral.Binary .single

/-- The components of a vector. -/
abbrev Double := Numeral.Binary .double

end DeviceScript
