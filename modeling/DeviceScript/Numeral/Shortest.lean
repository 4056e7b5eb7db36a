/-
The shortest decimal text of a number.

`shortest` looks at decimal grids from coarse to fine and takes the first on which
a neighbour of the number reads back as the number itself.  The coarsest such grid
has the fewest digits, and of two neighbours that read back the nearer one is
taken; only an exact tie is left to the caller.  If no grid did, the exact
expansion stands in, so the result reads back in every case.
-/
import DeviceScript.Numeral.Decimal

namespace DeviceScript
namespace Numeral

/-- Which of two equally near neighbours is taken. -/
inductive Tie where
  | up
  | toEven
deriving DecidableEq

namespace Format

/-- The place `p` of the leading digit of `n` quanta, `10 ^ (p - 1) ≤ value < 10 ^ p`.
Below one the zeros after the point are counted on the reciprocal. -/
def leadingPlace (f : Format) (n : Nat) : Int :=
  if f.unit ≤ n then (Nat.toDigits 10 (n / f.unit)).length
  else 1 - ((Nat.toDigits 10 ((f.unit - 1) / n)).length : Int)

/-- Whether a decimal reads back as `n` quanta. -/
def readsBack (f : Format) (n digits : Nat) (exponent : Int) : Bool :=
  match Binary.ofDecimal f false digits exponent with
  | .finite false m _ => m == n
  | _ => false

/-- `n` quanta as a ratio in units of `10 ^ exponent`. -/
def gridRatio (f : Format) (n : Nat) : Int → Nat × Nat
  | .ofNat k => (n, f.unit * 10 ^ k)
  | .negSucc k => (n * 10 ^ (k + 1), f.unit)

/-- The neighbours of `n` quanta on the grid of `10 ^ exponent`, the nearer first. -/
def neighbours (f : Format) (tie : Tie) (n : Nat) (exponent : Int) : List Nat :=
  let (num, den) := f.gridRatio n exponent
  let low := num / den
  let rest := num % den
  let upper := den < 2 * rest ∨ (den = 2 * rest ∧ (tie = .up ∨ low % 2 = 1))
  if upper then [low + 1, low] else [low, low + 1]

/-- The neighbour on one grid that reads back. -/
def onGrid? (f : Format) (tie : Tie) (n : Nat) (exponent : Int) : Option (Nat × Int) :=
  ((f.neighbours tie n exponent).find? fun digits => f.readsBack n digits exponent).map
    fun digits => (digits, exponent)

/-- The digits and the exponent of the shortest decimal that reads back as `n`
quanta.  Seventeen digits are enough for the formats of this library. -/
def shortest (f : Format) (tie : Tie) (n : Nat) : Nat × Int :=
  let grids := (List.range 18).map fun (i : Nat) => f.leadingPlace n - i
  (grids.findSome? (f.onGrid? tie n)).getD (n * 5 ^ f.scale, -(f.scale : Int))

end Format

/-- A decimal in positional notation, with as many zeros as that takes. -/
def positional (digits : Nat) : Int → List Char
  | .ofNat k => Nat.toDigits 10 digits ++ List.replicate k '0'
  | .negSucc k =>
    let part := Nat.toDigits 10 (digits % 10 ^ (k + 1))
    Nat.toDigits 10 (digits / 10 ^ (k + 1)) ++
      '.' :: (List.replicate (k + 1 - part.length) '0' ++ part)

namespace Binary

variable {f : Format}

/-- The text of a number: positional, without a point on whole numbers, a tie
between two shortest texts going up. -/
def chars : Binary f → List Char
  | .nan => ['N', 'a', 'N']
  | .infinite negative => mark negative ++ ['i', 'n', 'f']
  | .finite negative magnitude _ =>
    if magnitude = 0 then mark negative ++ ['0']
    else
      let (digits, exponent) := f.shortest .up magnitude
      mark negative ++ positional digits exponent
where
  mark (negative : Bool) : List Char := if negative then ['-'] else []

def text (x : Binary f) : String := String.ofList x.chars

end Binary

end Numeral
end DeviceScript
