/-
Reading numbers from decimal text.

`Literal.read?` is the grammar: an optional sign, then `inf`, `infinity` or `nan`
in any case of letters, or digits with an optional point and an optional exponent.
A point needs a digit on at least one side of it.  What it returns is exact, and
`Binary.ofDecimal` rounds it once.
-/
import DeviceScript.Numeral.Binary

namespace DeviceScript
namespace Numeral

/-- A number as it is written, before it is rounded to a format. -/
inductive Literal where
  | nan
  | infinite (negative : Bool)
  | decimal (negative : Bool) (digits : Nat) (exponent : Int)
deriving DecidableEq

namespace Literal

/-- Splits off a sign; true is minus. -/
def sign : List Char → Bool × List Char
  | '-' :: rest => (true, rest)
  | '+' :: rest => (false, rest)
  | rest => (false, rest)

/-- The exponent that fills the rest of a numeral. -/
def exponent? : List Char → Option Int
  | [] => some 0
  | c :: rest =>
    if c = 'e' ∨ c = 'E' then
      let digits := (sign rest).2
      if digits ≠ [] ∧ digits.all Char.isDigit then
        let e := Nat.ofDigitChars 10 digits 0
        some (if (sign rest).1 then -(e : Int) else e)
      else none
    else none

/-- The digits after the point, and what follows them. -/
def fraction : List Char → List Char × List Char
  | '.' :: rest => (rest.takeWhile Char.isDigit, rest.dropWhile Char.isDigit)
  | rest => ([], rest)

def unsigned? (negative : Bool) (s : List Char) : Option Literal :=
  let whole := s.takeWhile Char.isDigit
  let (part, rest) := fraction (s.dropWhile Char.isDigit)
  if whole = [] ∧ part = [] then none
  else
    (exponent? rest).map fun e =>
      .decimal negative (Nat.ofDigitChars 10 (whole ++ part) 0) (e - part.length)

def read? (s : List Char) : Option Literal :=
  let (negative, body) := sign s
  let word := body.map Char.toLower
  if word = ['n', 'a', 'n'] then some .nan
  else if word = ['i', 'n', 'f'] ∨ word = ['i', 'n', 'f', 'i', 'n', 'i', 't', 'y'] then
    some (.infinite negative)
  else unsigned? negative body

end Literal

/-- `digits * 10 ^ exponent` as a number of quanta over a denominator. -/
def decimalRatio (f : Format) (digits : Nat) : Int → Nat × Nat
  | .ofNat k => (digits * 10 ^ k * f.unit, 1)
  | .negSucc k => (digits * f.unit, 10 ^ (k + 1))

namespace Binary

variable {f : Format}

/-- The number nearest to `digits * 10 ^ exponent`.  A leading digit more than
`2 ^ exponentBits` places from the point is past the range of the format on either
side, so the powers of ten that are computed stay small. -/
def ofDecimal (f : Format) (negative : Bool) (digits : Nat) (exponent : Int) : Binary f :=
  let place : Int := (Nat.toDigits 10 digits).length + exponent
  let reach : Int := 2 ^ f.exponentBits
  if digits = 0 then zero f negative
  else if reach < place then .infinite negative
  else if place < -reach then zero f negative
  else
    let (num, den) := decimalRatio f digits exponent
    ofRatio f negative num den

def ofLiteral (f : Format) : Literal → Binary f
  | .nan => .nan
  | .infinite negative => .infinite negative
  | .decimal negative digits exponent => ofDecimal f negative digits exponent

/-- The number that a whole text spells. -/
def read? (f : Format) (s : List Char) : Option (Binary f) :=
  (Literal.read? s).map (ofLiteral f)

end Binary

end Numeral
end DeviceScript
