/-
Numbers in JSON documents.

A number is kept as it is written.  Whole numbers are read exactly.  A number with
a point or an exponent, or one too long for sixty-four bits, is read through a
binary64 significand of at most sixty-four bits and one power of ten, each step
rounded on its own: `significand`, `scaled?` and `toBinary?` below fix these steps.

Numbers are written with their shortest digits, a tie going to the even neighbour;
positionally for sizes near one, and with an exponent otherwise.
-/
import DeviceScript.Numeral.Integer
import DeviceScript.Numeral.Shortest

namespace DeviceScript
namespace Json

/-- A number as it is written. -/
structure Number where
  negative : Bool
  whole : List Char
  /-- The digits after the point; without any there is no point. -/
  fraction : List Char := []
  /-- The exponent, with true for a minus sign. -/
  exponent : Option (Bool × List Char) := none
deriving DecidableEq

namespace Number

open Numeral

/-! ## Text -/

/-- An exponent is written with its sign. -/
def exponentChars : Option (Bool × List Char) → List Char
  | none => []
  | some (negative, digits) => 'e' :: (if negative then '-' else '+') :: digits

def chars (n : Number) : List Char :=
  (if n.negative then ['-'] else []) ++ n.whole ++
    (if n.fraction = [] then [] else '.' :: n.fraction) ++ exponentChars n.exponent

/-- Splits the digits off the front of a text. -/
def digits (s : List Char) : List Char × List Char :=
  (s.takeWhile Char.isDigit, s.dropWhile Char.isDigit)

/-- The digits before the point: a zero stands only for itself. -/
def whole? (s : List Char) : Option (List Char × List Char) :=
  let (ds, rest) := digits s
  if ds = [] ∨ (ds.head? = some '0' ∧ 1 < ds.length) then none else some (ds, rest)

def fraction? : List Char → Option (List Char × List Char)
  | '.' :: s =>
    let (ds, rest) := digits s
    if ds = [] then none else some (ds, rest)
  | s => some ([], s)

def exponent? : List Char → Option (Option (Bool × List Char) × List Char)
  | c :: s =>
    if c = 'e' ∨ c = 'E' then
      let (negative, body) := Literal.sign s
      let (ds, rest) := digits body
      if ds = [] then none else some (some (negative, ds), rest)
    else some (none, c :: s)
  | [] => some (none, [])

/-- The number at the start of a text, and the rest of the text. -/
def read? (s : List Char) : Option (Number × List Char) := do
  let (negative, body) := match s with
    | '-' :: rest => (true, rest)
    | rest => (false, rest)
  let (whole, rest) ← whole? body
  let (fraction, rest) ← fraction? rest
  let (exponent, rest) ← exponent? rest
  return ({ negative, whole, fraction, exponent }, rest)

/-! A number takes at least one character, whatever follows it. -/

theorem length_digits (s : List Char) : (digits s).2.length ≤ s.length :=
  (List.dropWhile_sublist _).length_le

theorem length_of_fraction? {s ds rest : List Char} (h : fraction? s = some (ds, rest)) :
    rest.length ≤ s.length := by
  unfold fraction? at h
  split at h
  · rename_i t
    dsimp only at h
    split at h
    · cases h
    · have := length_digits t
      simp only [Option.some.injEq, Prod.mk.injEq] at h
      rw [← h.2]
      simp only [List.length_cons]
      omega
  · simp only [Option.some.injEq, Prod.mk.injEq] at h
    exact Nat.le_of_eq (congrArg List.length h.2.symm)

theorem length_sign (s : List Char) : (Literal.sign s).2.length ≤ s.length := by
  unfold Literal.sign
  split <;> simp

theorem length_of_exponent? {s rest : List Char} {e : Option (Bool × List Char)}
    (h : exponent? s = some (e, rest)) : rest.length ≤ s.length := by
  unfold exponent? at h
  split at h
  · rename_i c t
    split at h
    · dsimp only at h
      split at h
      · cases h
      · have h1 := length_digits (Literal.sign t).2
        have h2 := length_sign t
        simp only [Option.some.injEq, Prod.mk.injEq] at h
        rw [← h.2]
        simp only [List.length_cons]
        omega
    · simp only [Option.some.injEq, Prod.mk.injEq] at h
      exact Nat.le_of_eq (congrArg List.length h.2.symm)
  · simp only [Option.some.injEq, Prod.mk.injEq] at h
    exact Nat.le_of_eq (congrArg List.length h.2.symm)

theorem length_of_whole? {s ds rest : List Char} (h : whole? s = some (ds, rest)) :
    rest.length < s.length := by
  unfold whole? digits at h
  dsimp only at h
  split at h
  · cases h
  · rename_i hne
    simp only [Option.some.injEq, Prod.mk.injEq] at h
    have hlen := congrArg List.length (List.takeWhile_append_dropWhile (p := Char.isDigit) (l := s))
    rw [List.length_append] at hlen
    have hpos : 0 < (s.takeWhile Char.isDigit).length :=
      List.length_pos_iff.mpr fun e => hne (Or.inl e)
    rw [← h.2]
    omega

theorem length_of_read? {s rest : List Char} {n : Number} (h : read? s = some (n, rest)) :
    rest.length < s.length := by
  unfold read? at h
  split at h
  rename_i negative body hbody
  simp only [Option.bind_eq_bind, Option.bind_eq_some_iff] at h
  obtain ⟨⟨ds, r₁⟩, h₁, ⟨fs, r₂⟩, h₂, ⟨e, r₃⟩, h₃, h⟩ := h
  simp only [Option.pure_def, Option.some.injEq, Prod.mk.injEq] at h
  have l₁ := length_of_whole? h₁
  have l₂ := length_of_fraction? h₂
  have l₃ := length_of_exponent? h₃
  dsimp only at l₂ l₃
  have lb : body.length ≤ s.length := by
    split at hbody <;> simp only [Prod.mk.injEq] at hbody <;> simp [← hbody.2]
  rw [← h.2]
  omega

/-! ## Values -/

/-- The value of a number written as an integer that sixty-four bits can hold.  A
negative zero is no integer. -/
def integer? (n : Number) : Option Int :=
  if n.fraction = [] ∧ n.exponent = none then
    let v := Nat.ofDigitChars 10 n.whole 0
    if n.negative then
      if 0 < v ∧ v ≤ 2 ^ 63 then some (-(v : Int)) else none
    else if v < 2 ^ 64 then some v
    else none
  else none

/-- Appends a digit to a significand, if sixty-four bits can hold the result. -/
def appendDigit? (significand : Nat) (c : Char) : Option Nat :=
  let next := 10 * significand + (c.toNat - '0'.toNat)
  if next < 2 ^ 64 then some next else none

/-- The significand of the digits before the point, and how many of them were left
out at its end. -/
def wholeSignificand (significand : Nat) : List Char → Nat × Nat
  | [] => (significand, 0)
  | c :: rest =>
    match appendDigit? significand c with
    | some next => wholeSignificand next rest
    | none => (significand, rest.length + 1)

/-- Goes on with the digits after the point, and counts those that were taken. -/
def fractionSignificand (significand : Nat) : List Char → Nat × Nat
  | [] => (significand, 0)
  | c :: rest =>
    match appendDigit? significand c with
    | some next =>
      let (s, taken) := fractionSignificand next rest
      (s, taken + 1)
    | none => (significand, 0)

/-- The significand of a number, and the power of ten that goes with it before the
written exponent is added. -/
def significand (n : Number) : Nat × Int :=
  let (s, left) := wholeSignificand 0 n.whole
  let (t, taken) := fractionSignificand s n.fraction
  (t, (left : Int) - (taken : Int))

/-- The largest power of ten that binary64 holds. -/
def topPower : Nat := 308

/-- The power of ten nearest to `10 ^ k` in binary64. -/
def power (k : Nat) : Double := .ofDecimal .double false 1 k

/-- Divides by a power of ten in steps that binary64 can hold. -/
def shrink (x : Double) (k : Nat) : Double :=
  if k ≤ topPower then x / power k
  else if x.partialOrder (.zero .double false) = some .eq then x
  else shrink (x / power topPower) (k - topPower)
termination_by k
decreasing_by
  unfold topPower at *
  omega

/-- A significand times a power of ten; nothing if that is out of range. -/
def scaled? (significand : Nat) (exponent : Int) : Option Double :=
  let x : Double := .ofInt .double significand
  match exponent with
  | .negSucc k => some (shrink x (k + 1))
  | .ofNat k =>
    if k ≤ topPower then
      match x * power k with
      | .infinite _ => none
      | y => some y
    else if significand = 0 then some x
    else none

/-- The value in binary64.  An exponent of more than thirty-one bits is out of range,
or makes the number zero. -/
def toDouble? (n : Number) : Option Double :=
  let (s, shift) := n.significand
  let value : Option Double :=
    match n.exponent with
    | none => scaled? s shift
    | some (negative, ds) =>
      let e := Nat.ofDigitChars 10 ds 0
      if e < 2 ^ 31 then scaled? s (if negative then shift - e else shift + e)
      else if s = 0 ∨ negative = true then some (.zero .double false)
      else none
  value.map fun x => if n.negative then -x else x

def toBinary? (f : Format) (n : Number) : Option (Binary f) :=
  match n.integer? with
  | some i => some (.ofInt f i)
  | none => n.toDouble?.map fun x => x.convert f

/-! ## Writing -/

def ofInt (i : Int) : Number :=
  { negative := decide (i < 0), whole := Nat.toDigits 10 i.natAbs }

/-- The places of the leading digit between which a number is written positionally. -/
structure Layout where
  lowest : Int
  highest : Int

def Layout.single : Layout := ⟨-5, 13⟩

def Layout.double : Layout := ⟨-4, 16⟩

/-- Digits with an exponent, laid out.  A whole number keeps one zero after its point,
and a number with an exponent has one digit before it. -/
def layOut (layout : Layout) (negative : Bool) (digits : Nat) (exponent : Int) : Number :=
  let ds := Nat.toDigits 10 digits
  let place : Int := ds.length + exponent
  if place < layout.lowest ∨ layout.highest < place then
    { negative
      whole := ds.take 1
      fraction := ds.drop 1
      exponent := some (decide (place - 1 < 0), Nat.toDigits 10 (place - 1).natAbs) }
  else if 0 ≤ exponent then
    { negative, whole := ds ++ List.replicate exponent.toNat '0', fraction := ['0'] }
  else if 0 < place then
    { negative, whole := ds.take place.toNat, fraction := ds.drop place.toNat }
  else
    { negative, whole := ['0'], fraction := List.replicate place.natAbs '0' ++ ds }

/-- The written form of a finite number. -/
def ofBinary? {f : Format} (layout : Layout) : Binary f → Option Number
  | .finite negative 0 _ => some { negative, whole := ['0'], fraction := ['0'] }
  | .finite negative m _ =>
    let (digits, exponent) := f.shortest .toEven m
    some (layOut layout negative digits exponent)
  | _ => none

end Number
end Json
end DeviceScript
