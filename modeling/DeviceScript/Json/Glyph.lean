/-
The characters of JSON strings.

A string may write a character as itself, behind a backslash, or as the code of a
UTF-16 unit.  Codes can also write half of a surrogate pair, which is no character,
so a string is a list of glyphs, and `text?` is the text that it spells if it
spells one.
-/

namespace DeviceScript
namespace Json

inductive Glyph where
  | char (c : Char)
  | code (unit : UInt16)
deriving DecidableEq

namespace Glyph

/-- The letter behind a backslash for a character that has one. -/
def escape? (c : Char) : Option Char :=
  if c = '"' then some '"'
  else if c = '\\' then some '\\'
  else if c = '\x08' then some 'b'
  else if c = '\x0c' then some 'f'
  else if c = '\n' then some 'n'
  else if c = '\r' then some 'r'
  else if c = '\t' then some 't'
  else none

/-- The character that a letter behind a backslash stands for. -/
def unescape? (c : Char) : Option Char :=
  if c = '"' then some '"'
  else if c = '\\' then some '\\'
  else if c = '/' then some '/'
  else if c = 'b' then some '\x08'
  else if c = 'f' then some '\x0c'
  else if c = 'n' then some '\n'
  else if c = 'r' then some '\r'
  else if c = 't' then some '\t'
  else none

theorem unescape?_of_escape? {c e : Char} (h : escape? c = some e) : unescape? e = some c := by
  unfold escape? at h
  repeat' split at h
  all_goals first
    | (cases h; subst_vars; rfl)
    | cases h

def hexValue? (c : Char) : Option Nat :=
  let n := c.toNat
  if 48 ≤ n ∧ n ≤ 57 then some (n - 48)
  else if 65 ≤ n ∧ n ≤ 70 then some (n - 55)
  else if 97 ≤ n ∧ n ≤ 102 then some (n - 87)
  else none

/-- The unit that four hexadecimal digits write. -/
def unit? (a b c d : Char) : Option UInt16 := do
  let a ← hexValue? a
  let b ← hexValue? b
  let c ← hexValue? c
  let d ← hexValue? d
  return UInt16.ofNat (4096 * a + 256 * b + 16 * c + d)

def hexDigit (n : Nat) : Char := Nat.digitChar (n % 16)

/-- A glyph as it is written. -/
def chars : Glyph → List Char
  | .char c =>
    match escape? c with
    | some e => ['\\', e]
    | none => [c]
  | .code u =>
    let n := u.toNat
    ['\\', 'u', hexDigit (n / 4096), hexDigit (n / 256), hexDigit (n / 16), hexDigit n]

/-- The glyphs up to the closing quote, and what follows it. -/
def body? : List Char → Option (List Glyph × List Char)
  | [] => none
  | '"' :: rest => some ([], rest)
  | '\\' :: 'u' :: a :: b :: c :: d :: rest => do
    let u ← unit? a b c d
    let (glyphs, after) ← body? rest
    return (.code u :: glyphs, after)
  | '\\' :: e :: rest => do
    let c ← unescape? e
    let (glyphs, after) ← body? rest
    return (.char c :: glyphs, after)
  | c :: rest =>
    if c = '\\' ∨ c.toNat < 32 then none
    else do
      let (glyphs, after) ← body? rest
      return (.char c :: glyphs, after)

theorem length_of_body? {s : List Char} {glyphs : List Glyph} {after : List Char}
    (h : body? s = some (glyphs, after)) : after.length < s.length := by
  induction s using body?.induct generalizing glyphs after with
  | case1 => simp [body?] at h
  | case2 rest =>
    simp only [body?, Option.some.injEq, Prod.mk.injEq] at h
    simp [h.2]
  | case3 a b c d rest ih =>
    simp only [body?, Option.bind_eq_bind, Option.bind_eq_some_iff] at h
    obtain ⟨u, -, ⟨g, r⟩, hg, h⟩ := h
    simp only [Option.pure_def, Option.some.injEq, Prod.mk.injEq] at h
    have := ih hg
    rw [← h.2]
    simp only [List.length_cons]
    omega
  | case4 e rest hu ih =>
    rw [body?.eq_4 _ _ hu] at h
    simp only [Option.bind_eq_bind, Option.bind_eq_some_iff] at h
    obtain ⟨u, -, ⟨g, r⟩, hg, h⟩ := h
    simp only [Option.pure_def, Option.some.injEq, Prod.mk.injEq] at h
    have := ih hg
    rw [← h.2]
    simp only [List.length_cons]
    omega
  | case5 c rest hq hu he hc =>
    rw [body?.eq_5 _ _ hq hu he, if_pos hc] at h
    cases h
  | case6 c rest hq hu he hc ih =>
    rw [body?.eq_5 _ _ hq hu he, if_neg hc] at h
    simp only [Option.bind_eq_bind, Option.bind_eq_some_iff] at h
    obtain ⟨⟨g, r⟩, hg, h⟩ := h
    simp only [Option.pure_def, Option.some.injEq, Prod.mk.injEq] at h
    have := ih hg
    rw [← h.2]
    simp only [List.length_cons]
    omega

/-! ## Text -/

def isHigh (u : UInt16) : Bool := 0xD800 ≤ u.toNat && u.toNat < 0xDC00

def isLow (u : UInt16) : Bool := 0xDC00 ≤ u.toNat && u.toNat < 0xE000

/-- The characters that glyphs spell.  Two codes that form a surrogate pair are one
character, and half a pair is none. -/
def spell? : List Glyph → Option (List Char)
  | [] => some []
  | .char c :: rest => (spell? rest).map (c :: ·)
  | .code u :: .code v :: rest =>
    if isHigh u && isLow v then
      (spell? rest).map
        (Char.ofNat (0x10000 + 0x400 * (u.toNat - 0xD800) + (v.toNat - 0xDC00)) :: ·)
    else if isHigh u || isLow u then none
    else (spell? (.code v :: rest)).map (Char.ofNat u.toNat :: ·)
  | .code u :: rest =>
    if isHigh u || isLow u then none else (spell? rest).map (Char.ofNat u.toNat :: ·)

def text? (glyphs : List Glyph) : Option String := (spell? glyphs).map String.ofList

/-- The glyph in which a character is written: a control character without a letter
of its own as a code, and any other character as itself. -/
def ofChar (c : Char) : Glyph :=
  if c.toNat < 32 ∧ escape? c = none then .code (UInt16.ofNat c.toNat) else .char c

def ofText (s : String) : List Glyph := s.toList.map ofChar

end Glyph
end Json
end DeviceScript
