/-
Reading JSON documents.

`Symbol.read?` cuts a text into symbols, and `Reader.step?` builds the tree from
the symbols one by one.  The containers that are open are held in a stack, so the
reader is one fold over the symbols and sets no bound on how deep they nest.
-/
import DeviceScript.Json.Basic

namespace DeviceScript
namespace Json

namespace Symbol

/-- The blanks between symbols. -/
def isSpace (c : Char) : Bool := c == ' ' || c == '\n' || c == '\t' || c == '\r'

/-- The marks, each a symbol of one character. -/
def mark? (c : Char) : Option Symbol :=
  if c = '\x7b' then some .openBrace
  else if c = '\x7d' then some .closeBrace
  else if c = '[' then some .openBracket
  else if c = ']' then some .closeBracket
  else if c = ':' then some .colon
  else if c = ',' then some .comma
  else none

/-- The words, with what follows them. -/
def word? : List Char → Option (Symbol × List Char)
  | 'n' :: 'u' :: 'l' :: 'l' :: rest => some (.null, rest)
  | 't' :: 'r' :: 'u' :: 'e' :: rest => some (.bool true, rest)
  | 'f' :: 'a' :: 'l' :: 's' :: 'e' :: rest => some (.bool false, rest)
  | _ => none

/-- The first symbol of a text that starts with no blank, and the rest. -/
def first? (c : Char) (rest : List Char) : Option (Symbol × List Char) :=
  match mark? c with
  | some m => some (m, rest)
  | none =>
    if c = '"' then (Glyph.body? rest).map fun p => (.string p.1, p.2)
    else if c = '-' ∨ c.isDigit then (Number.read? (c :: rest)).map fun p => (.number p.1, p.2)
    else word? (c :: rest)

end Symbol

namespace Symbol

theorem length_of_first? {c : Char} {rest after : List Char} {s : Symbol}
    (h : first? c rest = some (s, after)) : after.length < (c :: rest).length := by
  unfold first? at h
  split at h
  · simp only [Option.some.injEq, Prod.mk.injEq] at h
    simp [h.2]
  · split at h
    · obtain ⟨⟨g, r⟩, hg, h⟩ := Option.map_eq_some_iff.mp h
      have := Glyph.length_of_body? hg
      simp only [Prod.mk.injEq] at h
      rw [← h.2]
      simp only [List.length_cons]
      omega
    · split at h
      · obtain ⟨⟨n, r⟩, hn, h⟩ := Option.map_eq_some_iff.mp h
        have := Number.length_of_read? hn
        simp only [Prod.mk.injEq] at h
        rw [← h.2]
        exact this
      · unfold word? at h
        split at h
        all_goals first
          | (rename_i e
             simp only [Option.some.injEq, Prod.mk.injEq] at h
             rw [e, ← h.2]
             simp only [List.length_cons]
             omega)
          | cases h

/-- The symbols of a text. -/
def read? (s : List Char) : Option (List Symbol) :=
  match s with
  | [] => some []
  | c :: rest =>
    if isSpace c then read? rest
    else
      match _h : first? c rest with
      | none => none
      | some (symbol, after) => (read? after).map (symbol :: ·)
termination_by s.length
decreasing_by
  · simp
  · exact length_of_first? _h

end Symbol

/-! ## Building the tree -/

/-- A container that is not closed yet, its parts so far last first. -/
inductive Frame where
  | array (done : List Json)
  | object (done : List (List Glyph × Json))
  /-- An object with the key of the field to come. -/
  | field (done : List (List Glyph × Json)) (key : List Glyph)

/-- What the reader has to see next. -/
inductive Expect where
  | value
  /-- The first element of an array, or its end. -/
  | valueOrClose
  | key
  /-- The first field of an object, or its end. -/
  | keyOrClose
  | colon
  /-- A value is complete. -/
  | next (value : Json)

structure Reader where
  expect : Expect := .value
  stack : List Frame := []

namespace Reader

/-- A value or the start of one. -/
def begin? (stack : List Frame) : Symbol → Option Reader
  | .null => some ⟨.next .null, stack⟩
  | .bool b => some ⟨.next (.bool b), stack⟩
  | .number n => some ⟨.next (.number n), stack⟩
  | .string s => some ⟨.next (.string s), stack⟩
  | .openBracket => some ⟨.valueOrClose, .array [] :: stack⟩
  | .openBrace => some ⟨.keyOrClose, .object [] :: stack⟩
  | _ => none

/-- The key of a field. -/
def key? : List Frame → Symbol → Option Reader
  | .object done :: stack, .string k => some ⟨.colon, .field done k :: stack⟩
  | _, _ => none

def step? (r : Reader) (s : Symbol) : Option Reader :=
  match r.expect with
  | .value => begin? r.stack s
  | .valueOrClose =>
    match s, r.stack with
    | .closeBracket, .array done :: stack => some ⟨.next (.array done.reverse), stack⟩
    | s, stack => begin? stack s
  | .key => key? r.stack s
  | .keyOrClose =>
    match s, r.stack with
    | .closeBrace, .object done :: stack => some ⟨.next (.object done.reverse), stack⟩
    | s, stack => key? stack s
  | .colon => if s = .colon then some ⟨.value, r.stack⟩ else none
  | .next v =>
    match s, r.stack with
    | .comma, .array done :: stack => some ⟨.value, .array (v :: done) :: stack⟩
    | .closeBracket, .array done :: stack =>
      some ⟨.next (.array (v :: done).reverse), stack⟩
    | .comma, .field done k :: stack => some ⟨.key, .object ((k, v) :: done) :: stack⟩
    | .closeBrace, .field done k :: stack =>
      some ⟨.next (.object ((k, v) :: done).reverse), stack⟩
    | _, _ => none

/-- The document, once nothing is open. -/
def result? : Reader → Option Json
  | ⟨.next v, []⟩ => some v
  | _ => none

end Reader

/-- The document that a list of symbols spells. -/
def ofSymbols? (symbols : List Symbol) : Option Json :=
  (symbols.foldlM Reader.step? {}).bind Reader.result?

/-- The document that a text spells. -/
def read? (s : List Char) : Option Json := (Symbol.read? s).bind ofSymbols?

end Json
end DeviceScript
