/-
The text of a document is read back as the document.

Reading goes in two stages, and each undoes one stage of writing.  The symbols of a text
are found one by one: every symbol but a number says itself where it ends, and a number
ends in front of any symbol that is not a number.  The symbols of a tree build the tree
again in whatever containers are open around it.

Strings come back only if they hold glyphs as they are written, and numbers only if they
have digits where digits are due; `Legible` asks for both.
-/
import DeviceScript.Json.Read

namespace DeviceScript
namespace Json

/-! ## Strings -/

namespace Glyph

/-- The glyph is written so that it is read as itself. -/
def Legible (g : Glyph) : Prop :=
  ∀ c, g = .char c → escape? c = none → 32 ≤ c.toNat

theorem hexValue?_hexDigit (n : Nat) : hexValue? (hexDigit n) = some (n % 16) := by
  have h : ∀ m, m < 16 → hexValue? (Nat.digitChar m) = some m := by decide
  exact h (n % 16) (Nat.mod_lt n (by decide))

theorem unit?_hexDigit (u : UInt16) :
    unit? (hexDigit (u.toNat / 4096)) (hexDigit (u.toNat / 256)) (hexDigit (u.toNat / 16))
      (hexDigit u.toNat) = some u := by
  have hu := u.toNat_lt
  have hsum : 4096 * (u.toNat / 4096 % 16) + 256 * (u.toNat / 256 % 16) +
      16 * (u.toNat / 16 % 16) + u.toNat % 16 = u.toNat := by omega
  simp only [unit?, hexValue?_hexDigit, Option.bind_eq_bind, Option.bind_some, hsum,
    UInt16.ofNat_toNat]
  rfl

theorem escape?_ne_u {c e : Char} (h : escape? c = some e) : e ≠ 'u' := by
  intro he
  have hu := unescape?_of_escape? h
  rw [he] at hu
  cases hu

theorem body?_code (u : UInt16) (rest : List Char) :
    body? ((code u).chars ++ rest) = (body? rest).map fun p => (.code u :: p.1, p.2) := by
  show body? ('\\' :: 'u' :: _ :: _ :: _ :: _ :: rest) = _
  rw [body?, unit?_hexDigit]
  cases body? rest <;> rfl

theorem body?_escaped {c e : Char} (h : escape? c = some e) (rest : List Char) :
    body? ('\\' :: e :: rest) = (body? rest).map fun p => (.char c :: p.1, p.2) := by
  rw [body?.eq_4 _ _ (fun _ _ _ _ _ he _ => escape?_ne_u h he), unescape?_of_escape? h]
  cases body? rest <;> rfl

theorem body?_plain {c : Char} (h : escape? c = none) (hc : 32 ≤ c.toNat) (rest : List Char) :
    body? (c :: rest) = (body? rest).map fun p => (.char c :: p.1, p.2) := by
  have hquote : c ≠ '"' := by
    intro he
    rw [he] at h
    cases h
  have hslash : c ≠ '\\' := by
    intro he
    rw [he] at h
    cases h
  have hnot : ¬ (c = '\\' ∨ c.toNat < 32) := by
    intro hor
    rcases hor with he | hlt
    · exact hslash he
    · omega
  rw [body?.eq_5 _ _ hquote (fun _ _ _ _ _ he _ => hslash he) (fun _ _ he _ => hslash he),
    if_neg hnot]
  cases body? rest <;> rfl

theorem body?_chars {g : Glyph} (hg : g.Legible) (rest : List Char) :
    body? (g.chars ++ rest) = (body? rest).map fun p => (g :: p.1, p.2) := by
  cases g with
  | code u => exact body?_code u rest
  | char c =>
    rw [chars]
    cases h : escape? c with
    | none => exact body?_plain h (hg c rfl h) rest
    | some e => exact body?_escaped h rest

theorem body?_string {s : List Glyph} (hs : ∀ g ∈ s, g.Legible) (rest : List Char) :
    body? (s.flatMap chars ++ '"' :: rest) = some (s, rest) := by
  induction s with
  | nil => rw [List.flatMap_nil, List.nil_append, body?]
  | cons g s ih =>
    obtain ⟨hg, hs⟩ := List.forall_mem_cons.mp hs
    rw [List.flatMap_cons, List.append_assoc, body?_chars hg, ih hs]
    rfl

/-! ### Texts -/

theorem legible_ofChar (c : Char) : (ofChar c).Legible := by
  intro d hd he
  rw [ofChar] at hd
  split at hd
  · cases hd
  · rename_i hn
    cases hd
    by_cases hlt : c.toNat < 32
    · exact absurd ⟨hlt, he⟩ hn
    · omega

theorem legible_ofText (s : String) : ∀ g ∈ ofText s, g.Legible := by
  intro g hg
  obtain ⟨c, -, rfl⟩ := List.mem_map.mp hg
  exact legible_ofChar c

/-- A control character is no half of a surrogate pair. -/
theorem spell?_code {u : UInt16} (hu : u.toNat < 32) (rest : List Glyph) :
    spell? (.code u :: rest) = (spell? rest).map (Char.ofNat u.toNat :: ·) := by
  have hhigh : isHigh u = false := by
    rw [isHigh, Bool.and_eq_false_iff]
    exact .inl (decide_eq_false (by omega))
  have hlow : isLow u = false := by
    rw [isLow, Bool.and_eq_false_iff]
    exact .inl (decide_eq_false (by omega))
  cases rest with
  | nil => simp [spell?, hhigh, hlow]
  | cons g rest =>
    cases g with
    | char c => simp [spell?, hhigh, hlow]
    | code v => simp [spell?, hhigh, hlow]

theorem spell?_ofChar (c : Char) (rest : List Glyph) :
    spell? (ofChar c :: rest) = (spell? rest).map (c :: ·) := by
  rw [ofChar]
  by_cases h : c.toNat < 32 ∧ escape? c = none
  · have hu : (UInt16.ofNat c.toNat).toNat = c.toNat := UInt16.toNat_ofNat_of_lt (by
      have := h.1
      show c.toNat < 65536
      omega)
    rw [if_pos h, spell?_code (by rw [hu]; exact h.1), hu, Char.ofNat_toNat]
  · rw [if_neg h, spell?]

@[simp] theorem text?_ofText (s : String) : text? (ofText s) = some s := by
  have h : ∀ l : List Char, spell? (l.map ofChar) = some l := by
    intro l
    induction l with
    | nil => rfl
    | cons c l ih =>
      rw [List.map_cons, spell?_ofChar, ih]
      rfl
  rw [text?, ofText, h, Option.map_some, String.ofList_toList]

end Glyph

/-! ## Numbers -/

namespace Number

/-- The number has digits where digits are due, and no zero in front of others. -/
structure Legible (n : Number) : Prop where
  whole_ne_nil : n.whole ≠ []
  whole : ∀ c ∈ n.whole, c.isDigit = true
  leading : n.whole.head? = some '0' → n.whole.length = 1
  fraction : ∀ c ∈ n.fraction, c.isDigit = true
  exponent : ∀ negative ds, n.exponent = some (negative, ds) →
    ds ≠ [] ∧ ∀ c ∈ ds, c.isDigit = true

/-- The characters that could go on with a number. -/
def continues (c : Char) : Bool := c.isDigit || c == '.' || c == 'e' || c == 'E'

/-- The text does not go on with the number in front of it. -/
def Stops (rest : List Char) : Prop := ∀ c ∈ rest.head?, continues c = false

theorem digits_append {ds rest : List Char} (hd : ∀ c ∈ ds, c.isDigit = true)
    (hr : ∀ c ∈ rest.head?, c.isDigit = false) : digits (ds ++ rest) = (ds, rest) := by
  have htake : rest.takeWhile Char.isDigit = [] := by
    cases rest with
    | nil => rfl
    | cons c rest => rw [List.takeWhile_cons, hr c rfl]; rfl
  have hdrop : rest.dropWhile Char.isDigit = rest := by
    cases rest with
    | nil => rfl
    | cons c rest => rw [List.dropWhile_cons, hr c rfl]; rfl
  rw [digits, List.takeWhile_append_of_pos hd, List.dropWhile_append_of_pos hd, htake, hdrop,
    List.append_nil]

theorem Stops.digit {rest : List Char} (h : Stops rest) :
    ∀ c ∈ rest.head?, c.isDigit = false := by
  intro c hc
  have := h c hc
  simp only [continues, Bool.or_eq_false_iff] at this
  exact this.1.1.1

theorem exponent?_exponentChars {e : Option (Bool × List Char)} {rest : List Char}
    (he : ∀ negative ds, e = some (negative, ds) → ds ≠ [] ∧ ∀ c ∈ ds, c.isDigit = true)
    (hr : Stops rest) : exponent? (exponentChars e ++ rest) = some (e, rest) := by
  cases e with
  | none =>
    cases rest with
    | nil => rfl
    | cons c rest =>
      have hc := hr c rfl
      have hnot : ¬ (c = 'e' ∨ c = 'E') := by
        intro hor
        rcases hor with rfl | rfl <;> cases hc
      show exponent? (c :: rest) = _
      rw [exponent?, if_neg hnot]
  | some p =>
    obtain ⟨negative, ds⟩ := p
    obtain ⟨hne, hds⟩ := he negative ds rfl
    have hdigits := digits_append hds hr.digit
    cases negative with
    | false =>
      show exponent? ('e' :: '+' :: (ds ++ rest)) = _
      simp [exponent?, Numeral.Literal.sign, hdigits, hne]
    | true =>
      show exponent? ('e' :: '-' :: (ds ++ rest)) = _
      simp [exponent?, Numeral.Literal.sign, hdigits, hne]

/-- What follows the digits after the point does not start with a digit. -/
theorem head_exponentChars {e : Option (Bool × List Char)} {rest : List Char} (hr : Stops rest) :
    ∀ c ∈ (exponentChars e ++ rest).head?, c.isDigit = false ∧ c ≠ '.' := by
  intro c hc
  cases e with
  | none =>
    have h := hr c hc
    simp only [continues, Bool.or_eq_false_iff] at h
    refine ⟨h.1.1.1, fun hdot => ?_⟩
    rw [hdot] at h
    exact absurd h.1.1.2 (by decide)
  | some p =>
    cases hc
    exact ⟨by decide, by decide⟩

theorem fraction?_append {ds rest : List Char} (hd : ∀ c ∈ ds, c.isDigit = true)
    (hr : ∀ c ∈ rest.head?, c.isDigit = false ∧ c ≠ '.') :
    fraction? ((if ds = [] then [] else '.' :: ds) ++ rest) = some (ds, rest) := by
  by_cases hnil : ds = []
  · rw [if_pos hnil, hnil, List.nil_append]
    cases rest with
    | nil => rfl
    | cons c rest =>
      have hdot := (hr c rfl).2
      unfold fraction?
      split
      · rename_i h
        cases h
        exact absurd rfl hdot
      · rfl
  · rw [if_neg hnil]
    show fraction? ('.' :: (ds ++ rest)) = _
    simp [fraction?, digits_append hd fun c hc => (hr c hc).1, hnil]

theorem whole?_append {ds rest : List Char} (hne : ds ≠ []) (hd : ∀ c ∈ ds, c.isDigit = true)
    (hz : ds.head? = some '0' → ds.length = 1) (hr : ∀ c ∈ rest.head?, c.isDigit = false) :
    whole? (ds ++ rest) = some (ds, rest) := by
  have hgood : ¬ (ds = [] ∨ (ds.head? = some '0' ∧ 1 < ds.length)) := by
    intro hor
    rcases hor with h | ⟨h, hlt⟩
    · exact hne h
    · have := hz h
      omega
  rw [whole?, digits_append hd hr]
  exact if_neg hgood

/-- What follows the digits before the point does not start with a digit. -/
theorem whole?_chars {n : Number} (hn : n.Legible) {rest : List Char} (hr : Stops rest) :
    whole? (n.whole ++ ((if n.fraction = [] then [] else '.' :: n.fraction) ++
      (exponentChars n.exponent ++ rest))) = some (n.whole,
      (if n.fraction = [] then [] else '.' :: n.fraction) ++
        (exponentChars n.exponent ++ rest)) := by
  refine whole?_append hn.whole_ne_nil hn.whole hn.leading ?_
  intro c hc
  by_cases hnil : n.fraction = []
  · rw [if_pos hnil] at hc
    exact (head_exponentChars hr c hc).1
  · rw [if_neg hnil] at hc
    cases hc
    decide

theorem read?_chars {n : Number} (hn : n.Legible) {rest : List Char} (hr : Stops rest) :
    read? (n.chars ++ rest) = some (n, rest) := by
  have hfraction := fraction?_append hn.fraction (head_exponentChars (e := n.exponent) hr)
  have hexponent := exponent?_exponentChars hn.exponent hr
  have hwhole := whole?_chars hn hr
  obtain ⟨negative, whole, fraction, exponent⟩ := n
  cases negative with
  | true => simp [read?, chars, hwhole, hfraction, hexponent]
  | false =>
    obtain ⟨c, ds, rfl⟩ := List.exists_cons_of_ne_nil hn.whole_ne_nil
    have hc : c ≠ '-' := by
      rintro rfl
      exact absurd (hn.whole '-' (by simp)) (by decide)
    simp only [List.cons_append] at hwhole
    simp [read?, chars, hwhole, hfraction, hexponent, hc]

end Number

/-! ## Symbols -/

namespace Symbol

/-- The symbol is written so that it is read as itself. -/
def Legible : Symbol → Prop
  | .number n => n.Legible
  | .string s => ∀ g ∈ s, g.Legible
  | _ => True

def isNumber : Symbol → Bool
  | .number _ => true
  | _ => false

/-- The symbols are legible, and no number stands in front of another. -/
def Spaced : List Symbol → Prop
  | [] => True
  | s :: rest =>
    s.Legible ∧ (s.isNumber = true → ∀ t ∈ rest.head?, t.isNumber = false) ∧ Spaced rest

/-- The characters with which a number starts. -/
def startsNumber (c : Char) : Bool := c.isDigit || c == '-'

theorem ne_of_startsNumber {c d : Char} (hc : startsNumber c = true)
    (hd : startsNumber d = false) : c ≠ d := by
  intro he
  rw [he, hd] at hc
  cases hc

theorem isSpace_of_startsNumber {c : Char} (hc : startsNumber c = true) : isSpace c = false := by
  have hne := fun d => @ne_of_startsNumber c d hc
  simp [isSpace, hne ' ' (by decide), hne '\n' (by decide), hne '\t' (by decide),
    hne '\r' (by decide)]

theorem first?_of_startsNumber {c : Char} (hc : startsNumber c = true) (rest : List Char) :
    first? c rest = (Number.read? (c :: rest)).map fun p => (.number p.1, p.2) := by
  have hne := fun d => @ne_of_startsNumber c d hc
  have hmark : mark? c = none := by
    simp [mark?, hne '\x7b' (by decide), hne '\x7d' (by decide), hne '[' (by decide),
      hne ']' (by decide), hne ':' (by decide), hne ',' (by decide)]
  have hnumber : c = '-' ∨ c.isDigit = true := by
    rw [startsNumber, Bool.or_eq_true, beq_iff_eq] at hc
    exact hc.symm
  simp [first?, hmark, hne '"' (by decide), hnumber]

theorem startsNumber_chars {n : Number} (hn : n.Legible) :
    ∃ c rest, n.chars = c :: rest ∧ startsNumber c = true := by
  obtain ⟨c, ds, hw⟩ := List.exists_cons_of_ne_nil hn.whole_ne_nil
  have hc : c.isDigit = true := hn.whole c (by rw [hw]; exact List.mem_cons_self)
  rw [Number.chars, hw]
  cases n.negative with
  | true => exact ⟨'-', _, rfl, rfl⟩
  | false => exact ⟨c, _, rfl, by rw [startsNumber, hc]; rfl⟩

theorem read?_cons {c : Char} {rest after : List Char} {s : Symbol} (hc : isSpace c = false)
    (h : first? c rest = some (s, after)) : read? (c :: rest) = (read? after).map (s :: ·) := by
  rw [read?, if_neg (by rw [hc]; decide)]
  split
  · rename_i h'
    rw [h] at h'
    cases h'
  · rename_i h'
    rw [h] at h'
    cases h'
    rfl

/-- Every symbol but a number says itself where it ends. -/
theorem read?_chars {s : Symbol} (hs : s.Legible) {rest : List Char}
    (hr : s.isNumber = true → Number.Stops rest) :
    read? (s.chars ++ rest) = (read? rest).map (s :: ·) := by
  cases s with
  | openBrace => exact read?_cons rfl rfl
  | closeBrace => exact read?_cons rfl rfl
  | openBracket => exact read?_cons rfl rfl
  | closeBracket => exact read?_cons rfl rfl
  | colon => exact read?_cons rfl rfl
  | comma => exact read?_cons rfl rfl
  | null => exact read?_cons rfl rfl
  | bool b =>
    cases b with
    | true => exact read?_cons rfl rfl
    | false => exact read?_cons rfl rfl
  | string s =>
    refine read?_cons rfl ?_
    show (Glyph.body? (s.flatMap Glyph.chars ++ ['"'] ++ rest)).map _ = _
    rw [List.append_assoc]
    show (Glyph.body? (s.flatMap Glyph.chars ++ '"' :: rest)).map _ = _
    rw [Glyph.body?_string hs]
    rfl
  | number n =>
    obtain ⟨c, ds, hn, hc⟩ := startsNumber_chars hs
    have hread := Number.read?_chars hs (hr rfl)
    rw [hn] at hread
    show read? (n.chars ++ rest) = _
    rw [hn]
    refine read?_cons (isSpace_of_startsNumber hc) ?_
    rw [first?_of_startsNumber hc]
    show (Number.read? (c :: ds ++ rest)).map _ = _
    rw [hread]
    rfl

/-- A number ends in front of any symbol that is not a number. -/
theorem stops_flatMap {l : List Symbol} (hl : ∀ s ∈ l.head?, s.isNumber = false) :
    Number.Stops (l.flatMap chars) := by
  intro c hc
  cases l with
  | nil => cases hc
  | cons s l =>
    have hs := hl s rfl
    cases s with
    | number n => cases hs
    | bool b => cases b <;> cases hc <;> decide
    | _ => cases hc; decide

theorem read?_flatMap {l : List Symbol} (hl : Spaced l) : read? (l.flatMap chars) = some l := by
  induction l with
  | nil => rw [List.flatMap_nil, read?]
  | cons s l ih =>
    obtain ⟨hs, hnext, hl⟩ := hl
    rw [List.flatMap_cons, read?_chars hs fun hn => stops_flatMap (hnext hn), ih hl]
    rfl

end Symbol

/-! ## Trees -/

/-- The document holds only legible strings and numbers. -/
inductive Legible : Json → Prop where
  | null : Legible .null
  | bool (b : Bool) : Legible (.bool b)
  | number {n : Number} (hn : n.Legible) : Legible (.number n)
  | string {s : List Glyph} (hs : ∀ g ∈ s, g.Legible) : Legible (.string s)
  | array {l : List Json} (hl : ∀ j ∈ l, Legible j) : Legible (.array l)
  | object {l : List (List Glyph × Json)} (hkeys : ∀ p ∈ l, ∀ g ∈ p.1, g.Legible)
      (hl : ∀ p ∈ l, Legible p.2) : Legible (.object l)

namespace Symbol

/-- Spaced symbols that can follow a number. -/
def Breaks (l : List Symbol) : Prop := Spaced l ∧ ∀ t ∈ l.head?, t.isNumber = false

theorem Spaced.cons {s : Symbol} {rest : List Symbol} (hn : s.isNumber = false) (hs : s.Legible)
    (hr : Spaced rest) : Spaced (s :: rest) := by
  refine ⟨hs, fun h => ?_, hr⟩
  rw [hn] at h
  cases h

theorem Breaks.cons {s : Symbol} {rest : List Symbol} (hn : s.isNumber = false) (hs : s.Legible)
    (hr : Spaced rest) : Breaks (s :: rest) := by
  refine ⟨hr.cons hn hs, fun t ht => ?_⟩
  cases ht
  exact hn

theorem breaks_moreElements {l : List Json}
    (hl : ∀ j ∈ l, ∀ rest, Breaks rest → Spaced (j.symbols ++ rest)) {rest : List Symbol}
    (hr : Spaced rest) : Breaks (moreElements l ++ rest) := by
  induction l with
  | nil => exact .cons rfl trivial hr
  | cons j l ih =>
    obtain ⟨hj, hl⟩ := List.forall_mem_cons.mp hl
    rw [moreElements, List.cons_append, List.append_assoc]
    exact .cons rfl trivial (hj _ (ih hl))

theorem breaks_moreFields {l : List (List Glyph × Json)}
    (hkeys : ∀ p ∈ l, ∀ g ∈ p.1, g.Legible)
    (hl : ∀ p ∈ l, ∀ rest, Breaks rest → Spaced (p.2.symbols ++ rest)) {rest : List Symbol}
    (hr : Spaced rest) : Breaks (moreFields l ++ rest) := by
  induction l with
  | nil => exact .cons rfl trivial hr
  | cons p l ih =>
    obtain ⟨k, j⟩ := p
    obtain ⟨hj, hl⟩ := List.forall_mem_cons.mp hl
    obtain ⟨hk, hkeys⟩ := List.forall_mem_cons.mp hkeys
    have hvalue : Spaced (j.symbols ++ (moreFields l ++ rest)) := hj _ (ih hkeys hl)
    rw [moreFields, List.cons_append, List.cons_append, List.cons_append, List.append_assoc]
    exact .cons rfl trivial (.cons rfl hk (.cons rfl trivial hvalue))

theorem spaced_symbols {j : Json} (hj : j.Legible) :
    ∀ rest, Breaks rest → Spaced (j.symbols ++ rest) := by
  induction hj with
  | null => exact fun rest hr => .cons rfl trivial hr.1
  | bool b => exact fun rest hr => .cons rfl trivial hr.1
  | string hs => exact fun rest hr => .cons rfl hs hr.1
  | number hn => exact fun rest hr => ⟨hn, fun _ => hr.2, hr.1⟩
  | @array l hl ih =>
    intro rest hr
    rw [symbols, List.cons_append]
    refine .cons rfl trivial ?_
    cases l with
    | nil => exact .cons rfl trivial hr.1
    | cons j l =>
      obtain ⟨hj, ih⟩ := List.forall_mem_cons.mp ih
      rw [elementSymbols, List.append_assoc]
      exact hj _ (breaks_moreElements ih hr.1)
  | @object l hkeys hl ih =>
    intro rest hr
    rw [symbols, List.cons_append]
    refine .cons rfl trivial ?_
    cases l with
    | nil => exact .cons rfl trivial hr.1
    -- The fields of an object are those behind a comma, less the first comma.
    | cons p l => exact (breaks_moreFields hkeys ih hr.1).1.2.2

end Symbol

namespace Reader

/-- A value may stand wherever its first symbol is not the end of the array. -/
theorem step?_valueOrClose {s : Symbol} (hs : s ≠ .closeBracket) (stack : List Frame) :
    step? ⟨.valueOrClose, stack⟩ s = step? ⟨.value, stack⟩ s := by
  cases s with
  | closeBracket => exact absurd rfl hs
  | _ => rfl

theorem symbols_cons (j : Json) : ∃ s rest, j.symbols = s :: rest ∧ s ≠ .closeBracket := by
  cases j <;>
    (refine ⟨_, _, rfl, ?_⟩
     intro h
     cases h)

/-- The reader takes the symbols of the document as one value, whatever is open around it. -/
def Takes (j : Json) : Prop :=
  ∀ stack rest, (j.symbols ++ rest).foldlM step? ⟨.value, stack⟩ =
    rest.foldlM step? ⟨.next j, stack⟩

theorem foldlM_moreElements {l : List Json} (hl : ∀ j ∈ l, Takes j) (v : Json)
    (done : List Json) (stack : List Frame) (rest : List Symbol) :
    (moreElements l ++ rest).foldlM step? ⟨.next v, .array done :: stack⟩ =
      rest.foldlM step? ⟨.next (.array ((v :: done).reverse ++ l)), stack⟩ := by
  induction l generalizing v done with
  | nil =>
    rw [List.append_nil]
    rfl
  | cons j l ih =>
    obtain ⟨hj, hl⟩ := List.forall_mem_cons.mp hl
    rw [moreElements, List.cons_append, List.append_assoc]
    show (j.symbols ++ (moreElements l ++ rest)).foldlM step?
      ⟨.value, .array (v :: done) :: stack⟩ = _
    rw [hj, ih hl, List.reverse_cons, List.append_assoc]
    rfl

theorem foldlM_moreFields {l : List (List Glyph × Json)} (hl : ∀ p ∈ l, Takes p.2)
    (k : List Glyph) (v : Json) (done : List (List Glyph × Json)) (stack : List Frame)
    (rest : List Symbol) :
    (moreFields l ++ rest).foldlM step? ⟨.next v, .field done k :: stack⟩ =
      rest.foldlM step? ⟨.next (.object (((k, v) :: done).reverse ++ l)), stack⟩ := by
  induction l generalizing k v done with
  | nil =>
    rw [List.append_nil]
    rfl
  | cons p l ih =>
    obtain ⟨key, j⟩ := p
    obtain ⟨hj, hl⟩ := List.forall_mem_cons.mp hl
    rw [moreFields, List.cons_append, List.cons_append, List.cons_append, List.append_assoc]
    show (j.symbols ++ (moreFields l ++ rest)).foldlM step?
      ⟨.value, .field ((k, v) :: done) key :: stack⟩ = _
    rw [hj, ih hl, List.reverse_cons, List.append_assoc]
    rfl

theorem takes {j : Json} (hj : j.Legible) : Takes j := by
  induction hj with
  | null => exact fun stack rest => rfl
  | bool b => exact fun stack rest => rfl
  | number hn => exact fun stack rest => rfl
  | string hs => exact fun stack rest => rfl
  | @array l hl ih =>
    intro stack rest
    show (elementSymbols l ++ rest).foldlM step? ⟨.valueOrClose, .array [] :: stack⟩ = _
    cases l with
    | nil => rfl
    | cons j l =>
      obtain ⟨hj, ih⟩ := List.forall_mem_cons.mp ih
      obtain ⟨s, more, hs, hclose⟩ := symbols_cons j
      have hfirst := hj (.array [] :: stack) (moreElements l ++ rest)
      rw [elementSymbols, List.append_assoc]
      rw [hs, List.cons_append, List.foldlM_cons] at hfirst ⊢
      rw [step?_valueOrClose hclose, hfirst, foldlM_moreElements ih]
      rfl
  | @object l hkeys hl ih =>
    intro stack rest
    show (fieldSymbols l ++ rest).foldlM step? ⟨.keyOrClose, .object [] :: stack⟩ = _
    cases l with
    | nil => rfl
    | cons p l =>
      obtain ⟨key, j⟩ := p
      obtain ⟨hj, ih⟩ := List.forall_mem_cons.mp ih
      rw [fieldSymbols, List.cons_append, List.cons_append, List.append_assoc]
      show (j.symbols ++ (moreFields l ++ rest)).foldlM step?
        ⟨.value, .field [] key :: stack⟩ = _
      rw [hj, foldlM_moreFields ih]
      rfl

end Reader

/-- A legible document is read back from its text. -/
theorem read?_chars {j : Json} (hj : j.Legible) : read? j.chars = some j := by
  have hspaced : Symbol.Spaced j.symbols := by
    have h := Symbol.spaced_symbols hj [] ⟨trivial, fun _ ht => by cases ht⟩
    rwa [List.append_nil] at h
  have hfold : j.symbols.foldlM Reader.step? ⟨.value, []⟩ = some ⟨.next j, []⟩ := by
    have h := Reader.takes hj [] []
    rwa [List.append_nil] at h
  rw [read?, chars, Symbol.read?_flatMap hspaced, Option.bind_some, ofSymbols?, hfold]
  rfl

end Json
end DeviceScript
