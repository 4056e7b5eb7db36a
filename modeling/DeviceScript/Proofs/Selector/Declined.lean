/-
Runs that name no device.

A run of selector tokens with a text and no device, neither its own nor one inside the text,
is no selector.  The pass keeps the first token of such a run and goes on at the second.
Up to the text it finds the same run again, only shorter, and keeps it token by token.  But
behind the text it looks at the groups and indexes of the run without their text.  If nothing
is left of the run there, or if the next text makes another run without a device of what is
left, then all of it is kept.  If the next text has a device, its selector takes what is left;
and if no text comes next, the pass fails in the middle of the run.
-/
import DeviceScript.Proofs.Pass.Run
import DeviceScript.Proofs.Selector.Meaning

namespace DeviceScript

/-- What can stand in a selector run besides its text and its device. -/
def Token.isQualifier : Token → Bool
  | .group | .index _ => true
  | _ => false

theorem Token.isQualifier_iff {t : Token} :
    t.isQualifier = true ↔
      Pass.startsSelector t = true ∧ t.named? = none ∧ t.device? = none := by
  cases t <;> simp [isQualifier, Pass.startsSelector, named?, device?]

/-- A run of selector tokens with a text and without a device. -/
structure PlainRun where
  front : List Token
  name : String
  nested : List Token
  back : List Token
  front_isQualifier : ∀ t ∈ front, t.isQualifier = true
  back_isQualifier : ∀ t ∈ back, t.isQualifier = true
  no_device : ∀ d, .device d ∉ nested

namespace PlainRun

def tokens (r : PlainRun) : List Token := r.front ++ .text r.name r.nested :: r.back

/-- A run without a device goes no further than to these tokens. -/
def Ends (rest : List Token) : Prop :=
  ∀ t ∈ rest.head?, t.isQualifier = false ∧ t.device? = none

/-- Of the tokens of selectors only a text can follow such a run. -/
theorem Ends.exists_text {rest : List Token} (h : Ends rest) {t : Token} (ht : t ∈ rest.head?)
    (hs : Pass.startsSelector t = true) : ∃ s nested, t = .text s nested := by
  obtain ⟨hq, hd⟩ := h t ht
  cases t with
  | text s nested => exact ⟨s, nested, rfl⟩
  | group | index => cases hq
  | device => cases hd
  | _ => cases hs

theorem filterMap_named? {l : List Token} (h : ∀ t ∈ l, t.isQualifier = true) :
    l.filterMap Token.named? = [] := by
  rw [List.filterMap_eq_nil_iff]
  intro t ht
  exact (Token.isQualifier_iff.mp (h t ht)).2.1

theorem filterMap_device? {l : List Token} (h : ∀ t ∈ l, t.isQualifier = true) :
    l.filterMap Token.device? = [] := by
  rw [List.filterMap_eq_nil_iff]
  intro t ht
  exact (Token.isQualifier_iff.mp (h t ht)).2.2

theorem filterMap_named?_tokens (r : PlainRun) :
    r.tokens.filterMap Token.named? = [(r.name, r.nested)] := by
  rw [tokens, List.filterMap_append, filterMap_named? r.front_isQualifier, List.nil_append,
    List.filterMap_cons_some (show Token.named? (.text r.name r.nested) = _ from rfl),
    filterMap_named? r.back_isQualifier]

theorem filterMap_device?_tokens (r : PlainRun) : r.tokens.filterMap Token.device? = [] := by
  rw [tokens, List.filterMap_append, filterMap_device? r.front_isQualifier, List.nil_append,
    List.filterMap_cons_none (show Token.device? (.text r.name r.nested) = none from rfl),
    filterMap_device? r.back_isQualifier]

theorem admissible (r : PlainRun) : SelectorRun.Admissible r.tokens := by
  refine ⟨?_, ?_, ?_⟩
  · intro t ht
    rcases List.mem_append.mp ht with ht | ht
    · exact (Token.isQualifier_iff.mp (r.front_isQualifier t ht)).1
    · rcases List.mem_cons.mp ht with rfl | ht
      · rfl
      · exact (Token.isQualifier_iff.mp (r.back_isQualifier t ht)).1
  · rw [r.filterMap_named?_tokens]
    exact Nat.le_refl 1
  · rw [r.filterMap_device?_tokens]
    exact Nat.zero_le 1

theorem longestFront (r : PlainRun) {rest : List Token} (h : Ends rest) :
    LongestFront SelectorRun.Admissible (r.tokens ++ rest) r.tokens := by
  refine SelectorRun.readsOff.longestFront_append.mpr ⟨r.admissible, fun t ht hgood => ?_⟩
  obtain ⟨-, hstarts, hname, -⟩ := SelectorRun.admissible_concat.mp hgood
  have hsome : (SelectorRun.ofTokens r.tokens).name = some (r.name, r.nested) := by
    rw [SelectorRun.ofTokens, r.filterMap_named?_tokens]
    rfl
  obtain ⟨s, nested, rfl⟩ := h.exists_text ht hstarts
  rw [hsome] at hname
  cases hname rfl

theorem exists_of_admissible {run : List Token} (h : SelectorRun.Admissible run) {s : String}
    {nested : List Token} (hs : .text s nested ∈ run) (hd : ∀ d, .device d ∉ run)
    (hin : ∀ d, .device d ∉ nested) : ∃ r : PlainRun, run = r.tokens := by
  obtain ⟨front, back, rfl⟩ := List.append_of_mem hs
  have hname := h.name
  rw [List.filterMap_append,
    List.filterMap_cons_some (show Token.named? (.text s nested) = _ from rfl),
    List.length_append, List.length_cons] at hname
  have hfront : front.filterMap Token.named? = [] := List.length_eq_zero_iff.mp (by omega)
  have hback : back.filterMap Token.named? = [] := List.length_eq_zero_iff.mp (by omega)
  have hdevice : ∀ t ∈ front ++ .text s nested :: back, t.device? = none := by
    rw [← List.filterMap_eq_nil_iff, List.eq_nil_iff_forall_not_mem]
    intro d hm
    exact hd d (Token.mem_filterMap_device?.mp hm)
  refine ⟨⟨front, s, nested, back, ?_, ?_, hin⟩, rfl⟩
  · intro t ht
    have hm := List.mem_append_left (.text s nested :: back) ht
    exact Token.isQualifier_iff.mpr
      ⟨h.only t hm, List.filterMap_eq_nil_iff.mp hfront t ht, hdevice t hm⟩
  · intro t ht
    have hm := List.mem_append_right front (List.mem_cons_of_mem (.text s nested) ht)
    exact Token.isQualifier_iff.mpr
      ⟨h.only t hm, List.filterMap_eq_nil_iff.mp hback t ht, hdevice t hm⟩

/-- The tokens that a run without a device cannot go on with. -/
theorem ends_of_longestFront (r : PlainRun) {rest : List Token}
    (h : LongestFront SelectorRun.Admissible (r.tokens ++ rest) r.tokens) : Ends rest := by
  obtain ⟨hrun, hstop⟩ := SelectorRun.readsOff.longestFront_append.mp h
  have hnone : (SelectorRun.ofTokens r.tokens).device = none := by
    rw [SelectorRun.ofTokens, r.filterMap_device?_tokens]
    rfl
  intro t ht
  constructor
  · cases hq : t.isQualifier with
    | false => rfl
    | true =>
      obtain ⟨hstarts, hn, hd⟩ := Token.isQualifier_iff.mp hq
      refine absurd (SelectorRun.admissible_concat.mpr ⟨hrun, hstarts, ?_, ?_⟩) (hstop t ht)
      · rw [hn]
        intro hs
        cases hs
      · exact fun _ => hnone
  · cases t with
    | device d =>
      refine absurd (SelectorRun.admissible_concat.mpr ⟨hrun, rfl, ?_, fun _ => hnone⟩) (hstop _ ht)
      intro hn
      cases hn
    | _ => rfl

theorem foldSelector_tokens (r : PlainRun) {rest : List Token} (h : Ends rest) (position : Nat) :
    foldSelector (r.tokens ++ rest) position = .ok (r.tokens.length, none) := by
  have hname : .text r.name r.nested ∈ r.tokens :=
    List.mem_append_right r.front List.mem_cons_self
  refine (SelectorRun.foldSelector_eq_iff (r.longestFront h)).mpr (.plain hname ?_ r.no_device)
  intro d hd
  rw [← Token.mem_filterMap_device?, r.filterMap_device?_tokens] at hd
  cases hd

/-- What the fold makes nothing of is a plain run. -/
theorem exists_of_foldSelector {line : List Token} {position count : Nat}
    (h : foldSelector line position = .ok (count, none)) :
    ∃ (r : PlainRun) (rest : List Token), line = r.tokens ++ rest ∧ Ends rest ∧
      count = r.tokens.length := by
  obtain ⟨run, rest, rfl, hrun⟩ := SelectorRun.readsOff.exists_longestFront line
  cases (SelectorRun.foldSelector_eq_iff hrun).mp h with
  | plain hs hd hin =>
    obtain ⟨r, rfl⟩ := exists_of_admissible hrun.holds hs hd hin
    exact ⟨r, rest, rfl, r.ends_of_longestFront hrun, rfl⟩

/-- Qualifiers without a text to go with cannot be folded. -/
theorem foldSelector_of_ends {back rest : List Token} (hb : ∀ t ∈ back, t.isQualifier = true)
    (hends : Ends rest) (hrest : ∀ s nested, rest.head? ≠ some (.text s nested))
    (position : Nat) :
    foldSelector (back ++ rest) position = .error (.selectorWithoutName position) := by
  have hgood : SelectorRun.Admissible back := by
    refine ⟨fun t ht => (Token.isQualifier_iff.mp (hb t ht)).1, ?_, ?_⟩
    · rw [filterMap_named? hb]
      exact Nat.zero_le 1
    · rw [filterMap_device? hb]
      exact Nat.zero_le 1
  have hlongest : LongestFront SelectorRun.Admissible (back ++ rest) back := by
    refine SelectorRun.readsOff.longestFront_append.mpr ⟨hgood, fun t ht hmore => ?_⟩
    obtain ⟨-, hstarts, -, -⟩ := SelectorRun.admissible_concat.mp hmore
    obtain ⟨s, nested, rfl⟩ := hends.exists_text ht hstarts
    exact hrest s nested ht
  refine SelectorRun.foldSelector_of_name_eq_none hlongest ?_
  rw [SelectorRun.ofTokens, filterMap_named? hb]
  rfl

/-- Where a text comes first behind qualifiers, the front of the run is these qualifiers. -/
theorem front_eq {r : PlainRun} {back rest more : List Token}
    (hb : ∀ t ∈ back, t.isQualifier = true) (hends : Ends rest)
    (h : back ++ rest = r.tokens ++ more) : r.front = back := by
  have hleft : (back ++ rest).takeWhile Token.isQualifier = back :=
    takeWhile_append_of_head hb fun t ht => (hends t ht).1
  have hright : (r.tokens ++ more).takeWhile Token.isQualifier = r.front := by
    rw [tokens, List.append_assoc]
    refine takeWhile_append_of_head r.front_isQualifier fun t ht => ?_
    cases ht
    rfl
  rw [← hright, ← h, hleft]

end PlainRun

/-! ## The pass on a plain run -/

namespace Pass

section

variable {ahead before behind after rest : List Token} {t : Token}

theorem Reaches.declined {count : Nat} (h : selector.Reaches before ahead behind (t :: after))
    (hf : foldSelector (t :: after) 0 = .ok (count, none)) :
    selector.Reaches before ahead (t :: behind) after := by
  cases ht : startsSelector t with
  | false => exact h.keep ht
  | true => exact h.step ht (selector_step_eq_ok.mpr (.inl ⟨count, hf, rfl⟩))

theorem Reaches.folded {count : Nat} {s : Selector}
    (h : selector.Reaches before ahead behind (t :: after)) (ht : startsSelector t = true)
    (hf : foldSelector (t :: after) 0 = .ok (count, some s)) :
    selector.Reaches before ahead (.selector s :: behind) (after.drop (count - 1)) :=
  h.step ht (selector_step_eq_ok.mpr (.inr ⟨count, s, hf, rfl⟩))

theorem Reaches.nameless {e : CompileError}
    (h : selector.Reaches before ahead behind (t :: after)) (ht : startsSelector t = true)
    (hf : foldSelector (t :: after) 0 = .error e) :
    (selector.runFrom before ahead).result = .error (.selectorWithoutName behind.length) := by
  rw [h.result_runFrom, runFrom, if_pos (show selector.starts t = true from ht),
    Logged.result_bind]
  cases hs : (selector.step behind t after).result with
  | error e =>
    rw [selector_step_eq_error hs]
    rfl
  | ok s =>
    obtain ⟨count, hok, -⟩ | ⟨count, found, hok, -⟩ := selector_step_eq_ok.mp hs
    · rw [hf] at hok
      cases hok
    · rw [hf] at hok
      cases hok

/-- The pass comes to stand at the text of a plain run. -/
theorem Reaches.plain_front (r : PlainRun) (hends : PlainRun.Ends rest)
    (h : selector.Reaches before ahead behind (r.tokens ++ rest)) :
    selector.Reaches before ahead (r.front.reverse ++ behind)
      (.text r.name r.nested :: (r.back ++ rest)) := by
  obtain ⟨front, name, nested, back, hfront, hback, hin⟩ := r
  induction front generalizing behind with
  | nil => exact h
  | cons t front ih =>
    have hfold := PlainRun.foldSelector_tokens
      ⟨t :: front, name, nested, back, hfront, hback, hin⟩ hends 0
    have hnext := ih (List.forall_mem_cons.mp hfront).2 (h.declined hfold)
    rw [List.reverse_cons, List.append_assoc]
    exact hnext

/-- The pass comes to stand behind the text of a plain run. -/
theorem Reaches.plain_text (r : PlainRun) (hends : PlainRun.Ends rest)
    (h : selector.Reaches before ahead behind (r.tokens ++ rest)) :
    selector.Reaches before ahead (.text r.name r.nested :: (r.front.reverse ++ behind))
      (r.back ++ rest) := by
  have hfold := PlainRun.foldSelector_tokens
    ⟨[], r.name, r.nested, r.back, nofun, r.back_isQualifier, r.no_device⟩ hends 0
  exact (h.plain_front r hends).declined hfold

theorem length_le_of_reaches (h : selector.Reaches before ahead behind after) :
    before.length ≤ behind.length := by
  induction h with
  | start => exact Nat.le_refl _
  | keep _ _ ih => exact Nat.le_succ_of_le ih
  | step _ _ hs ih =>
    obtain ⟨_, _, rfl⟩ | ⟨_, _, _, rfl⟩ := selector_step_eq_ok.mp hs
    · exact Nat.le_succ_of_le ih
    · exact Nat.le_succ_of_le ih

/-- The pass fails only ahead of where it stands. -/
theorem selector_error_position {e : CompileError}
    (h : (selector.runFrom before ahead).result = .error e) :
    ∃ position, before.length ≤ position ∧ e = .selectorWithoutName position := by
  obtain ⟨last, t, rest, hr, -, hs⟩ := Reaches.start.exists_of_eq_error h
  exact ⟨last.length, length_le_of_reaches hr, selector_step_eq_error hs⟩

/-- A plain run is kept as a whole if it ends with its text, or if what stands behind the text
is the front of another plain run. -/
theorem Reaches.plain_run (r : PlainRun) (hends : PlainRun.Ends rest)
    (h : selector.Reaches before ahead behind (r.tokens ++ rest))
    (hback : r.back = [] ∨ ∃ n, foldSelector (r.back ++ rest) 0 = .ok (n, none)) :
    selector.Reaches before ahead (r.tokens.reverse ++ behind) rest := by
  have htext := h.plain_text r hends
  have hreverse : r.tokens.reverse ++ behind =
      r.back.reverse ++ .text r.name r.nested :: (r.front.reverse ++ behind) := by
    simp [PlainRun.tokens]
  rw [hreverse]
  obtain hnil | ⟨n, hfold⟩ := hback
  · rw [hnil] at htext ⊢
    exact htext
  · obtain ⟨next, more, hnext, hmore, -⟩ := PlainRun.exists_of_foldSelector hfold
    have hfront : next.front = r.back := PlainRun.front_eq r.back_isQualifier hends hnext
    have hrest : rest = .text next.name next.nested :: (next.back ++ more) := by
      rw [PlainRun.tokens, hfront, List.append_assoc, List.append_right_inj] at hnext
      exact hnext
    rw [hnext] at htext
    rw [hrest, ← hfront]
    exact htext.plain_front next hmore

/-- A plain run that is kept as a whole has nothing behind its text, or the front of another
plain run. -/
theorem Reaches.plain_run_of_kept (r : PlainRun) (hends : PlainRun.Ends rest)
    (h : selector.Reaches before ahead behind (r.tokens ++ rest)) {out : List Token}
    (hout : (selector.runFrom before ahead).result = .ok out)
    (hkept : behind.reverse ++ r.tokens <+: out) :
    r.back = [] ∨ ∃ n, foldSelector (r.back ++ rest) 0 = .ok (n, none) := by
  have htext := h.plain_text r hends
  cases hback : r.back with
  | nil => exact .inl rfl
  | cons t back =>
    have hq : t.isQualifier = true := r.back_isQualifier t (by rw [hback]; exact List.mem_cons_self)
    have hstarts := (Token.isQualifier_iff.mp hq).1
    rw [hback, List.cons_append] at htext
    cases hfold : foldSelector (t :: (back ++ rest)) 0 with
    | error e =>
      rw [htext.nameless hstarts hfold] at hout
      cases hout
    | ok folded =>
      obtain ⟨n, found⟩ := folded
      cases found with
      | none => exact .inr ⟨n, hfold⟩
      | some s =>
        -- The selector stands where the run has a qualifier.
        have hnext := htext.folded hstarts hfold
        rw [hnext.result_runFrom] at hout
        obtain ⟨made, -, rfl⟩ := selector_forward.runFrom_eq_ok.mp hout
        rw [PlainRun.tokens, hback] at hkept
        simp only [List.reverse_cons, List.reverse_append, List.reverse_reverse, List.append_assoc,
          List.prefix_append_right_inj, List.cons_append, List.nil_append,
          List.cons_prefix_cons] at hkept
        rw [hkept.2.1] at hq
        cases hq

end

/-- What becomes of a run without a device where the selector pass comes to it.  With
nothing behind its text, or with another such run there, it is kept as a whole.  Else the
pass fails behind the text, or the run loses what stands there to the next selector. -/
theorem selector_run_plain (line before ahead : List Token) (count : Nat)
    (hreach : selector.Reaches [] line before ahead)
    (hfold : foldSelector ahead before.length = .ok (count, none)) :
    ∃ (r : PlainRun) (rest : List Token), ahead = r.tokens ++ rest ∧ count = r.tokens.length ∧
      let undisturbed := r.back = [] ∨ ∃ n, foldSelector (r.back ++ rest) 0 = .ok (n, none)
      let position := before.length + r.front.length + 1
      (undisturbed → ∀ p, p < before.length + count →
        (selector.run line).result ≠ .error (.selectorWithoutName p)) ∧
      (∀ out, (selector.run line).result = .ok out →
        (before.reverse ++ r.tokens <+: out ↔ undisturbed)) ∧
      (r.back ≠ [] → (∀ s nested, rest.head? ≠ some (.text s nested)) →
        position < before.length + count ∧
          (selector.run line).result = .error (.selectorWithoutName position)) := by
  obtain ⟨r, rest, rfl, hends, rfl⟩ := PlainRun.exists_of_foldSelector hfold
  refine ⟨r, rest, rfl, rfl, ?_, ?_, ?_⟩
  · intro hback p hp h
    have hkept := hreach.plain_run r hends hback
    rw [run, hkept.result_runFrom] at h
    obtain ⟨position, hle, he⟩ := selector_error_position h
    cases he
    rw [List.length_append, List.length_reverse] at hle
    omega
  · intro out hout
    constructor
    · intro hkept
      exact hreach.plain_run_of_kept r hends hout hkept
    · intro hback
      rw [run, (hreach.plain_run r hends hback).result_runFrom] at hout
      obtain ⟨made, -, rfl⟩ := selector_forward.runFrom_eq_ok.mp hout
      rw [List.reverse_append, List.reverse_reverse]
      exact List.prefix_append _ _
  · intro hne hrest
    have htext := hreach.plain_text r hends
    have hnameless := PlainRun.foldSelector_of_ends r.back_isQualifier hends hrest 0
    have hlen : r.tokens.length = r.front.length + 1 + r.back.length := by
      rw [PlainRun.tokens, List.length_append, List.length_cons]
      omega
    have hpos : 0 < r.back.length := List.length_pos_iff.mpr hne
    refine ⟨by omega, ?_⟩
    obtain ⟨t, back, hback⟩ := List.exists_cons_of_ne_nil hne
    have hq : t.isQualifier = true := r.back_isQualifier t (by rw [hback]; exact List.mem_cons_self)
    rw [hback] at htext hnameless
    rw [run, htext.nameless (Token.isQualifier_iff.mp hq).1 hnameless, List.length_cons,
      List.length_append, List.length_reverse, Nat.add_comm r.front.length]

/-- The index between the two texts goes with neither, and both runs are kept. -/
theorem selector_run_plain_two_texts :
    let ahead : List Token := [.group, .text "Deck" [], .index 1, .text "Gate" []]
    selector.Reaches [] (.wait :: ahead) [.wait] ahead ∧ foldSelector ahead 1 = .ok (3, none) ∧
      (selector.run (.wait :: ahead)).result = .ok (.wait :: ahead) ∧
      ∃ (r : PlainRun) (rest : List Token), ahead = r.tokens ++ rest ∧ 3 = r.tokens.length ∧
        (r.back = [] ∨ ∃ n, foldSelector (r.back ++ rest) 0 = .ok (n, none)) := by
  intro ahead
  have hreach : selector.Reaches [] (.wait :: ahead) [.wait] ahead := Reaches.start.keep rfl
  have hfold : foldSelector ahead 1 = .ok (3, none) := rfl
  have hrun : (selector.run (.wait :: ahead)).result = .ok (.wait :: ahead) := by
    with_unfolding_all rfl
  refine ⟨hreach, hfold, hrun, ?_⟩
  obtain ⟨r, rest, hline, hcount, -, hkept, -⟩ :=
    selector_run_plain (.wait :: ahead) [.wait] ahead 3 hreach hfold
  refine ⟨r, rest, hline, hcount, (hkept _ hrun).mp ⟨rest, ?_⟩⟩
  rw [hline, List.append_assoc]
  rfl

/-- A group behind the text of a run without a device makes the pass fail, and an index there
goes to the selector that comes next. -/
theorem selector_run_disturbed :
    let failing : List Token := [.text "Deck" [], .group]
    let losing : List Token := [.text "Deck" [], .index 1, .text "Gate" [], .device .door]
    (foldSelector failing 0 = .ok (2, none) ∧
      (selector.run failing).result = .error (.selectorWithoutName 1)) ∧
    foldSelector losing 0 = .ok (2, none) ∧
      (selector.run losing).result =
        .ok [.text "Deck" [], .selector ⟨.door, false, "Gate", some 1⟩] := by
  intro failing losing
  refine ⟨⟨rfl, ?_⟩, rfl, ?_⟩
  · with_unfolding_all rfl
  · with_unfolding_all rfl

end Pass
end DeviceScript
