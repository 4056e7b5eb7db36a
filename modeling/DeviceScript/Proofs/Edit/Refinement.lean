/-
Work in place, and computations that hand out new lines.

An edit refines a computation on a given line: it has a result there, so that it stays
inside of the line and its loops end, and the result, the log and the line it leaves are
those of the computation.  The two are compared from the front.  A failure and an event
have their counterpart in the computation; reading and replacing tokens have none, and
only say on which line the comparison goes on.
-/
import DeviceScript.Edit.Basic
import DeviceScript.Pass.Basic

namespace DeviceScript

namespace Logged

variable {α β : Type}

theorem events_bind {x : Logged α} {f : α → Logged β} {a : α} (h : x.result = .ok a) :
    (x >>= f).events = x.events ++ (f a).events := by
  obtain ⟨events, r⟩ := x
  cases h
  rfl

theorem events_bind_of_error {x : Logged α} {f : α → Logged β} {e : CompileError}
    (h : x.result = .error e) : (x >>= f).events = x.events := by
  obtain ⟨events, r⟩ := x
  cases h
  rfl

end Logged

namespace Edit

variable {α β γ δ : Type}

/-- The edit turns a line into another one, and logs nothing. -/
def Does (m : Edit α) (line : List Token) (a : α) (out : List Token) : Prop :=
  ∀ events, m ⟨line, events⟩ = some (.ok a, ⟨out, events⟩)

/-- On a line, the edit has a result, and does what the computation does: it logs the same, it
fails with the same error, and otherwise `view` says what it gives and what becomes of the
line. -/
structure Refines (m : Edit α) (line : List Token) (l : Logged β) (view : β → α × List Token) :
    Prop where
  ok : ∀ {b}, l.result = .ok b → ∀ events,
    m ⟨line, events⟩ = some (.ok (view b).1, ⟨(view b).2, events ++ l.events⟩)
  error : ∀ {e}, l.result = .error e → ∀ events,
    ∃ left, m ⟨line, events⟩ = some (.error e, ⟨left, events ++ l.events⟩)

theorem Refines.exists_result {m : Edit α} {line : List Token} {l : Logged β}
    {view : β → α × List Token} (h : m.Refines line l view) (events : List Event) :
    ∃ result work, m ⟨line, events⟩ = some (result, work) := by
  cases hl : l.result with
  | ok b => exact ⟨_, _, h.ok hl events⟩
  | error e =>
    obtain ⟨left, hleft⟩ := h.error hl events
    exact ⟨_, _, hleft⟩

/-! ## Chains -/

theorem bind_ok {x : Edit α} {f : α → Edit β} {w u : Work} {a : α} (h : x w = some (.ok a, u)) :
    (x >>= f) w = f a u := by
  show (x w).bind _ = _
  rw [h]
  rfl

theorem bind_error {x : Edit α} {f : α → Edit β} {w u : Work} {e : CompileError}
    (h : x w = some (.error e, u)) : (x >>= f) w = some (.error e, u) := by
  show (x w).bind _ = _
  rw [h]
  rfl

section

variable {line out mid : List Token} {a : α}

theorem Does.bind {x : Edit α} {f : α → Edit β} {b : β} (h : x.Does line a mid)
    (hf : (f a).Does mid b out) : (x >>= f).Does line b out := by
  intro events
  rw [bind_ok (h events)]
  exact hf events

variable {l : Logged β}

/-- What an edit does in front may have no counterpart. -/
theorem Does.refines {x : Edit α} {f : α → Edit γ} {view : β → γ × List Token}
    (h : x.Does line a mid) (hf : (f a).Refines mid l view) : (x >>= f).Refines line l view where
  ok hb events := by
    rw [bind_ok (h events)]
    exact hf.ok hb events
  error he events := by
    rw [bind_ok (h events)]
    exact hf.error he events

theorem Refines.bind {x : Edit α} {f : α → Edit γ} {g : β → Logged δ} {view : β → α × List Token}
    {view' : δ → γ × List Token} (h : x.Refines line l view)
    (hf : ∀ b, l.result = .ok b → (f (view b).1).Refines (view b).2 (g b) view') :
    (x >>= f).Refines line (l >>= g) view' where
  ok hd events := by
    obtain ⟨b, hb, hg⟩ := Logged.result_bind_eq_ok.mp hd
    rw [bind_ok (h.ok hb events), (hf b hb).ok hg, Logged.events_bind hb, List.append_assoc]
  error he events := by
    rcases Logged.result_bind_eq_error.mp he with hl | ⟨b, hb, hg⟩
    · obtain ⟨left, hx⟩ := h.error hl events
      exact ⟨left, by rw [bind_error hx, Logged.events_bind_of_error hl]⟩
    · obtain ⟨left, hx⟩ := (hf b hb).error hg (events ++ l.events)
      refine ⟨left, ?_⟩
      rw [bind_ok (h.ok hb events), hx, Logged.events_bind hb, List.append_assoc]

/-- What an edit does at the end may have no counterpart either. -/
theorem Refines.followed {x : Edit α} {f : α → Edit γ} {view : β → α × List Token}
    {view' : β → γ × List Token} (h : x.Refines line l view)
    (hf : ∀ b, l.result = .ok b → (f (view b).1).Does (view b).2 (view' b).1 (view' b).2) :
    (x >>= f).Refines line l view' where
  ok hb events := by
    rw [bind_ok (h.ok hb events)]
    exact hf _ hb _
  error he events := by
    obtain ⟨left, hx⟩ := h.error he events
    exact ⟨left, bind_error hx⟩

theorem Does.refines_pure {x : Edit α} {b : β} {view : β → α × List Token}
    (h : x.Does line a out) (hview : view b = (a, out)) : x.Refines line (pure b) view where
  ok hb events := by
    cases hb
    rw [h events, hview]
    exact congrArg (fun x => some (Except.ok a, Work.mk out x)) (List.append_nil events).symm
  error he := by cases he

theorem refines_pure {b : β} {view : β → α × List Token} (hview : view b = (a, line)) :
    (pure a : Edit α).Refines line (pure b) view := by
  have h : (pure a : Edit α).Does line a line := fun _ => rfl
  exact h.refines_pure hview

/-- What is left of the computation may be there for its value only. -/
theorem Refines.returning {x : Edit α} {g : β → Logged δ} {view : β → α × List Token}
    {view' : δ → α × List Token} (h : x.Refines line l view)
    (hg : ∀ b, l.result = .ok b → (pure (view b).1 : Edit α).Refines (view b).2 (g b) view') :
    x.Refines line (l >>= g) view' := by
  have hbind := h.bind hg
  rwa [bind_pure] at hbind

theorem refines_fail {e : CompileError} {view : β → α × List Token} :
    (fail e : Edit α).Refines line (Logged.fail e) view where
  ok hb := by cases hb
  error he events := by
    cases he
    exact ⟨line, congrArg (fun x => some (Except.error e, Work.mk line x))
      (List.append_nil events).symm⟩

theorem refines_ofLogged : (ofLogged l).Refines line l fun b => (b, line) where
  ok hb events := by
    obtain ⟨log, r⟩ := l
    cases hb
    rfl
  error he events := by
    obtain ⟨log, r⟩ := l
    cases he
    exact ⟨line, rfl⟩

theorem refines_emit (e : Event) : (emit e).Refines line (Logged.emit e) fun u => (u, line) where
  ok hb events := by cases hb; rfl
  error he := by cases he

end

/-! ## Reading and replacing -/

theorem does_length (line : List Token) : length.Does line line.length line := fun _ => rfl

theorem does_token? (tokens : List Token) (index : Nat) :
    (token? index).Does tokens tokens[index]? tokens := fun _ => rfl

theorem does_token {tokens : List Token} {index : Nat} {t : Token} (h : tokens[index]? = some t) :
    (token index).Does tokens t tokens := by
  refine (does_token? tokens index).bind ?_
  rw [h]
  exact fun _ => rfl

section

variable {front back : List Token} {t : Token} {index last : Nat}

theorem length_snoc (hi : front.length = index) : (front ++ [t]).length = index + 1 := by
  rw [List.length_append, hi, List.length_singleton]

theorem getElem?_append_at (hi : front.length = index) : (front ++ back)[index]? = back.head? := by
  rw [← hi, List.getElem?_append_right (Nat.le_refl _), Nat.sub_self, List.head?_eq_getElem?]

theorem does_rest_append (hi : front.length = index) :
    (rest index).Does (front ++ back) back (front ++ back) := by
  intro events
  show some (Except.ok ((front ++ back).drop index), Work.mk (front ++ back) events) = _
  rw [← hi, List.drop_left]

theorem does_slice_append (old : List Token) (hi : front.length = index)
    (hl : last = index + old.length) :
    (slice index last).Does (front ++ (old ++ back)) old (front ++ (old ++ back)) := by
  have hin : index ≤ last ∧ last ≤ (front ++ (old ++ back)).length := by
    rw [List.length_append, List.length_append]
    omega
  have hold : ((front ++ (old ++ back)).take last).drop index = old := by
    rw [hl, ← hi, List.take_length_add_append, List.drop_left, List.take_left]
  intro events
  show (if index ≤ last ∧ last ≤ _ then _ else outside : Edit (List Token)) _ = _
  rw [if_pos hin]
  exact congrArg (fun x => some (Except.ok x, Work.mk _ events)) hold

theorem does_slice_end (hi : front.length = index) :
    (slice index (front ++ back).length).Does (front ++ back) back (front ++ back) := by
  have hl : (front ++ back).length = index + back.length := by rw [List.length_append, hi]
  have h : (slice index _).Does (front ++ (back ++ [])) back (front ++ (back ++ [])) :=
    does_slice_append back hi hl
  rwa [List.append_nil] at h

theorem does_splice_append (old : List Token) (hi : front.length = index)
    (hl : last = index + old.length) (tokens : List Token) :
    (splice index last tokens).Does (front ++ (old ++ back)) old (front ++ (tokens ++ back)) := by
  refine (does_slice_append old hi hl).bind fun events => ?_
  have hout : (front ++ (old ++ back)).take index ++ tokens ++ (front ++ (old ++ back)).drop last =
      front ++ (tokens ++ back) := by
    rw [hl, ← hi, List.take_left, List.drop_length_add_append, List.drop_left, List.append_assoc]
  show some (Except.ok old, Work.mk _ events) = _
  rw [hout]

theorem does_insert_append (hi : front.length = index) :
    (insert index t).Does (front ++ back) () (front ++ t :: back) :=
  (does_splice_append [] hi rfl [t]).bind fun _ => rfl

theorem does_remove_append (hi : front.length = index) :
    (remove index).Does (front ++ t :: back) t (front ++ back) := by
  refine (does_token (getElem?_append_at hi)).bind ?_
  exact (does_splice_append [t] hi rfl []).bind fun _ => rfl

/-- Passing over tokens stops at the first one that fails the test. -/
theorem skipIn_append (test : Token → Bool) (hi : front.length = index) :
    skipIn test (front ++ back) index = index + (back.takeWhile test).length := by
  induction back generalizing front index with
  | nil =>
    have hend : ¬ index < (front ++ []).length := by
      rw [List.append_nil, hi]
      exact Nat.lt_irrefl _
    rw [skipIn, dif_neg hend]
    rfl
  | cons t back ih =>
    have hin : index < (front ++ t :: back).length := by
      rw [List.length_append, hi, List.length_cons]
      omega
    have ht : (front ++ t :: back)[index] = t := by
      rw [← Option.some_inj, ← List.getElem?_eq_getElem hin]
      exact getElem?_append_at hi
    rw [skipIn, dif_pos hin, ht]
    by_cases htest : test t = true
    · rw [if_pos htest, List.append_cons, ih (length_snoc hi), List.takeWhile_cons_of_pos htest,
        List.length_cons]
      omega
    · rw [if_neg htest, List.takeWhile_cons_of_neg htest]
      rfl

theorem does_skip_append (test : Token → Bool) (hi : front.length = index) :
    (skip test index).Does (front ++ back) (index + (back.takeWhile test).length)
      (front ++ back) := by
  intro events
  show some (Except.ok (skipIn test (front ++ back) index), Work.mk _ events) = _
  rw [skipIn_append test hi]

end

/-! ## Bounds

An edit that reaches outside of the line has no result, whatever comes after. -/

theorem bind_eq_none {x : Edit α} {f : α → Edit β} {w : Work} (h : x w = none) :
    (x >>= f) w = none := by
  show (x w).bind _ = _
  rw [h]
  rfl

theorem token_eq_none_iff {tokens : List Token} {index : Nat} {events : List Event} :
    token index ⟨tokens, events⟩ = none ↔ tokens.length ≤ index := by
  rw [← List.getElem?_eq_none_iff, token, bind_ok (does_token? tokens index events)]
  cases tokens[index]? with
  | none => exact ⟨fun _ => rfl, fun _ => rfl⟩
  | some t => exact ⟨nofun, nofun⟩

theorem slice_eq_none_iff {first last : Nat} {w : Work} :
    slice first last w = none ↔ ¬ (first ≤ last ∧ last ≤ w.line.length) := by
  show (if first ≤ last ∧ last ≤ w.line.length then _ else outside : Edit (List Token)) w = none ↔ _
  by_cases h : first ≤ last ∧ last ≤ w.line.length
  · rw [if_pos h]
    exact ⟨nofun, fun hn => absurd h hn⟩
  · rw [if_neg h]
    exact ⟨fun _ => h, fun _ => rfl⟩

end Edit

/-! ## Passes -/

namespace Editor

open Edit

/-- The editor does in place what the pass does, where `turns` are more than there are tokens
to read. -/
structure Implements (e : Editor) (p : Pass) (turns : Nat) : Prop where
  starts : e.starts = p.starts
  convertNext : ∀ before t after, after.length < turns →
    (e.convertNext before.length).Refines (before.reverse ++ t :: after) (p.step before t after)
      fun s => ((s.behind before).length, (s.behind before).reverse ++ s.ahead after)

variable {e : Editor} {p : Pass} {turns : Nat}

/-- The loop comes to the end of the line, since each step leaves less of it to read. -/
theorem Implements.processFrom (h : e.Implements p turns) (n : Nat) (behind ahead : List Token)
    (hn : ahead.length < n) (ha : ahead.length ≤ turns) :
    (e.processFrom n behind.length).Refines (behind.reverse ++ ahead)
      (p.runFrom behind ahead) fun out => ((), out) := by
  induction n generalizing behind ahead with
  | zero => exact absurd hn (Nat.not_lt_zero _)
  | succ n ih =>
    rw [Editor.processFrom]
    refine (does_length _).refines ?_
    cases ahead with
    | nil =>
      have hend : ¬ behind.length < (behind.reverse ++ []).length := by simp
      rw [if_neg hend, List.append_nil, Pass.runFrom]
      exact refines_pure rfl
    | cons t after =>
      have hin : behind.length < (behind.reverse ++ t :: after).length := by simp
      have ht : (behind.reverse ++ t :: after)[behind.length]? = some t :=
        getElem?_append_at List.length_reverse
      rw [List.length_cons] at hn ha
      rw [if_pos hin, Pass.runFrom, ← h.starts]
      refine (does_token ht).refines ?_
      by_cases hs : e.starts t = true
      · rw [if_pos hs, if_pos hs]
        refine (h.convertNext behind t after ha).bind fun s _ => ?_
        have hle := s.length_ahead_le after
        exact ih (s.behind behind) (s.ahead after) (by omega) (by omega)
      · have hnext := ih (t :: behind) after (by omega) (by omega)
        rw [List.length_cons, List.reverse_cons, List.append_assoc, List.singleton_append] at hnext
        rw [if_neg hs, if_neg hs]
        exact hnext

theorem Implements.process (h : e.Implements p turns) {line : List Token}
    (hl : line.length < turns) :
    (e.process turns).Refines line (p.run line) fun out => ((), out) :=
  h.processFrom turns [] line hl (Nat.le_of_lt hl)

theorem Implements.convertNext_within (h : e.Implements p turns) {tokens : List Token}
    {index : Nat} (hi : index < tokens.length) (hl : tokens.length ≤ turns) :
    (e.convertNext index).Refines tokens (p.stepWithin tokens index hi) id := by
  have hlen : (tokens.take index).length = index := List.length_take_of_le (Nat.le_of_lt hi)
  have hafter : (tokens.drop (index + 1)).length < turns := by
    rw [List.length_drop]
    omega
  have hstep := h.convertNext (tokens.take index).reverse tokens[index] _ hafter
  rw [List.reverse_reverse, List.length_reverse, hlen, ← List.drop_eq_getElem_cons hi,
    List.take_append_drop] at hstep
  exact hstep.returning fun s _ => refines_pure rfl

end Editor
end DeviceScript
