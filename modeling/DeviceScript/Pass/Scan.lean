/-
Feeding a run of tokens to a state.
-/

namespace DeviceScript

/-- Feeds the elements of a list to a state until one is refused: the last state, and
how many elements were taken. -/
def scan {σ α : Type} (take : σ → α → Option σ) (s : σ) : List α → σ × Nat
  | [] => (s, 0)
  | a :: l =>
    match take s a with
    | none => (s, 0)
    | some t =>
      let (u, n) := scan take t l
      (u, n + 1)

theorem scan_count_le {σ α : Type} (take : σ → α → Option σ) (s : σ) (l : List α) :
    (scan take s l).2 ≤ l.length := by
  induction l generalizing s with
  | nil => simp [scan]
  | cons a l ih =>
    rw [scan]
    cases h : take s a with
    | none => simp
    | some t =>
      have := ih t
      simp only [List.length_cons]
      omega

/-- What every taken element preserves holds of the last state. -/
theorem scan_invariant {σ α : Type} {take : σ → α → Option σ} {P : σ → Prop}
    (h : ∀ s a t, P s → take s a = some t → P t) {s : σ} (hs : P s) (l : List α) :
    P (scan take s l).1 := by
  induction l generalizing s with
  | nil => exact hs
  | cons a l ih =>
    rw [scan]
    cases ha : take s a with
    | none => exact hs
    | some t => exact ih (h s a t hs ha)

theorem exists_scan_span {σ α : Type} (take : σ → α → Option σ) (s : σ) (l : List α) :
    ∃ run rest, l = run ++ rest ∧ (scan take s l).2 = run.length := by
  have h := scan_count_le take s l
  refine ⟨l.take (scan take s l).2, l.drop (scan take s l).2, ?_, ?_⟩
  · exact (List.take_append_drop ..).symm
  · rw [List.length_take]
    omega

/-- A scan takes exactly `x` when every element of `x` is taken and the one behind it is
refused. -/
theorem scan_append_eq_iff {σ α : Type} {take : σ → α → Option σ} {s u : σ} {x y : List α} :
    scan take s (x ++ y) = (u, x.length) ↔
      x.foldlM take s = some u ∧ ∀ a ∈ y.head?, take u a = none := by
  induction x generalizing s with
  | nil =>
    cases y with
    | nil => simp [scan]
    | cons a y =>
      rw [List.nil_append, scan]
      cases h : take s a with
      | none =>
        simp only [List.length_nil, Prod.mk.injEq, and_true, List.foldlM_nil, List.head?_cons,
          Option.mem_some_iff, forall_eq']
        constructor
        · intro h
          subst h
          exact ⟨rfl, h⟩
        · intro h
          obtain ⟨hu, -⟩ := h
          exact Option.some.inj hu
      | some t =>
        simp only [List.length_nil, Prod.mk.injEq, Nat.add_one_ne_zero, and_false, false_iff]
        intro h
        obtain ⟨hu, ha⟩ := h
        cases hu
        rw [ha a rfl] at h
        cases h
  | cons a x ih =>
    rw [List.cons_append, scan]
    cases h : take s a with
    | none => simp [h]
    | some t => simpa [h, Prod.ext_iff] using ih (s := t)

theorem not_mem_of_foldlM {σ α : Type} {take : σ → α → Option σ} {a : α}
    (h : ∀ s, take s a = none) {s u : σ} {x : List α} (hx : x.foldlM take s = some u) :
    a ∉ x := by
  induction x generalizing s with
  | nil => exact List.not_mem_nil
  | cons b x ih =>
    rw [List.foldlM_cons] at hx
    obtain ⟨t, hb, hx⟩ := Option.bind_eq_some_iff.mp hx
    intro ha
    rcases List.mem_cons.mp ha with rfl | ha
    · rw [h s] at hb
      cases hb
    · exact ih hx ha

/-- An element that is always refused ends a scan like the end of the list does. -/
theorem scan_append_of_refused {σ α : Type} {take : σ → α → Option σ} {a : α}
    (h : ∀ s, take s a = none) (s : σ) (x y : List α) :
    scan take s (x ++ a :: y) = scan take s x := by
  induction x generalizing s with
  | nil => simp [scan, h]
  | cons b x ih =>
    rw [List.cons_append, scan, scan]
    cases take s b with
    | none => rfl
    | some t => simp only [ih]

end DeviceScript
