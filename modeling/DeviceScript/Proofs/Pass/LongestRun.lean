/-
A scan takes the longest run.

The state of a scan is built up one element after the other.  Where it can as well be read
off the elements taken so far as one list, and an element is refused exactly if the list
would not be a good one with it, a scan takes the longest good list in front, and ends
in the state of that list.  Both kinds of run in a line of tokens, those of selectors and
those of conditions, are scanned this way.
-/
import DeviceScript.Pass.Scan

namespace DeviceScript

/-- `run` is the longest good list in front of `line`. -/
structure LongestFront {α : Type} (good : List α → Prop) (line run : List α) : Prop where
  front : run <+: line
  holds : good run
  longest : ∀ other, other <+: line → good other → other.length ≤ run.length

/-- The elements in front that have a property are a list with nothing more of them behind. -/
theorem takeWhile_append_of_head {α : Type} {p : α → Bool} {run rest : List α}
    (hrun : ∀ a ∈ run, p a = true) (hrest : ∀ a ∈ rest.head?, p a = false) :
    (run ++ rest).takeWhile p = run := by
  rw [List.takeWhile_append_of_pos hrun]
  cases rest with
  | nil => rw [List.takeWhile_nil, List.append_nil]
  | cons a rest =>
    have ha : ¬ p a = true := by
      rw [hrest a rfl]
      exact Bool.false_ne_true
    rw [List.takeWhile_cons_of_neg ha, List.append_nil]

/-- The lists that are taken one by one are the good ones, and the state behind a list is
read off it. -/
structure ReadsOff {σ α : Type} (take : σ → α → Option σ) (good : List α → Prop)
    (state : List α → σ) : Prop where
  nil : good []
  of_append : ∀ {x y}, good (x ++ y) → good x
  take : ∀ {x a u}, good x → (take (state x) a = some u ↔ good (x ++ [a]) ∧ u = state (x ++ [a]))

namespace ReadsOff

variable {σ α : Type} {take : σ → α → Option σ} {good : List α → Prop} {state : List α → σ}

theorem take_eq_none (h : ReadsOff take good state) {x : List α} {a : α} (hx : good x) :
    take (state x) a = none ↔ ¬ good (x ++ [a]) := by
  constructor
  · intro ha hgood
    have hsome := (h.take hx).mpr ⟨hgood, rfl⟩
    rw [ha] at hsome
    cases hsome
  · intro hbad
    cases ha : take (state x) a with
    | none => rfl
    | some u => exact absurd ((h.take hx).mp ha).1 hbad

theorem foldlM_append (h : ReadsOff take good state) {done : List α} (hd : good done)
    (x : List α) {u : σ} :
    x.foldlM take (state done) = some u ↔ good (done ++ x) ∧ u = state (done ++ x) := by
  induction x generalizing done with
  | nil =>
    rw [List.append_nil, List.foldlM_nil]
    show some (state done) = some u ↔ _
    rw [Option.some.injEq, eq_comm]
    exact ⟨fun hu => ⟨hd, hu⟩, fun hu => hu.2⟩
  | cons a x ih =>
    have happend : done ++ a :: x = done ++ [a] ++ x := List.append_cons done a x
    rw [List.foldlM_cons, happend]
    by_cases hgood : good (done ++ [a])
    · rw [(h.take hd).mpr ⟨hgood, rfl⟩]
      exact ih hgood
    · rw [(h.take_eq_none hd).mpr hgood]
      constructor
      · intro hu
        cases hu
      · intro hu
        exact absurd (h.of_append hu.1) hgood

theorem foldlM_eq_some (h : ReadsOff take good state) {x : List α} {u : σ} :
    x.foldlM take (state []) = some u ↔ good x ∧ u = state x :=
  h.foldlM_append h.nil x

/-- A good list is the longest in front exactly if it is not good with the next element. -/
theorem longestFront_append (h : ReadsOff take good state) {run rest : List α} :
    LongestFront good (run ++ rest) run ↔ good run ∧ ∀ a ∈ rest.head?, ¬ good (run ++ [a]) := by
  constructor
  · intro hrun
    refine ⟨hrun.holds, fun a ha hgood => ?_⟩
    obtain ⟨more, rfl⟩ := List.head?_eq_some_iff.mp ha
    have hle := hrun.longest (run ++ [a]) ⟨more, by simp⟩ hgood
    rw [List.length_append, List.length_singleton] at hle
    omega
  · intro hrun
    refine ⟨List.prefix_append run rest, hrun.1, fun other hother hgood => ?_⟩
    by_cases hle : other.length ≤ run.length
    · exact hle
    · -- A longer list would go on with the element that stands next.
      obtain ⟨more, rfl⟩ := List.prefix_of_prefix_length_le (List.prefix_append run rest) hother
        (Nat.le_of_not_le hle)
      cases more with
      | nil => exact absurd (Nat.le_of_eq (by rw [List.append_nil])) hle
      | cons a more =>
        have hnext : a ∈ rest.head? := by
          obtain ⟨tail, htail⟩ := hother
          rw [List.append_assoc, List.append_right_inj] at htail
          rw [← htail]
          rfl
        rw [List.append_cons] at hgood
        exact absurd (h.of_append hgood) (hrun.2 a hnext)

theorem scan_of_longestFront (h : ReadsOff take good state) {run rest : List α}
    (hrun : LongestFront good (run ++ rest) run) :
    scan take (state []) (run ++ rest) = (state run, run.length) := by
  obtain ⟨hgood, hstop⟩ := h.longestFront_append.mp hrun
  refine scan_append_eq_iff.mpr ⟨h.foldlM_eq_some.mpr ⟨hgood, rfl⟩, fun a ha => ?_⟩
  exact (h.take_eq_none hgood).mpr (hstop a ha)

theorem exists_longestFront (h : ReadsOff take good state) (line : List α) :
    ∃ run rest, line = run ++ rest ∧ LongestFront good line run := by
  obtain ⟨run, rest, rfl, hlen⟩ := exists_scan_span take (state []) line
  have hscan : scan take (state []) (run ++ rest) =
      ((scan take (state []) (run ++ rest)).1, run.length) := by
    rw [← hlen]
  obtain ⟨hfold, hstop⟩ := scan_append_eq_iff.mp hscan
  obtain ⟨hgood, hstate⟩ := h.foldlM_eq_some.mp hfold
  refine ⟨run, rest, rfl, h.longestFront_append.mpr ⟨hgood, fun a ha => ?_⟩⟩
  have hrefused := hstop a ha
  rw [hstate] at hrefused
  exact (h.take_eq_none hgood).mp hrefused

end ReadsOff
end DeviceScript
