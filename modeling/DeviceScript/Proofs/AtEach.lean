/-
Facts about each element of a list and what stands in front of it.

Loops are asked for a number in front of them, and blanks for an open quotation in front of
them.  Both are read from left to right, so the lemmas add an element at the end.
-/

namespace DeviceScript

/-- Each element of the list is in the relation to the elements in front of it. -/
def AtEach {α : Type} (P : List α → α → Prop) (l : List α) : Prop :=
  ∀ front a back, l = front ++ a :: back → P front a

section

variable {α : Type} {P : List α → α → Prop}

theorem atEach_nil : AtEach P [] := by
  intro front a back h
  cases front <;> cases h

theorem AtEach.of_append {x y : List α} (h : AtEach P (x ++ y)) : AtEach P x := by
  intro front a back hx
  refine h front a (back ++ y) ?_
  rw [hx, List.append_assoc, List.cons_append]

theorem atEach_concat {x : List α} {a : α} : AtEach P (x ++ [a]) ↔ AtEach P x ∧ P x a := by
  constructor
  · intro h
    exact ⟨h.of_append, h x a [] rfl⟩
  · intro h front b back hsplit
    obtain ⟨hx, ha⟩ := h
    rcases List.eq_nil_or_concat back with rfl | ⟨more, c, rfl⟩
    · obtain ⟨rfl, hlast⟩ := List.append_inj' hsplit rfl
      obtain rfl := (List.cons.inj hlast).1
      exact ha
    · have hfront : x ++ [a] = (front ++ b :: more) ++ [c] := by
        rw [hsplit, List.concat_eq_append, List.append_assoc, List.cons_append]
      obtain ⟨rfl, -⟩ := List.append_inj' hfront rfl
      exact hx front b more rfl

/-- A front in which all is well ends no later than where something is wrong. -/
theorem AtEach.length_le {front back other more : List α} {a : α} (ho : AtEach P other)
    (hl : front ++ a :: back = other ++ more) (ha : ¬ P front a) :
    other.length ≤ front.length := by
  rcases List.append_eq_append_iff.mp hl with ⟨gap, rfl, hgap⟩ | ⟨gap, rfl, -⟩
  · cases gap with
    | nil => exact Nat.le_of_eq (by rw [List.append_nil])
    | cons b gap =>
      obtain ⟨rfl, -⟩ := List.cons.inj hgap
      exact absurd (ho front a gap rfl) ha
  · rw [List.length_append]
    exact Nat.le_add_right _ _

/-- There is one first place at which something is wrong. -/
theorem AtEach.front_eq {front back other more : List α} {a b : α} (hf : AtEach P front)
    (ho : AtEach P other) (hl : front ++ a :: back = other ++ b :: more) (ha : ¬ P front a)
    (hb : ¬ P other b) : front = other := by
  have hle : front.length ≤ other.length := hf.length_le hl.symm hb
  have hge : other.length ≤ front.length := ho.length_le hl ha
  exact (List.append_inj hl (Nat.le_antisymm hle hge)).1

end

end DeviceScript
