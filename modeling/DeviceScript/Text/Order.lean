/-
The order of texts by code points.

Texts are ordered like words in a dictionary, character by character, and a text
comes before every longer text that it starts.
-/

namespace DeviceScript
namespace Text

def order : List Char → List Char → Ordering
  | [], [] => .eq
  | [], _ :: _ => .lt
  | _ :: _, [] => .gt
  | c :: s, d :: t =>
    if c.toNat < d.toNat then .lt else if d.toNat < c.toNat then .gt else order s t

theorem order_self (s : List Char) : order s s = .eq := by
  induction s with
  | nil => rfl
  | cons c s ih => simp [order, ih]

theorem eq_of_order_eq {s t : List Char} (h : order s t = .eq) : s = t := by
  induction s generalizing t with
  | nil => cases t with
    | nil => rfl
    | cons d t => simp [order] at h
  | cons c s ih => cases t with
    | nil => simp [order] at h
    | cons d t =>
      rw [order] at h
      split at h
      · cases h
      · split at h
        · cases h
        · have hcd : c = d := by
            apply Char.ext
            apply UInt32.toNat_inj.mp
            have e : c.toNat = d.toNat := by omega
            exact e
          rw [hcd, ih h]

theorem order_swap (s t : List Char) : (order s t).swap = order t s := by
  induction s generalizing t with
  | nil => cases t <;> rfl
  | cons c s ih => cases t with
    | nil => rfl
    | cons d t =>
      simp only [order]
      rcases Nat.lt_trichotomy c.toNat d.toNat with h | h | h
      · simp [h, Nat.lt_asymm h]
      · simp [h, ih]
      · simp [h, Nat.lt_asymm h]

theorem order_lt_trans {s t u : List Char} (h : order s t = .lt) (k : order t u = .lt) :
    order s u = .lt := by
  induction s generalizing t u with
  | nil => cases u with
    | nil => cases t <;> simp [order] at h k
    | cons e u => rfl
  | cons c s ih => cases t with
    | nil => simp [order] at h
    | cons d t => cases u with
      | nil => simp [order] at k
      | cons e u =>
        simp only [order] at h k ⊢
        rcases Nat.lt_trichotomy c.toNat d.toNat with hcd | hcd | hcd
        · rcases Nat.lt_trichotomy d.toNat e.toNat with hde | hde | hde
          · simp [Nat.lt_trans hcd hde]
          · simp [← hde, hcd]
          · simp [hde, Nat.lt_asymm hde] at k
        · rcases Nat.lt_trichotomy d.toNat e.toNat with hde | hde | hde
          · simp [hcd, hde]
          · simp only [hcd, hde, Nat.lt_irrefl, if_false] at h k ⊢
            exact ih h k
          · simp [hde, Nat.lt_asymm hde] at k
        · simp [hcd, Nat.lt_asymm hcd] at h

end Text
end DeviceScript
