/-
Numbers are written legibly.

The digits of a positive number do not start with a zero, and the shortest digits of a
number other than zero are those of a positive number, since zero reads back as zero.  So
every layout of them is legible.  An integer that sixty-four bits can hold is read back.
-/
import DeviceScript.Proofs.Json.Text
import DeviceScript.Proofs.Numeral.ReadBack

namespace DeviceScript

open Numeral

namespace Json.Number

/-- A number without an exponent has no digits to be asked of it. -/
theorem no_exponent (negative : Bool) (ds : List Char)
    (h : (none : Option (Bool × List Char)) = some (negative, ds)) :
    ds ≠ [] ∧ ∀ c ∈ ds, c.isDigit = true := by
  cases h

/-! ## Integers -/

theorem legible_ofInt (i : Int) : (ofInt i).Legible where
  whole_ne_nil := Nat.toDigits_ne_nil
  whole := isDigit_toDigits _
  leading := by
    show (Nat.toDigits 10 i.natAbs).head? = some '0' → (Nat.toDigits 10 i.natAbs).length = 1
    intro h
    by_cases hz : i.natAbs = 0
    · rw [hz, Nat.toDigits_zero]
      rfl
    · exact absurd h (head_toDigits (by omega))
  fraction := List.forall_mem_nil _
  exponent := no_exponent

theorem integer?_ofInt {i : Int} (hlow : -(2 ^ 63) ≤ i) (hhigh : i < 2 ^ 64) :
    (ofInt i).integer? = some i := by
  have hvalue : Nat.ofDigitChars 10 (ofInt i).whole 0 = i.natAbs := Nat.ofDigitChars_ten_toDigits
  rw [integer?, if_pos ⟨rfl, rfl⟩, hvalue]
  dsimp only
  by_cases hneg : i < 0
  · have hrange : 0 < i.natAbs ∧ i.natAbs ≤ 2 ^ 63 := by omega
    rw [if_pos (show (ofInt i).negative = true from decide_eq_true hneg), if_pos hrange]
    congr 1
    omega
  · have hrange : i.natAbs < 2 ^ 64 := by omega
    rw [if_neg (show ¬ (ofInt i).negative = true by simpa [ofInt] using hneg), if_pos hrange]
    congr 1
    omega

/-! ## Layouts -/

/-- Digits that do not start with a zero are legible in front of any point and exponent. -/
theorem legible_of_head {n : Number} (hne : n.whole ≠ []) (hwhole : ∀ c ∈ n.whole, c.isDigit = true)
    (hhead : n.whole.head? ≠ some '0') (hfraction : ∀ c ∈ n.fraction, c.isDigit = true)
    (hexponent : ∀ negative ds, n.exponent = some (negative, ds) →
      ds ≠ [] ∧ ∀ c ∈ ds, c.isDigit = true) : n.Legible :=
  ⟨hne, hwhole, fun h => absurd h hhead, hfraction, hexponent⟩

theorem legible_layOut (layout : Layout) (negative : Bool) {digits : Nat} (hpos : 0 < digits)
    (exponent : Int) : (layOut layout negative digits exponent).Legible := by
  have hne : Nat.toDigits 10 digits ≠ [] := Nat.toDigits_ne_nil
  have hds := isDigit_toDigits digits
  have hhead := head_toDigits hpos
  have htake : ∀ k, 0 < k → (Nat.toDigits 10 digits).take k ≠ [] ∧
      ((Nat.toDigits 10 digits).take k).head? ≠ some '0' := by
    intro k hk
    rw [List.head?_take, if_neg (by omega), Ne, List.take_eq_nil_iff]
    exact ⟨fun h => h.elim (by omega) hne, hhead⟩
  rw [layOut]
  split
  · refine legible_of_head (htake 1 (by decide)).1 (fun c hc => hds c (List.mem_of_mem_take hc))
      (htake 1 (by decide)).2 (fun c hc => hds c (List.mem_of_mem_drop hc)) ?_
    intro negative ds h
    cases h
    exact ⟨Nat.toDigits_ne_nil, isDigit_toDigits _⟩
  · split
    · refine legible_of_head ?_ (isDigit_append hds (isDigit_replicate _)) ?_
        (isDigit_replicate 1) no_exponent
      · exact fun h => hne (List.append_eq_nil_iff.mp h).1
      · rw [List.head?_append, Option.or_of_isSome (List.isSome_head?.mpr hne)]
        exact hhead
    · split
      · rename_i hplace
        have hk : 0 < (((Nat.toDigits 10 digits).length : Int) + exponent).toNat := by omega
        exact legible_of_head (htake _ hk).1 (fun c hc => hds c (List.mem_of_mem_take hc))
          (htake _ hk).2 (fun c hc => hds c (List.mem_of_mem_drop hc))
          no_exponent
      · exact ⟨List.cons_ne_nil _ _, isDigit_replicate 1, fun _ => rfl,
          isDigit_append (isDigit_replicate _) hds, no_exponent⟩

theorem legible_ofBinary? {f : Format} {layout : Layout} {x : Binary f} {n : Number}
    (h : ofBinary? layout x = some n) : n.Legible := by
  unfold ofBinary? at h
  split at h
  · cases h
    exact ⟨List.cons_ne_nil _ _, isDigit_replicate 1, fun _ => rfl, isDigit_replicate 1,
      no_exponent⟩
  · rename_i negative m _ hm
    cases h
    exact legible_layOut _ _ (Format.shortest_pos (Nat.pos_of_ne_zero hm)) _
  · cases h

end Json.Number
end DeviceScript
