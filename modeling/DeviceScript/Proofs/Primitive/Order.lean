/-
Comparing values is an order.

Numbers are compared by their rank, vectors by the rank of their length, truth values and texts
by orders of their own, and each of these comparisons is a total preorder.  So comparing within
a kind never fails, and behaves like an order.  A number and a vector are compared by the same
two numbers from either side, which is why exchanging them reverses the outcome; there is no
third law for them, since a length is only rounded when it meets a number.
-/
import DeviceScript.Primitive.Operator
import DeviceScript.Proofs.Numeral.Order
import DeviceScript.Vocabulary

namespace DeviceScript

/-! ## Texts and truth values -/

instance : Std.TransCmp Text.order where
  eq_swap {s t} := by rw [Text.order_swap]
  isLE_trans {s t u} hst htu := by
    cases h : Text.order s t with
    | gt =>
      rw [h] at hst
      cases hst
    | eq => rwa [Text.eq_of_order_eq h]
    | lt =>
      cases k : Text.order t u with
      | gt =>
        rw [k] at htu
        cases htu
      | eq =>
        rw [← Text.eq_of_order_eq k]
        exact hst
      | lt =>
        rw [Text.order_lt_trans h k]
        rfl

instance : Std.TransCmp Primitive.orderBool where
  eq_swap {a b} := by cases a <;> cases b <;> rfl
  isLE_trans {a b c} := by cases a <;> cases b <;> cases c <;> decide

/-! ## Comparators -/

namespace Comparison

/-- The comparator that asks the same with the two sides exchanged. -/
def mirrored : Comparison → Comparison
  | .greater => .less
  | .greaterOrEqual => .lessOrEqual
  | .equal => .equal
  | .lessOrEqual => .greaterOrEqual
  | .less => .greater

theorem matches_mirrored_swap (m : Comparison) (c : Ordering) :
    m.mirrored.matches c.swap = m.matches c := by
  cases m <;> cases c <;> rfl

end Comparison

/-! ## Values -/

namespace Primitive

/-- Values of one kind, or a number and a vector. -/
inductive Comparable : Primitive → Primitive → Prop where
  | sameKind {p q : Primitive} : p.kind = q.kind → Comparable p q
  | numberVector (n : Single) (v : Vec3) : Comparable (number n) (vector v)
  | vectorNumber (v : Vec3) (n : Single) : Comparable (vector v) (number n)

/-- The value does not come behind the other. -/
def AtMost (p q : Primitive) : Prop := ∃ c : Ordering, p.order q = .ok c ∧ c.isLE = true

/-- A number that is none, or a vector whose length is none. -/
def IsNaN : Primitive → Prop
  | .number n => n = .nan
  | .vector v => v.length = .nan
  | _ => False

instance : DecidablePred IsNaN
  | .number n => inferInstanceAs (Decidable (n = .nan))
  | .vector v => inferInstanceAs (Decidable (v.length = .nan))
  | .boolean _ | .text _ => inferInstanceAs (Decidable False)

/-- Within a kind, values are compared by a total preorder on what they hold. -/
theorem exists_cmp (k : Kind) : ∃ (α : Type) (cmp : α → α → Ordering) (value : α → Primitive),
    Std.TransCmp cmp ∧ (∀ p : Primitive, p.kind = k → ∃ a, p = value a) ∧
      ∀ a b, (value a).order (value b) = .ok (cmp a b) := by
  cases k with
  | boolean =>
    refine ⟨Bool, orderBool, boolean, inferInstance, fun p hp => ?_, fun _ _ => rfl⟩
    cases p <;> cases hp
    exact ⟨_, rfl⟩
  | number =>
    refine ⟨Single, Numeral.Binary.order, number, inferInstance, fun p hp => ?_, fun _ _ => rfl⟩
    cases p <;> cases hp
    exact ⟨_, rfl⟩
  | text =>
    refine ⟨List Char, Text.order, fun s => text (String.ofList s), inferInstance,
      fun p hp => ?_, fun s t => ?_⟩
    · cases p <;> cases hp
      exact ⟨_, congrArg text String.ofList_toList.symm⟩
    · simp [order, toText]
  | vector =>
    refine ⟨Vec3, compareOn fun v => v.length.rank, vector, inferInstance, fun p hp => ?_,
      fun v w => congrArg Except.ok (Numeral.Binary.order_eq_compare_rank v.length w.length)⟩
    cases p <;> cases hp
    exact ⟨_, rfl⟩

theorem order_self (p : Primitive) : p.order p = .ok .eq := by
  obtain ⟨α, cmp, value, hcmp, hvalue, horder⟩ := exists_cmp p.kind
  obtain ⟨a, ha⟩ := hvalue p rfl
  rw [ha, horder]
  exact congrArg Except.ok Std.ReflCmp.compare_self

/-- Comparing never fails, and exchanging the two values reverses the outcome. -/
theorem Comparable.order_swap {p q : Primitive} (h : p.Comparable q) :
    ∃ c : Ordering, p.order q = .ok c ∧ q.order p = .ok c.swap := by
  cases h with
  | sameKind h =>
    obtain ⟨α, cmp, value, hcmp, hvalue, horder⟩ := exists_cmp p.kind
    obtain ⟨a, rfl⟩ := hvalue p rfl
    obtain ⟨b, rfl⟩ := hvalue q h.symm
    refine ⟨cmp a b, horder a b, ?_⟩
    rw [horder]
    exact congrArg Except.ok Std.OrientedCmp.eq_swap
  | numberVector n v =>
    refine ⟨n.order (v.length.convert .single), rfl, ?_⟩
    exact congrArg Except.ok Std.OrientedCmp.eq_swap
  | vectorNumber v n =>
    refine ⟨Numeral.Binary.order (v.length.convert .single) n, rfl, ?_⟩
    exact congrArg Except.ok Std.OrientedCmp.eq_swap

theorem AtMost.trans {p q r : Primitive} (hpq : p.kind = q.kind) (hqr : q.kind = r.kind)
    (h : p.AtMost q) (k : q.AtMost r) : p.AtMost r := by
  obtain ⟨α, cmp, value, hcmp, hvalue, horder⟩ := exists_cmp p.kind
  obtain ⟨a, rfl⟩ := hvalue p rfl
  obtain ⟨b, rfl⟩ := hvalue q hpq.symm
  obtain ⟨c, rfl⟩ := hvalue r (hpq.trans hqr).symm
  obtain ⟨o, ho, hle⟩ := h
  obtain ⟨o', ho', hle'⟩ := k
  rw [horder] at ho ho'
  cases ho
  cases ho'
  exact ⟨cmp a c, horder a c, Std.TransCmp.isLE_trans hle hle'⟩

theorem order_of_isNaN {p q : Primitive} (h : p.Comparable q) (hp : p.IsNaN) (hq : ¬ q.IsNaN) :
    p.order q = .ok .lt := by
  cases h with
  | sameKind h =>
    cases p with
    | boolean | text => exact absurd hp id
    | number n =>
      cases q <;> cases h
      rw [show n = .nan from hp]
      exact congrArg Except.ok (Numeral.Binary.order_nan hq)
    | vector v =>
      cases q <;> cases h
      show Except.ok (v.length.order _) = _
      rw [show v.length = .nan from hp]
      exact congrArg Except.ok (Numeral.Binary.order_nan hq)
  | numberVector n v =>
    rw [show n = .nan from hp]
    refine congrArg Except.ok (Numeral.Binary.order_nan ?_)
    exact fun hv => hq (Numeral.Binary.convert_eq_nan_iff.mp hv)
  | vectorNumber v n =>
    show Except.ok (Numeral.Binary.order (v.length.convert .single) n) = _
    rw [Numeral.Binary.convert_eq_nan_iff.mpr hp]
    exact congrArg Except.ok (Numeral.Binary.order_nan hq)

theorem order_number_eq_iff (a b : Single) :
    (number a).order (number b) = .ok .eq ↔ a = b ∨ a.IsZero ∧ b.IsZero := by
  rw [← Numeral.Binary.order_eq_eq_iff]
  exact ⟨fun h => Except.ok.inj h, fun h => congrArg Except.ok h⟩

/-- Comparing orders the values of each kind, not-a-number below every other number, and no two
different numbers are equal but the two zeros.  Exchanging the sides, also of a number and a
vector, reverses the outcome, so a comparator and its mirror image agree about them. -/
theorem order_laws :
    (∀ p : Primitive, p.order p = .ok .eq) ∧
    (∀ p q : Primitive, p.Comparable q → ∃ c : Ordering,
      p.order q = .ok c ∧ q.order p = .ok c.swap ∧
      ∀ m : Comparison, m.matches c = m.mirrored.matches c.swap) ∧
    (∀ p q r : Primitive, p.kind = q.kind → q.kind = r.kind →
      p.AtMost q → q.AtMost r → p.AtMost r) ∧
    (∀ p q : Primitive, p.Comparable q → p.IsNaN → ¬ q.IsNaN → p.order q = .ok .lt) ∧
    ∀ a b : Single, (number a).order (number b) = .ok .eq ↔ a = b ∨ a.IsZero ∧ b.IsZero := by
  refine ⟨order_self, ?_, fun p q r => AtMost.trans, fun p q => order_of_isNaN,
    order_number_eq_iff⟩
  intro p q h
  obtain ⟨c, hpq, hqp⟩ := h.order_swap
  exact ⟨c, hpq, hqp, fun m => (m.matches_mirrored_swap c).symm⟩

/-- A vector with an infinite and a not-a-number component stands below negative infinity, from
either side, and a text comes before the longer texts that it starts. -/
theorem order_laws_not_a_number :
    let v : Primitive := .vector ⟨.infinite false, .nan, .zero .double false⟩
    let n : Primitive := .number (.infinite true)
    (v.Comparable n ∧ v.IsNaN ∧ ¬ n.IsNaN ∧ v.order n = .ok .lt ∧
      ∃ c : Ordering, v.order n = .ok c ∧ n.order v = .ok c.swap ∧
        ∀ m : Comparison, m.matches c = m.mirrored.matches c.swap) ∧
    ((text "Dec").AtMost (text "Deck") ∧ (text "Deck").AtMost (text "Deck 2") ∧
      (text "Dec").AtMost (text "Deck 2")) := by
  intro v n
  have hvn : v.Comparable n := .vectorNumber _ _
  have hv : v.IsNaN := by decide +kernel
  have hn : ¬ n.IsNaN := by decide +kernel
  have hdec : (text "Dec").AtMost (text "Deck") := ⟨.lt, rfl, rfl⟩
  have hdeck : (text "Deck").AtMost (text "Deck 2") := ⟨.lt, rfl, rfl⟩
  exact ⟨⟨hvn, hv, hn, order_laws.2.2.2.1 v n hvn hv hn, order_laws.2.1 v n hvn⟩,
    hdec, hdeck, order_laws.2.2.1 _ (text "Deck") _ rfl rfl hdec hdeck⟩

end Primitive
end DeviceScript
