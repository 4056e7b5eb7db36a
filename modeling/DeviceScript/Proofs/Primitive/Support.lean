/-
The table of supported operators, against what the operators themselves refuse.

Which kind of value takes which operator is said twice, by `Primitive.supports` and by the cases
of each operator.  Row by row, a kind at a time, the two agree: an operator refuses a value if
and only if the table excludes the kind.  A cast of the operand may still fail, but never as a
refusal.  So the look into the table that `Primitive.apply` takes first adds no error to that of
the operator, and hides none.
-/
import DeviceScript.Primitive.Operator

namespace DeviceScript

/-- The operation behind an operator, without a look into the table of what is supported. -/
def Operator.method : Operator → Primitive → Primitive → Except ValueError Primitive
  | .plus, p, q => p.plus q
  | .minus, p, q => p.minus q
  | .multiply, p, q => p.multiply q
  | .divide, p, q => p.divide q
  | .modulo, p, q => p.modulo q
  | .not, p, _ => p.negate
  | .compare, p, q => do
    match ← p.order q with
    | .lt => return .number (.ofInt .single (-1))
    | .eq => return .number (.ofInt .single 0)
    | .gt => return .number (.ofInt .single 1)
  | .project, p, q => p.project q
  | .dot, p, q => p.dot q

namespace Primitive

/-! ## Failures that are no refusal -/

/-- A failure, if there is one, has another cause than an operator on a kind that does not take
it. -/
def Accepted {α : Type} (x : Except ValueError α) : Prop :=
  ∀ o k, x ≠ .error (.operator o k)

theorem accepted_ok {α : Type} (a : α) : Accepted (.ok a : Except ValueError α) := by
  intro o k h
  cases h

theorem accepted_refuseOperand {α : Type} (p : Primitive) (o : Operator) (q : Primitive) :
    Accepted (p.refuseOperand o q : Except ValueError α) := by
  intro o' k h
  cases h

theorem Accepted.bind {α β : Type} {x : Except ValueError α} (h : Accepted x)
    {f : α → Except ValueError β} (hf : ∀ a, Accepted (f a)) : Accepted (x >>= f) := by
  cases x with
  | ok a => exact hf a
  | error e =>
    intro o k he
    cases he
    exact h o k rfl

theorem toBoolean_accepted (q : Primitive) : Accepted q.toBoolean := by
  intro o k h
  cases q with
  | boolean | number | vector => cases h
  | text s =>
    rw [toBoolean] at h
    split at h <;> cases h

theorem toNumber_accepted (q : Primitive) : Accepted q.toNumber := by
  intro o k h
  cases q with
  | boolean | number | vector => cases h
  | text s =>
    rw [toNumber] at h
    split at h <;> cases h

theorem toVector_accepted (q : Primitive) : Accepted q.toVector := by
  intro o k h
  cases q with
  | boolean | number | vector => cases h
  | text s =>
    rw [toVector] at h
    split at h <;> cases h

/-- Every kind takes a comparison. -/
theorem compare_accepted (p q : Primitive) : Accepted (Operator.compare.method p q) := by
  have horder : Accepted (p.order q) := by
    cases p with
    | boolean => exact (toBoolean_accepted q).bind fun _ => accepted_ok _
    | number => exact (toNumber_accepted q).bind fun _ => accepted_ok _
    | text => exact accepted_ok _
    | vector =>
      cases q with
      | vector | number => exact accepted_ok _
      | boolean | text => exact accepted_refuseOperand _ _ _
  refine horder.bind fun c => ?_
  cases c <;> exact accepted_ok _

/-! ## The rows of the table -/

/-- The result of an operator on a value, refused just where the table says so. -/
inductive Agrees (p : Primitive) (o : Operator) : Except ValueError Primitive → Prop where
  | refused : p.supports o = false → Agrees p o (p.refuse o)
  | taken {x : Except ValueError Primitive} : p.supports o = true → Accepted x → Agrees p o x

theorem boolean_agrees (b : Bool) (o : Operator) (q : Primitive) :
    Agrees (boolean b) o (o.method (boolean b) q) := by
  cases o with
  | not => exact .taken rfl (accepted_ok _)
  | compare => exact .taken rfl (compare_accepted _ q)
  | _ => exact .refused rfl

theorem number_agrees (n : Single) (o : Operator) (q : Primitive) :
    Agrees (number n) o (o.method (number n) q) := by
  cases o with
  | not => exact .taken rfl (accepted_ok _)
  | compare => exact .taken rfl (compare_accepted _ q)
  | project | dot => exact .refused rfl
  | _ => exact .taken rfl ((toNumber_accepted q).bind fun _ => accepted_ok _)

theorem text_agrees (s : String) (o : Operator) (q : Primitive) :
    Agrees (text s) o (o.method (text s) q) := by
  cases o with
  | plus => exact .taken rfl (accepted_ok _)
  | minus =>
    cases q with
    | text | number => exact .taken rfl (accepted_ok _)
    | boolean | vector => exact .taken rfl (accepted_refuseOperand _ _ _)
  | compare => exact .taken rfl (compare_accepted _ q)
  | _ => exact .refused rfl

theorem vector_agrees (v : Vec3) (o : Operator) (q : Primitive) :
    Agrees (vector v) o (o.method (vector v) q) := by
  cases o with
  | not => exact .taken rfl (accepted_ok _)
  | compare => exact .taken rfl (compare_accepted _ q)
  | divide => exact .taken rfl ((toNumber_accepted q).bind fun _ => accepted_ok _)
  | multiply =>
    cases q with
    | vector | number => exact .taken rfl (accepted_ok _)
    | boolean | text => exact .taken rfl (accepted_refuseOperand _ _ _)
  | _ => exact .taken rfl ((toVector_accepted q).bind fun _ => accepted_ok _)

theorem method_agrees (p : Primitive) (o : Operator) (q : Primitive) :
    Agrees p o (o.method p q) := by
  cases p with
  | boolean b => exact boolean_agrees b o q
  | number n => exact number_agrees n o q
  | text s => exact text_agrees s o q
  | vector v => exact vector_agrees v o q

theorem Agrees.eq_refuse {p : Primitive} {o : Operator} {x : Except ValueError Primitive}
    (h : Agrees p o x) (hs : p.supports o = false) : x = p.refuse o := by
  cases h with
  | refused => rfl
  | taken ht =>
    rw [hs] at ht
    cases ht

theorem Agrees.eq_error_operator_iff {p : Primitive} {o : Operator}
    {x : Except ValueError Primitive} (h : Agrees p o x) (o' : Operator) (k : Kind) :
    x = .error (.operator o' k) ↔ p.supports o = false ∧ o' = o ∧ k = p.kind := by
  constructor
  · intro hx
    cases h with
    | refused hs =>
      cases hx
      exact ⟨hs, rfl, rfl⟩
    | taken _ ha => exact absurd hx (ha o' k)
  · intro hk
    obtain ⟨hs, rfl, rfl⟩ := hk
    exact h.eq_refuse hs

theorem apply_of_supports {p : Primitive} {o : Operator} (h : p.supports o = true)
    (q : Primitive) : p.apply o q = o.method p q := by
  unfold apply
  rw [if_pos h]
  cases o with
  | compare =>
    refine bind_congr fun c => ?_
    cases c <;> rfl
  | _ => rfl

/-- Looking into the table first changes no result and no error of an operator, and an operator
refuses a value, naming itself and the kind of the value, if and only if the table excludes
it. -/
theorem apply_eq_method (p : Primitive) (o : Operator) (q : Primitive) :
    p.apply o q = o.method p q ∧
      ∀ (o' : Operator) (k : Kind), o.method p q = .error (.operator o' k) ↔
        p.supports o = false ∧ o' = o ∧ k = p.kind := by
  refine ⟨?_, (method_agrees p o q).eq_error_operator_iff⟩
  cases hs : p.supports o with
  | true => exact apply_of_supports hs q
  | false =>
    unfold apply
    rw [(method_agrees p o q).eq_refuse hs, if_neg (Bool.eq_false_iff.mp hs)]

end Primitive
end DeviceScript
