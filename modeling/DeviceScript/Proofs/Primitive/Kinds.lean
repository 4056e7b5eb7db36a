/-
What the kinds say about a program of operators.

Which operators fit which kinds can be told without the values: `Kind.failure?` is the reason
why an operator fails on a kind, with an operand of a kind, and `Operator.resultKind` the kind
of its result.  Values never add a reason of their own, be they zero, infinite or not a number,
with one exception: a text operand that has to be cast may turn out not to be readable.  So a
program without text operands can be run on kinds alone, and its run on values shows, seen
through the kinds, the same results.
-/
import DeviceScript.Primitive.Operator

namespace DeviceScript

/-! ## Programs on kinds -/

namespace Operator

/-- The operators whose result is a number, whatever they stand on. -/
def measures : Operator → Bool
  | .compare | .dot => true
  | _ => false

/-- The kind of the result on a value of kind `k`. -/
def resultKind (o : Operator) (k : Kind) : Kind := if o.measures then .number else k

end Operator

namespace Kind

/-- Why a value of the one kind cannot be cast to the other. -/
def castFailure? : (source target : Kind) → Option ValueError
  | .vector, .boolean => some (.coercion .vector .boolean)
  | .boolean, .vector => some (.coercion .boolean .vector)
  | .number, .vector => some (.coercion .number .vector)
  | _, _ => none

/-- Why an operator fails that casts no operand but takes those of some kinds. -/
def operandFailure? (k : Kind) (o : Operator) (taken : List Kind) (operand : Kind) :
    Option ValueError :=
  if operand ∈ taken then none else some (.operand o k operand)

/-- Why the operator fails on a value of kind `k`, if the kinds say so. -/
def failure? (k : Kind) (o : Operator) (operand : Kind) : Option ValueError :=
  match k, o with
  | .boolean, .not | .number, .not | .vector, .not => none
  | .boolean, .compare => operand.castFailure? .boolean
  | .number, .plus | .number, .minus | .number, .multiply | .number, .divide | .number, .modulo
  | .number, .compare => operand.castFailure? .number
  | .text, .plus | .text, .compare => none
  | .text, .minus => k.operandFailure? o [.text, .number] operand
  | .vector, .plus | .vector, .minus | .vector, .modulo | .vector, .project
  | .vector, .dot => operand.castFailure? .vector
  | .vector, .divide => operand.castFailure? .number
  | .vector, .multiply | .vector, .compare => k.operandFailure? o [.number, .vector] operand
  | k, o => some (.operator o k)

/-- The result of the operator, as far as the kinds go. -/
def apply (k : Kind) (o : Operator) (operand : Kind) : Except ValueError Kind :=
  (k.failure? o operand).elim (.ok (o.resultKind k)) .error

/-- The kind of the running value behind a step with this result. -/
def next (k : Kind) : Except ValueError Kind → Kind
  | .ok j => j
  | .error _ => k

/-- A program of operators, each with the kind of its operand, on a running kind. -/
def run (k : Kind) : List (Operator × Kind) → List (Except ValueError Kind) × Kind
  | [] => ([], k)
  | (o, operand) :: steps =>
    let result := k.apply o operand
    let (results, final) := (k.next result).run steps
    (result :: results, final)

end Kind

namespace Primitive

/-! ## Predictions -/

/-- The result fails for the given reason, and succeeds with a good value if there is none.
With a text operand it may fail where no reason is given. -/
inductive Predicted {α : Type} (good : α → Prop) : Kind → Option ValueError →
    Except ValueError α → Prop where
  | ok {operand : Kind} {a : α} : good a → Predicted good operand none (.ok a)
  | error {operand : Kind} {e : ValueError} : Predicted good operand (some e) (.error e)
  | unreadable {e : ValueError} : Predicted good .text none (.error e)

theorem Predicted.bind {α β : Type} {any : α → Prop} {good : β → Prop} {operand : Kind}
    {reason : Option ValueError} {x : Except ValueError α} (h : Predicted any operand reason x)
    {f : α → β} (hf : ∀ a, good (f a)) : Predicted good operand reason (do return f (← x)) := by
  cases h with
  | ok => exact .ok (hf _)
  | error => exact .error
  | unreadable => exact .unreadable

theorem Predicted.good_of_ok {α : Type} {good : α → Prop} {operand : Kind}
    {reason : Option ValueError} {x : Except ValueError α} (h : Predicted good operand reason x)
    {a : α} (hx : x = .ok a) : good a := by
  cases h with
  | ok ha =>
    cases hx
    exact ha
  | error | unreadable => cases hx

/-- Without a text operand the reason decides. -/
theorem Predicted.map_kind {k operand : Kind} {reason : Option ValueError}
    {x : Except ValueError Primitive} (h : Predicted (fun r => r.kind = k) operand reason x)
    (ho : operand ≠ .text) : x.map kind = reason.elim (.ok k) .error := by
  cases h with
  | ok ha => exact congrArg Except.ok ha
  | error => rfl
  | unreadable => exact absurd rfl ho

/-! ## Casts -/

theorem toBoolean_predicted (q : Primitive) :
    Predicted (fun _ => True) q.kind (q.kind.castFailure? .boolean) q.toBoolean := by
  cases q with
  | boolean | number => exact .ok trivial
  | text s =>
    rw [toBoolean]
    cases readBoolean? s with
    | none => exact .unreadable
    | some b => exact .ok trivial
  | vector => exact .error

theorem toNumber_predicted (q : Primitive) :
    Predicted (fun _ => True) q.kind (q.kind.castFailure? .number) q.toNumber := by
  cases q with
  | boolean | number | vector => exact .ok trivial
  | text s =>
    rw [toNumber]
    cases Numeral.Binary.read? .single (Text.trim s.toList) with
    | none => exact .unreadable
    | some n => exact .ok trivial

theorem toVector_predicted (q : Primitive) :
    Predicted (fun _ => True) q.kind (q.kind.castFailure? .vector) q.toVector := by
  cases q with
  | boolean | number => exact .error
  | text s =>
    rw [toVector]
    cases Vec3.read? s.toList with
    | none => exact .unreadable
    | some v => exact .ok trivial
  | vector => exact .ok trivial

/-! ## Operators -/

/-- The result of the operator is what the kinds say. -/
def Foretold (o : Operator) (p q : Primitive) (x : Except ValueError Primitive) : Prop :=
  Predicted (fun r => r.kind = o.resultKind p.kind) q.kind (p.kind.failure? o q.kind) x

section

variable (p q : Primitive)

theorem plus_foretold : Foretold .plus p q (p.plus q) := by
  cases p with
  | boolean => exact .error
  | number => exact (toNumber_predicted q).bind fun _ => rfl
  | text => exact .ok rfl
  | vector => exact (toVector_predicted q).bind fun _ => rfl

theorem minus_foretold : Foretold .minus p q (p.minus q) := by
  cases p with
  | boolean => exact .error
  | number => exact (toNumber_predicted q).bind fun _ => rfl
  | text =>
    cases q with
    | text | number => exact .ok rfl
    | boolean | vector => exact .error
  | vector => exact (toVector_predicted q).bind fun _ => rfl

theorem multiply_foretold : Foretold .multiply p q (p.multiply q) := by
  cases p with
  | boolean | text => exact .error
  | number => exact (toNumber_predicted q).bind fun _ => rfl
  | vector =>
    cases q with
    | vector | number => exact .ok rfl
    | boolean | text => exact .error

theorem divide_foretold : Foretold .divide p q (p.divide q) := by
  cases p with
  | boolean | text => exact .error
  | number | vector => exact (toNumber_predicted q).bind fun _ => rfl

theorem modulo_foretold : Foretold .modulo p q (p.modulo q) := by
  cases p with
  | boolean | text => exact .error
  | number => exact (toNumber_predicted q).bind fun _ => rfl
  | vector => exact (toVector_predicted q).bind fun _ => rfl

theorem negate_foretold : Foretold .not p q p.negate := by
  cases p with
  | boolean | number | vector => exact .ok rfl
  | text => exact .error

theorem order_predicted :
    Predicted (fun _ => True) q.kind (p.kind.failure? .compare q.kind) (p.order q) := by
  cases p with
  | boolean => exact (toBoolean_predicted q).bind fun _ => trivial
  | number => exact (toNumber_predicted q).bind fun _ => trivial
  | text => exact .ok trivial
  | vector =>
    cases q with
    | vector | number => exact .ok trivial
    | boolean | text => exact .error

theorem kind_ofOrdering (c : Ordering) : (ofOrdering c).kind = .number := by
  cases c <;> rfl

theorem project_foretold : Foretold .project p q (p.project q) := by
  cases p with
  | boolean | number | text => exact .error
  | vector => exact (toVector_predicted q).bind fun _ => rfl

theorem dot_foretold : Foretold .dot p q (p.dot q) := by
  cases p with
  | boolean | number | text => exact .error
  | vector => exact (toVector_predicted q).bind fun _ => rfl

end

theorem failure?_of_not_supports {p : Primitive} {o : Operator} (h : p.supports o = false)
    (operand : Kind) : p.kind.failure? o operand = some (.operator o p.kind) := by
  cases p with
  | boolean =>
    cases o with
    | not | compare => cases h
    | _ => rfl
  | number =>
    cases o with
    | project | dot => rfl
    | _ => cases h
  | text =>
    cases o with
    | plus | minus | compare => cases h
    | _ => rfl
  | vector => cases h

/-- What one step does. -/
theorem apply_foretold (p : Primitive) (o : Operator) (q : Primitive) :
    Foretold o p q (p.apply o q) := by
  unfold apply
  by_cases hs : p.supports o = true
  · rw [if_pos hs]
    cases o with
    | plus => exact plus_foretold p q
    | minus => exact minus_foretold p q
    | multiply => exact multiply_foretold p q
    | divide => exact divide_foretold p q
    | modulo => exact modulo_foretold p q
    | not => exact negate_foretold p q
    | compare => exact (order_predicted p q).bind kind_ofOrdering
    | project => exact project_foretold p q
    | dot => exact dot_foretold p q
  · rw [if_neg hs, Foretold, failure?_of_not_supports (Bool.eq_false_iff.mpr hs)]
    exact .error

theorem kind_of_apply {p q r : Primitive} {o : Operator} (h : p.apply o q = .ok r) :
    r.kind = o.resultKind p.kind :=
  (apply_foretold p o q).good_of_ok h

theorem map_kind_apply {q : Primitive} (hq : q.kind ≠ .text) (p : Primitive) (o : Operator) :
    (p.apply o q).map kind = p.kind.apply o q.kind :=
  (apply_foretold p o q).map_kind hq

/-! ## Programs -/

/-- The running value behind a step with this result. -/
def next (p : Primitive) : Except ValueError Primitive → Primitive
  | .ok q => q
  | .error _ => p

theorem kind_next (p : Primitive) (x : Except ValueError Primitive) :
    (p.next x).kind = p.kind.next (x.map kind) := by
  cases x <;> rfl

theorem run_cons (p : Primitive) (s : Step) (steps : List Step) :
    p.run (s :: steps) =
      (p.apply s.operator s.operand ::
        ((p.next (p.apply s.operator s.operand)).run steps).1,
        ((p.next (p.apply s.operator s.operand)).run steps).2) := rfl

/-- What a step shows without its value. -/
def Step.outline (s : Step) : Operator × Kind := (s.operator, s.operand.kind)

/-- A program without text operands runs on values as it does on kinds. -/
theorem run_kind {steps : List Step} (h : ∀ s ∈ steps, s.operand.kind ≠ .text) (p : Primitive) :
    (p.run steps).1.map (Except.map kind) = (p.kind.run (steps.map Step.outline)).1 ∧
      (p.run steps).2.kind = (p.kind.run (steps.map Step.outline)).2 := by
  induction steps generalizing p with
  | nil => exact ⟨rfl, rfl⟩
  | cons s steps ih =>
    obtain ⟨hs, h⟩ := List.forall_mem_cons.mp h
    have hresult := map_kind_apply hs p s.operator
    obtain ⟨hresults, hfinal⟩ := ih h (p.next (p.apply s.operator s.operand))
    rw [kind_next, hresult] at hresults hfinal
    rw [run_cons]
    refine ⟨?_, hfinal⟩
    rw [List.map_cons, hresults, hresult]
    rfl

/-- The step measures the running value and succeeds. -/
def MeasuredBy (p : Primitive) (s : Step) : Prop :=
  s.operator.measures = true ∧ ∃ r, p.apply s.operator s.operand = .ok r

/-- What one step does to the kind of the running value. -/
theorem kind_next_apply (p : Primitive) (s : Step) :
    (p.MeasuredBy s → (p.next (p.apply s.operator s.operand)).kind = .number) ∧
      (¬ p.MeasuredBy s → (p.next (p.apply s.operator s.operand)).kind = p.kind) := by
  constructor
  · intro h
    obtain ⟨hm, r, hr⟩ := h
    rw [hr]
    show r.kind = .number
    rw [kind_of_apply hr, Operator.resultKind, if_pos hm]
  · intro h
    cases hr : p.apply s.operator s.operand with
    | error e => rfl
    | ok r =>
      have hm : ¬ s.operator.measures = true := fun hm => h ⟨hm, r, hr⟩
      show r.kind = p.kind
      rw [kind_of_apply hr, Operator.resultKind, if_neg hm]

/-- One of the first `n` steps measures the running value and succeeds. -/
def Measured (p : Primitive) (steps : List Step) (n : Nat) : Prop :=
  ∃ i < n, ∃ s r, steps[i]? = some s ∧ s.operator.measures = true ∧
    (p.run steps).1[i]? = some (.ok r)

theorem measured_cons {p : Primitive} {s : Step} {steps : List Step} {n : Nat} :
    Measured p (s :: steps) (n + 1) ↔
      p.MeasuredBy s ∨ Measured (p.next (p.apply s.operator s.operand)) steps n := by
  constructor
  · intro h
    obtain ⟨i, hi, t, r, ht, hm, hr⟩ := h
    cases i with
    | zero =>
      cases ht
      exact .inl ⟨hm, r, Option.some.inj hr⟩
    | succ i => exact .inr ⟨i, Nat.lt_of_succ_lt_succ hi, t, r, ht, hm, hr⟩
  · intro h
    rcases h with ⟨hm, r, hr⟩ | ⟨i, hi, t, r, ht, hm, hr⟩
    · exact ⟨0, Nat.succ_pos n, s, r, rfl, hm, congrArg some hr⟩
    · exact ⟨i + 1, Nat.succ_lt_succ hi, t, r, ht, hm, hr⟩

/-- The running value keeps its kind until a step measures it, and is a number from then
on. -/
theorem kind_run_take (p : Primitive) (steps : List Step) (n : Nat) :
    (Measured p steps n → (p.run (steps.take n)).2.kind = .number) ∧
      (¬ Measured p steps n → (p.run (steps.take n)).2.kind = p.kind) := by
  induction steps generalizing p n with
  | nil =>
    rw [List.take_nil]
    refine ⟨?_, fun _ => rfl⟩
    intro h
    obtain ⟨i, -, s, r, hs, -⟩ := h
    cases hs
  | cons s steps ih =>
    cases n with
    | zero =>
      refine ⟨?_, fun _ => rfl⟩
      intro h
      obtain ⟨i, hi, -⟩ := h
      exact absurd hi (Nat.not_lt_zero i)
    | succ n =>
      obtain ⟨hnumber, hkept⟩ := ih (p.next (p.apply s.operator s.operand)) n
      rw [List.take_succ_cons, run_cons, measured_cons]
      by_cases hs : p.MeasuredBy s
      · -- The value is a number from here on, measured again or not.
        have hnext := (kind_next_apply p s).1 hs
        refine ⟨fun _ => ?_, fun h => absurd (.inl hs) h⟩
        by_cases h : Measured (p.next (p.apply s.operator s.operand)) steps n
        · exact hnumber h
        · exact (hkept h).trans hnext
      · have hnext := (kind_next_apply p s).2 hs
        refine ⟨fun h => hnumber (h.resolve_left hs), fun h => ?_⟩
        exact (hkept fun hm => h (.inr hm)).trans hnext

/-- The running value of a program keeps its kind up to the first step that measures it, and
is a number from then on.  Two programs that differ in their values only, texts apart, show
the same results up to these values: they fail at the same steps for the same reasons. -/
theorem run_kinds :
    (∀ (p : Primitive) (steps : List Step) (n : Nat),
      (Measured p steps n → (p.run (steps.take n)).2.kind = .number) ∧
      (¬ Measured p steps n → (p.run (steps.take n)).2.kind = p.kind)) ∧
    ∀ (p q : Primitive) (steps others : List Step), p.kind = q.kind →
      steps.map Step.outline = others.map Step.outline →
      (∀ s ∈ steps, s.operand.kind ≠ .text) →
      (p.run steps).1.map (Except.map kind) = (q.run others).1.map (Except.map kind) ∧
      ∀ n, (p.run (steps.take n)).2.kind = (q.run (others.take n)).2.kind := by
  refine ⟨kind_run_take, ?_⟩
  intro p q steps others hp ho hs
  have hothers : ∀ s ∈ others, s.operand.kind ≠ .text := by
    intro s hmem
    have hout : s.outline ∈ steps.map Step.outline := ho ▸ List.mem_map_of_mem hmem
    obtain ⟨t, ht, he⟩ := List.mem_map.mp hout
    have hkind : t.operand.kind = s.operand.kind := congrArg Prod.snd he
    rw [← hkind]
    exact hs t ht
  constructor
  · rw [(run_kind hs p).1, (run_kind hothers q).1, hp, ho]
  · intro n
    have hn : ∀ s ∈ steps.take n, s.operand.kind ≠ .text :=
      fun s hmem => hs s (List.mem_of_mem_take hmem)
    have hm : ∀ s ∈ others.take n, s.operand.kind ≠ .text :=
      fun s hmem => hothers s (List.mem_of_mem_take hmem)
    rw [(run_kind hn p).2, (run_kind hm q).2, hp, List.map_take, List.map_take, ho]

/-- A vector with components that are not numbers and a zero vector: the sum with a boolean
fails on both, the comparison makes both a number, and a number has no dot product. -/
theorem run_kinds_not_a_number :
    let zero : Vec3 := ⟨.zero .double false, .zero .double true, .zero .double false⟩
    let p : Primitive := .vector ⟨.nan, .infinite true, .nan⟩
    let steps : List Step := [⟨.divide, .number .nan⟩, ⟨.plus, .boolean true⟩,
      ⟨.compare, .number (.infinite false)⟩, ⟨.dot, .vector zero⟩]
    let others : List Step := [⟨.divide, .number (.infinite true)⟩, ⟨.plus, .boolean false⟩,
      ⟨.compare, .number .nan⟩, ⟨.dot, p⟩]
    ((p.run steps).1.map (Except.map kind) = [.ok .vector, .error (.coercion .boolean .vector),
        .ok .number, .error (.operator .dot .number)] ∧
      (p.run steps).1.map (Except.map kind) = ((vector zero).run others).1.map (Except.map kind) ∧
      ∀ n, (p.run (steps.take n)).2.kind = ((vector zero).run (others.take n)).2.kind) ∧
    Measured p steps 3 ∧ (p.run (steps.take 3)).2.kind = .number := by
  intro zero p steps others
  have htexts : ∀ s ∈ steps, s.operand.kind ≠ .text := by simp [steps, kind]
  have houtline : steps.map Step.outline = others.map Step.outline := by
    simp [steps, others, p, Step.outline, kind]
  have hkind : p.kind = (vector zero).kind := by simp [p, kind]
  have hsame := run_kinds.2 p (vector zero) steps others hkind houtline htexts
  have hmeasured : Measured p steps 3 := ⟨2, by decide, _, _, rfl, rfl, rfl⟩
  exact ⟨⟨(run_kind htexts p).1, hsame⟩, hmeasured, (run_kinds.1 p steps 3).1 hmeasured⟩

end Primitive
end DeviceScript
