/-
Computations that log events and may fail.

A failed computation keeps the events up to its failure.  The result of a chain of
computations does not depend on what was logged, which is what the lemmas on
`result` say.
-/
import DeviceScript.CompileError
import DeviceScript.Event

namespace DeviceScript

structure Logged (α : Type) where
  events : List Event
  result : Except CompileError α

namespace Logged

variable {α β : Type}

protected def pure (a : α) : Logged α := ⟨[], .ok a⟩

/-- One event and nothing else. -/
def emit (e : Event) : Logged Unit := ⟨[e], .ok ()⟩

/-- A failure without events. -/
def fail (e : CompileError) : Logged α := ⟨[], .error e⟩

/-- A result that comes without events. -/
def ofExcept (r : Except CompileError α) : Logged α := ⟨[], r⟩

/-- A result on values, as part of a compilation. -/
def ofValue : Except ValueError α → Logged α
  | .ok a => .pure a
  | .error e => fail (.value e)

protected def bind (x : Logged α) (f : α → Logged β) : Logged β :=
  match x with
  | ⟨events, .ok a⟩ => ⟨events ++ (f a).events, (f a).result⟩
  | ⟨events, .error e⟩ => ⟨events, .error e⟩

instance : Monad Logged where
  pure := Logged.pure
  bind := Logged.bind

@[simp] theorem result_pure (a : α) : (pure a : Logged α).result = .ok a := rfl

@[simp] theorem result_emit (e : Event) : (emit e).result = .ok () := rfl

@[simp] theorem result_fail (e : CompileError) : (fail e : Logged α).result = .error e := rfl

@[simp] theorem result_ofExcept (r : Except CompileError α) : (ofExcept r).result = r := rfl

theorem result_ofValue_eq_ok {r : Except ValueError α} {a : α} :
    (ofValue r).result = .ok a ↔ r = .ok a := by
  cases r <;> simp [ofValue, Logged.pure, fail]

@[simp] theorem result_bind (x : Logged α) (f : α → Logged β) :
    (x >>= f).result = x.result.bind fun a => (f a).result := by
  obtain ⟨events, r⟩ := x
  cases r <;> rfl

/-- A chain of two computations succeeds when both do. -/
theorem result_bind_eq_ok {x : Logged α} {f : α → Logged β} {b : β} :
    (x >>= f).result = .ok b ↔ ∃ a, x.result = .ok a ∧ (f a).result = .ok b := by
  rw [result_bind]
  cases x.result with
  | error e => simp [Except.bind]
  | ok a => simp [Except.bind]

/-- A chain of two computations fails where the first failure is. -/
theorem result_bind_eq_error {x : Logged α} {f : α → Logged β} {e : CompileError} :
    (x >>= f).result = .error e ↔
      x.result = .error e ∨ ∃ a, x.result = .ok a ∧ (f a).result = .error e := by
  rw [result_bind]
  cases x.result with
  | error e => simp [Except.bind]
  | ok a => simp [Except.bind]

end Logged
end DeviceScript
