/-
The operators on values.

Each operator first casts its operand to the kind of the value it stands on; a
cast that fails is the error of the whole operation.  `Primitive.supports` is the
table of which kind takes which operator, and `Primitive.apply` looks there
before it calls the operator.
-/
import DeviceScript.Primitive.Basic
import DeviceScript.Text.Cut
import DeviceScript.Text.Order

namespace DeviceScript
namespace Primitive

/-- The error of an operator that the kind of `p` does not take. -/
def refuse {α : Type} (p : Primitive) (o : Operator) : Except ValueError α :=
  .error (.operator o p.kind)

/-- The error of an operand that the operator does not take on the kind of `p`. -/
def refuseOperand {α : Type} (p : Primitive) (o : Operator) (q : Primitive) :
    Except ValueError α :=
  .error (.operand o p.kind q.kind)

/-- Whether values of this kind take the operator. -/
def supports (p : Primitive) (o : Operator) : Bool :=
  match p with
  | .boolean _ => o.isUnary || o == .compare
  | .number _ => o.isArithmetic || o.isUnary || o == .compare
  | .text _ => o == .plus || o == .minus || o == .compare
  | .vector _ => true

def plus (p q : Primitive) : Except ValueError Primitive :=
  match p with
  | .boolean _ => p.refuse .plus
  | .number n => do return .number (n + (← q.toNumber))
  | .text s => .ok (.text (s ++ q.toText))
  | .vector v => do return .vector (v.add (← q.toVector))

/-- The largest size.  Sizes have sixty-four bits, which is enough for every text that
there is room for. -/
def largestSize (length : Nat) : Nat := max (2 ^ 64 - 1) length

/-- How many characters of a text of `length` characters are kept when `n` is
subtracted from it: as many as `n` says if it is not negative and they are fewer
than there are, and none otherwise. -/
def keptLength (n : Single) (length : Nat) : Nat :=
  let kept := n.toSize (largestSize length)
  if n.isNegative || decide (length ≤ kept) then 0 else kept

/-- From a text, a text takes away its first occurrence, and a number leaves that
many characters at the start. -/
def minus (p q : Primitive) : Except ValueError Primitive :=
  match p with
  | .boolean _ => p.refuse .minus
  | .number n => do return .number (n - (← q.toNumber))
  | .text s =>
    match q with
    | .text t => .ok (.text (String.ofList (Text.eraseFirst t.toList s.toList)))
    | .number n => .ok (.text (String.ofList (s.toList.take (keptLength n s.toList.length))))
    | _ => p.refuseOperand .minus q
  | .vector v => do return .vector (v.sub (← q.toVector))

/-- Two vectors give their cross product. -/
def multiply (p q : Primitive) : Except ValueError Primitive :=
  match p with
  | .number n => do return .number (n * (← q.toNumber))
  | .vector v =>
    match q with
    | .vector w => .ok (.vector (v.cross w))
    | .number k => .ok (.vector (v.scale (k.convert .double)))
    | _ => p.refuseOperand .multiply q
  | _ => p.refuse .multiply

def divide (p q : Primitive) : Except ValueError Primitive :=
  match p with
  | .number n => do return .number (n / (← q.toNumber))
  | .vector v => do return .vector (v.shrink ((← q.toNumber).convert .double))
  | _ => p.refuse .divide

/-- The remainder of a number; of a vector, the part across the operand. -/
def modulo (p q : Primitive) : Except ValueError Primitive :=
  match p with
  | .number n => do return .number (n % (← q.toNumber))
  | .vector v => do return .vector (v.across (← q.toVector))
  | _ => p.refuse .modulo

def negate (p : Primitive) : Except ValueError Primitive :=
  match p with
  | .boolean b => .ok (.boolean !b)
  | .number n => .ok (.number (-n))
  | .vector v => .ok (.vector v.neg)
  | .text _ => p.refuse .not

/-- False comes before true. -/
def orderBool (a b : Bool) : Ordering := if a = b then .eq else if a then .gt else .lt

/-- Vectors compare by length; against a number, after the length is rounded like
one. -/
def order (p q : Primitive) : Except ValueError Ordering :=
  match p with
  | .boolean b => do return orderBool b (← q.toBoolean)
  | .number n => do return n.order (← q.toNumber)
  | .text s => .ok (Text.order s.toList q.toText.toList)
  | .vector v =>
    match q with
    | .vector w => .ok (v.length.order w.length)
    | .number n => .ok (Numeral.Binary.order (v.length.convert .single) n)
    | _ => p.refuseOperand .compare q

def project (p q : Primitive) : Except ValueError Primitive :=
  match p with
  | .vector v => do return .vector (v.along (← q.toVector))
  | _ => p.refuse .project

def dot (p q : Primitive) : Except ValueError Primitive :=
  match p with
  | .vector v => do return .number ((v.dot (← q.toVector)).convert .single)
  | _ => p.refuse .dot

/-- The outcome of a comparison as a number. -/
def ofOrdering : Ordering → Primitive
  | .lt => .number (.ofInt .single (-1))
  | .eq => .number (.ofInt .single 0)
  | .gt => .number (.ofInt .single 1)

/-- The result of an operator; negation looks at no operand. -/
def apply (p : Primitive) (o : Operator) (q : Primitive) : Except ValueError Primitive :=
  if p.supports o then
    match o with
    | .plus => p.plus q
    | .minus => p.minus q
    | .multiply => p.multiply q
    | .divide => p.divide q
    | .modulo => p.modulo q
    | .not => p.negate
    | .compare => do return ofOrdering (← p.order q)
    | .project => p.project q
    | .dot => p.dot q
  else p.refuse o

/-- One step of a program of operators. -/
structure Step where
  operator : Operator
  operand : Primitive

/-- A program of operators on a running value: the result of each step, and the
value at the end.  A step that fails leaves the value as it was. -/
def run (p : Primitive) : List Step → List (Except ValueError Primitive) × Primitive
  | [] => ([], p)
  | s :: steps =>
    let result := p.apply s.operator s.operand
    let next := match result with
      | .ok q => q
      | .error _ => p
    let (results, final) := next.run steps
    (result :: results, final)

end Primitive
end DeviceScript
