/-
Writing conditions down.

A condition tree is written with as few parentheses as its reading allows.
Connectives bind to the left, so a left operand needs none, and a right operand or a
negated one needs them when it is joined itself.  The trees that can be written are
those whose leaves are aggregates of one comparison, negated or not, on the device of
their selector.

A tree that is written down derives itself in the grammar whatever follows it, as long
as that ends a block run.  Its parts are followed by a connective, by a parenthesis or
by the end of the line, so the grammar puts the tree together from its parts, and the
condition pass reads it back.
-/
import DeviceScript.Proofs.Pass.Run

namespace DeviceScript
namespace Condition

/-! ## Trees that can be written -/

/-- The device that a comparison is on.  Other conditions are on none of their own. -/
def device? : Condition → Option Device
  | .boolean d _ _ _ | .text d _ _ _ | .numeric d _ _ _ => some d
  | _ => none

/-- One comparison on the device, or the negation of one. -/
inductive OnDevice (d : Device) : Condition → Prop where
  | plain {c : Condition} : c.device? = some d → OnDevice d c
  | negated {c : Condition} : c.device? = some d → OnDevice d (.not c)

/-- The leaves are aggregates of one comparison, negated or not, on the device of their
selector. -/
inductive Aggregated : Condition → Prop where
  | leaf {mode : Aggregation} {c : Condition} {s : Selector} :
      OnDevice s.device c → Aggregated (.aggregate mode c s)
  | not {c : Condition} : Aggregated c → Aggregated (.not c)
  | join {left right : Condition} (k : Connective) :
      Aggregated left → Aggregated right → Aggregated (k.join left right)

/-- The devices that occur in a condition. -/
def devices : Condition → List Device
  | .boolean d _ _ _ | .text d _ _ _ | .numeric d _ _ _ => [d]
  | .aggregate _ c s => s.device :: c.devices
  | .not c => c.devices
  | .and l r | .or l r => l.devices ++ r.devices

end Condition

/-- The registry has a standard handler for each device that occurs in the condition. -/
def Registry.Handles (registry : Registry) (c : Condition) : Prop :=
  ∀ d ∈ c.devices, ∃ defaults : Defaults, registry.handler? d = some (defaults.handler d)

/-! ## The tokens of a tree -/

namespace Condition

def isJoin : Condition → Bool
  | .and _ _ | .or _ _ => true
  | _ => false

def parenthesise (group : Bool) (tokens : List Token) : List Token :=
  if group then .openParen :: (tokens ++ [.closeParen]) else tokens

def tokens : Condition → List Token
  | .boolean _ p c v => [.property (.boolean p), .comparison c, .boolean v]
  | .text _ p c v => [.property (.text p), .comparison c, .text v []]
  | .numeric _ p c v => [.property (.numeric p), .comparison c, .number v]
  | .aggregate m c s => .aggregation m :: .selector s :: c.tokens
  | .not c => .not :: parenthesise c.isJoin c.tokens
  | .and l r => l.tokens ++ .and :: parenthesise r.isJoin r.tokens
  | .or l r => l.tokens ++ .or :: parenthesise r.isJoin r.tokens

/-- How many negations and parentheses stand around an aggregate where a tree is
written, at most.  A negation inside an aggregate stands around none. -/
def nesting : Condition → Nat
  | .boolean _ _ _ _ | .text _ _ _ _ | .numeric _ _ _ _ | .aggregate _ _ _ => 0
  | .not c => c.nesting + c.isJoin.toNat + 1
  | .and l r | .or l r => max l.nesting (r.nesting + r.isJoin.toNat)

end Condition

def Connective.token : Connective → Token
  | .and => .and
  | .or => .or

namespace Condition

theorem tokens_join (k : Connective) (l r : Condition) :
    (k.join l r).tokens = l.tokens ++ k.token :: parenthesise r.isJoin r.tokens := by
  cases k <;> rfl

theorem nesting_join (k : Connective) (l r : Condition) :
    (k.join l r).nesting = max l.nesting (r.nesting + r.isJoin.toNat) := by
  cases k <;> rfl

theorem devices_join (k : Connective) (l r : Condition) :
    (k.join l r).devices = l.devices ++ r.devices := by
  cases k <;> rfl

theorem isJoin_join (k : Connective) (l r : Condition) : (k.join l r).isJoin = true := by
  cases k <;> rfl

end Condition

/-! ## The grammar on tokens -/

namespace Piece

/-- The span is one operand with the given tree when `rest` follows it, and `n` is the
largest number of negations and parentheses around one of its runs. -/
def Operand (registry : Registry) (span rest : List Token) (n : Nat) (c : Condition) : Prop :=
  ∃ pieces, Spelled registry rest pieces span ∧ IsOperand pieces n c

section

variable {registry : Registry} {span rest : List Token} {n : Nat} {c : Condition}

theorem Operand.run (h : IsRun registry span rest c) : Operand registry span rest 0 c := by
  refine ⟨[.operand c], ?_, .run c⟩
  have hs : Spelled registry rest [.operand c] (span ++ []) := .run h .nil
  rwa [List.append_nil] at hs

theorem Operand.not (h : Operand registry span rest n c) :
    Operand registry (.not :: span) rest (n + 1) (.not c) := by
  obtain ⟨pieces, hs, hc⟩ := h
  exact ⟨.not :: pieces, .mark rfl hs, .not hc⟩

theorem Operand.group (h : Expression registry span (.closeParen :: rest) n c) :
    Operand registry (.openParen :: (span ++ [.closeParen])) rest (n + 1) c := by
  obtain ⟨pieces, hs, hc⟩ := h
  have hclose : Spelled registry rest [.closeParen] [.closeParen] := .mark rfl .nil
  exact ⟨.openParen :: (pieces ++ [.closeParen]), .mark rfl (hs.append hclose), .group hc⟩

theorem Operand.expression (h : Operand registry span rest n c) :
    Expression registry span rest n c := by
  obtain ⟨pieces, hs, hc⟩ := h
  exact ⟨pieces, hs, .operand hc⟩

theorem Expression.join {left right : List Token} {m : Nat} {d : Condition} (k : Connective)
    (hl : Expression registry left (k.token :: (right ++ rest)) n c)
    (hr : Operand registry right rest m d) :
    Expression registry (left ++ k.token :: right) rest (max n m) (k.join c d) := by
  obtain ⟨front, hf, hc⟩ := hl
  obtain ⟨back, hb, hd⟩ := hr
  have hk : (Piece.join k).mark? = some k.token := by cases k <;> rfl
  exact ⟨front ++ .join k :: back, hf.append (.mark hk hb), .join k hc hd⟩

end

/-! ## Trees derive themselves -/

/-- The first token ends every block run. -/
def Stops (rest : List Token) : Prop := ∀ t ∈ rest.head?, ∀ r : ConditionRun, r.take t = none

theorem stops_nil : Stops [] := nofun

theorem stops_closeParen (rest : List Token) : Stops (.closeParen :: rest) := by
  intro t ht r
  cases ht
  rfl

theorem stops_connective (k : Connective) (rest : List Token) : Stops (k.token :: rest) := by
  intro t ht r
  cases ht
  cases k <;> rfl

section

variable {registry : Registry}

/-- The tokens of a comparison complete a run that has its selector and aggregation. -/
theorem exists_run_comparison {c : Condition} {s : Selector} {defaults : Defaults}
    (hc : c.device? = some s.device)
    (hs : registry.handler? s.device = some (defaults.handler s.device))
    (mode : Aggregation) (invert : Bool) :
    ∃ r, c.tokens.foldlM ConditionRun.take
        { selector := some s, aggregation := some mode, invertEach := invert } = some r ∧
      (r.condition registry 0 0).result = .ok (.aggregate mode (c.notIf invert) s) := by
  cases c with
  | boolean d p k v | text d p k v | numeric d p k v =>
    cases hc
    refine ⟨_, rfl, ?_⟩
    simp only [ConditionRun.condition, hs]
    rfl
  | aggregate | not | and | or => cases hc

theorem isRun_leaf {c : Condition} {s : Selector} {defaults : Defaults}
    (hc : Condition.OnDevice s.device c)
    (hs : registry.handler? s.device = some (defaults.handler s.device))
    (mode : Aggregation) {rest : List Token} (hr : Stops rest) :
    IsRun registry (Condition.aggregate mode c s).tokens rest (.aggregate mode c s) := by
  refine isRun_iff.mpr ⟨?_, ?_⟩
  · intro t ht
    cases ht
    exact ⟨nofun, nofun⟩
  · cases hc with
    | plain hc =>
      obtain ⟨r, hf, hk⟩ := exists_run_comparison hc hs mode false
      exact ⟨r, hf, fun t ht => hr t ht r, hk⟩
    | @negated b hc =>
      obtain ⟨r, hf, hk⟩ := exists_run_comparison hc hs mode true
      have hb : b.isJoin = false := by cases b <;> first | rfl | cases hc
      refine ⟨r, ?_, fun t ht => hr t ht r, hk⟩
      simp only [Condition.tokens, hb, Condition.parenthesise]
      exact hf

/-- The tree, written down, derives itself in front of anything that ends a run. -/
structure Derived (registry : Registry) (c : Condition) : Prop where
  expression : ∀ rest, Stops rest → Expression registry c.tokens rest c.nesting c
  operand : c.isJoin = false → ∀ rest, Stops rest → Operand registry c.tokens rest c.nesting c

theorem Derived.of_operand {c : Condition}
    (h : ∀ rest, Stops rest → Operand registry c.tokens rest c.nesting c) :
    Derived registry c := by
  constructor
  · intro rest hr
    exact (h rest hr).expression
  · intro _
    exact h

theorem Derived.parenthesise {c : Condition} (h : Derived registry c) {rest : List Token}
    (hr : Stops rest) :
    Operand registry (Condition.parenthesise c.isJoin c.tokens) rest
      (c.nesting + c.isJoin.toNat) c := by
  by_cases hj : c.isJoin = true
  · rw [hj, Condition.parenthesise, if_pos rfl]
    exact .group (h.expression _ (stops_closeParen rest))
  · rw [Bool.not_eq_true] at hj
    rw [hj, Condition.parenthesise, if_neg Bool.false_ne_true]
    exact h.operand hj rest hr

end

theorem derived_of_aggregated {registry : Registry} {c : Condition} (h : c.Aggregated)
    (hh : registry.Handles c) : Derived registry c := by
  induction h with
  | @leaf mode c s hc =>
    obtain ⟨defaults, hs⟩ := hh s.device List.mem_cons_self
    refine .of_operand ?_
    intro rest hr
    exact .run (isRun_leaf hc hs mode hr)
  | not _ ih =>
    refine .of_operand ?_
    intro rest hr
    exact ((ih hh).parenthesise hr).not
  | @join left right k _ _ ihl ihr =>
    rw [Registry.Handles, Condition.devices_join] at hh
    have hl : Derived registry left := ihl fun d hd => hh d (List.mem_append_left _ hd)
    have hr : Derived registry right := ihr fun d hd => hh d (List.mem_append_right _ hd)
    constructor
    · intro rest hrest
      rw [Condition.tokens_join, Condition.nesting_join]
      exact .join k (hl.expression _ (stops_connective k _)) (hr.parenthesise hrest)
    · intro hj
      rw [Condition.isJoin_join] at hj
      cases hj

end Piece

namespace Pass

open Piece

/-- A condition that is written down behind a `whether` is read back unchanged. -/
theorem condition_run_tokens (registry : Registry) (limit : Nat) (c : Condition)
    (hc : c.Aggregated) (hh : registry.Handles c) (hn : c.nesting < limit) :
    ((condition registry limit).run ([.whether] ++ c.tokens)).result =
      .ok [.whether, .condition c] := by
  have hx : Expression registry c.tokens [] c.nesting c :=
    (derived_of_aggregated hc hh).expression [] stops_nil
  have he : Ends [] := ⟨nofun, nofun⟩
  have hs : ((condition registry limit).step [] .whether c.tokens).result =
      .ok { emit := [.whether, .condition c], skip := c.tokens.length } :=
    condition_step_eq_ok.mpr
      ⟨c.tokens, [], c.nesting, c, (List.append_nil _).symm, hx, hn, he, rfl⟩
  refine (condition_forward registry limit).run_eq_ok.mpr ?_
  show Yields _ (.whether :: c.tokens) ([.whether, .condition c] ++ [])
  refine .step rfl hs ?_
  rw [Step.ahead, List.drop_length]
  exact .nil

/-- A negated group with a group on its right, a negation inside an aggregate and one
around an aggregate, at the smallest limit that lets them pass. -/
theorem condition_run_tokens_nested :
    let registry : Registry := Registry.empty.register .door ⟨.open, .closedRatio, .name, .up⟩
    let gate : Selector := ⟨.door, false, "Gate", some 1⟩
    let isOpen : Condition := .boolean .door .open .equal true
    let isNamed : Condition := .text .door .name .greater "A"
    let c : Condition := .not (.or (.aggregate .any (.not isOpen) gate)
      (.and (.not (.aggregate .all isNamed gate)) (.aggregate .none isOpen gate)))
    c.Aggregated ∧ registry.Handles c ∧ c.nesting < 5 ∧
      ((condition registry 5).run ([.whether] ++ c.tokens)).result =
        .ok [.whether, .condition c] := by
  intro registry gate isOpen isNamed c
  have hc : c.Aggregated :=
    .not (.join .or (.leaf (.negated rfl))
      (.join .and (.not (.leaf (.plain rfl))) (.leaf (.plain rfl))))
  have hh : registry.Handles c := by
    intro d hd
    have hdoor : ∀ e ∈ c.devices, e = .door := by decide
    rw [hdoor d hd]
    exact ⟨_, rfl⟩
  have hn : c.nesting < 5 := by decide
  exact ⟨hc, hh, hn, condition_run_tokens registry 5 c hc hh hn⟩

end Pass
end DeviceScript
