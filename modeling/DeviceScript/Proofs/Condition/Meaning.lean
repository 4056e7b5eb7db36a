/-
What a block run says, and which of its faults is reported.

A run is the longest front part of a line with at most one token of each of five sorts
and any number of negations.  The reader of a run goes through it with a state, but what
the state holds in the end can be read off the run as a whole: the token of each sort if
there is one, and the parity of the negations on both sides of the first selector or
aggregation.  `Outcome` lists, in the order in which they are looked for, the faults that
a run can have, and what becomes of one without faults.
-/
import DeviceScript.Proofs.Condition.Read
import DeviceScript.Proofs.Pass.LongestRun

namespace DeviceScript

/-! ## Runs -/

/-- The sorts of token of which a run has at most one. -/
inductive Slot where
  | selector
  | comparison
  | aggregation
  | property
  | literal
deriving DecidableEq

namespace Token

def slot? : Token → Option Slot
  | .selector _ => some .selector
  | .comparison _ => some .comparison
  | .aggregation _ => some .aggregation
  | .property _ => some .property
  | .number _ | .boolean _ | .text .. => some .literal
  | _ => none

def selector? : Token → Option Selector
  | .selector s => some s
  | _ => none

def comparison? : Token → Option Comparison
  | .comparison c => some c
  | _ => none

def aggregation? : Token → Option Aggregation
  | .aggregation m => some m
  | _ => none

def isNot : Token → Bool
  | .not => true
  | _ => false

/-- The tokens behind which a negation is about each device. -/
def isAnchor : Token → Bool
  | .selector _ | .aggregation _ => true
  | _ => false

end Token

/-- A list of tokens that a block run can consist of. -/
structure Admissible (run : List Token) : Prop where
  only : ∀ t ∈ run, t = .not ∨ ∃ slot, t.slot? = some slot
  once : (run.filterMap Token.slot?).Nodup

/-- The longest block run at the start of a line. -/
structure LongestRun (line run : List Token) : Prop where
  front : run <+: line
  admissible : Admissible run
  longest : ∀ other, other <+: line → Admissible other → other.length ≤ run.length

namespace ConditionRun

/-- What a run says, read off its tokens. -/
def ofTokens (run : List Token) : ConditionRun where
  selector := run.findSome? Token.selector?
  comparison := run.findSome? Token.comparison?
  aggregation := run.findSome? Token.aggregation?
  property := run.findSome? Token.property?
  literal := run.findSome? Token.literal?
  invertAll := (run.takeWhile (!·.isAnchor)).countP Token.isNot % 2 == 1
  invertEach := (run.dropWhile (!·.isAnchor)).countP Token.isNot % 2 == 1

/-- Whether the run has a token of the sort. -/
def fills (r : ConditionRun) : Slot → Bool
  | .selector => r.selector.isSome
  | .comparison => r.comparison.isSome
  | .aggregation => r.aggregation.isSome
  | .property => r.property.isSome
  | .literal => r.literal.isSome

/-! ## The state of the reader -/

theorem fills_ofTokens (run : List Token) (slot : Slot) :
    (ofTokens run).fills slot = true ↔ slot ∈ run.filterMap Token.slot? := by
  rw [List.mem_filterMap]
  cases slot <;> simp only [fills, ofTokens, List.findSome?_isSome_iff]
  all_goals
    refine exists_congr fun t => and_congr_right fun _ => ?_
    cases t <;> simp [Token.slot?, Token.selector?, Token.comparison?, Token.aggregation?,
      Token.property?, Token.literal?]

theorem anchored_ofTokens (run : List Token) :
    ((ofTokens run).aggregation.isSome || (ofTokens run).selector.isSome) =
      run.any Token.isAnchor := by
  rw [Bool.eq_iff_iff, Bool.or_eq_true, List.any_eq_true]
  simp only [ofTokens, List.findSome?_isSome_iff, ← exists_or, ← and_or_left]
  refine exists_congr fun t => and_congr_right fun _ => ?_
  cases t <;> simp [Token.isAnchor, Token.aggregation?, Token.selector?]

theorem countP_not_takeWhile (run : List Token) (t : Token) :
    ((run ++ [t]).takeWhile (!·.isAnchor)).countP Token.isNot =
      (run.takeWhile (!·.isAnchor)).countP Token.isNot +
        (t.isNot && !run.any Token.isAnchor).toNat := by
  induction run with
  | nil => cases t <;> rfl
  | cons u run ih =>
    rw [List.cons_append, List.takeWhile_cons, List.takeWhile_cons, List.any_cons]
    by_cases hu : u.isAnchor = true
    · simp [hu]
    · simp only [hu, Bool.not_false, if_true, List.countP_cons, ih, Bool.false_or]
      omega

theorem countP_not_dropWhile (run : List Token) (t : Token) :
    ((run ++ [t]).dropWhile (!·.isAnchor)).countP Token.isNot =
      (run.dropWhile (!·.isAnchor)).countP Token.isNot +
        (t.isNot && run.any Token.isAnchor).toNat := by
  induction run with
  | nil => cases t <;> rfl
  | cons u run ih =>
    rw [List.cons_append, List.dropWhile_cons, List.dropWhile_cons, List.any_cons]
    by_cases hu : u.isAnchor = true
    · have ht : List.countP Token.isNot [t] = t.isNot.toNat := by cases t <;> rfl
      simp only [hu, Bool.not_true, Bool.false_eq_true, if_false, Bool.true_or, Bool.and_true]
      rw [← List.cons_append, List.countP_append, ht]
    · simp only [hu, Bool.not_false, if_true, ih, Bool.false_or]

theorem odd_add_toNat (n : Nat) (b : Bool) :
    ((n + b.toNat) % 2 == 1) = ((n % 2 == 1) ^^ b) := by
  cases b with
  | false => simp
  | true =>
    rcases Nat.mod_two_eq_zero_or_one n with h | h
    · have : (n + 1) % 2 = 1 := by omega
      simp [h, this]
    · have : (n + 1) % 2 = 0 := by omega
      simp [h, this]

theorem ofTokens_concat (run : List Token) (t : Token) :
    ofTokens (run ++ [t]) =
      { selector := (ofTokens run).selector.or t.selector?
        comparison := (ofTokens run).comparison.or t.comparison?
        aggregation := (ofTokens run).aggregation.or t.aggregation?
        property := (ofTokens run).property.or t.property?
        literal := (ofTokens run).literal.or t.literal?
        invertAll := (ofTokens run).invertAll ^^ (t.isNot && !run.any Token.isAnchor)
        invertEach := (ofTokens run).invertEach ^^ (t.isNot && run.any Token.isAnchor) } := by
  simp only [ofTokens, List.findSome?_append, List.findSome?_singleton, countP_not_takeWhile,
    countP_not_dropWhile, odd_add_toNat]

theorem take_ofTokens {run : List Token} {t : Token} {u : ConditionRun}
    (h : (ofTokens run).take t = some u) : u = ofTokens (run ++ [t]) := by
  rw [ofTokens_concat, ← anchored_ofTokens]
  generalize ofTokens run = r at h ⊢
  cases t with
  | selector | comparison | aggregation | property | number | boolean | text =>
    simp only [take, Token.literal?, Option.ite_none_left_eq_some, Option.some.injEq] at h
    obtain ⟨hn, rfl⟩ := h
    rw [Option.not_isSome_iff_eq_none] at hn
    simp [hn, Token.selector?, Token.comparison?, Token.aggregation?, Token.property?,
      Token.literal?, Token.isNot]
  | not =>
    by_cases ha : (r.aggregation.isSome || r.selector.isSome) = true
    · simp only [take, ha, if_true, Option.some.injEq] at h
      rw [← h, ha]
      simp [Token.selector?, Token.comparison?, Token.aggregation?, Token.property?,
        Token.literal?, Token.isNot]
    · simp only [take, if_neg ha, Option.some.injEq] at h
      rw [← h, Bool.eq_false_iff.mpr ha]
      simp [Token.selector?, Token.comparison?, Token.aggregation?, Token.property?,
        Token.literal?, Token.isNot]
  | _ => cases h

theorem take_isSome_iff (r : ConditionRun) (t : Token) :
    (r.take t).isSome = true ↔
      t = .not ∨ ∃ slot, t.slot? = some slot ∧ r.fills slot = false := by
  cases t with
  | selector | comparison | aggregation | property | number | boolean | text =>
    simp only [take, Token.literal?, Token.slot?, reduceCtorEq, false_or, Option.some.injEq,
      exists_eq_left', fills]
    split <;> simp_all
  | not =>
    simp only [take, true_or, iff_true]
    split <;> rfl
  | _ => simp [take, Token.literal?, Token.slot?]

end ConditionRun

theorem Admissible.of_append {front back : List Token} (h : Admissible (front ++ back)) :
    Admissible front := by
  refine ⟨fun t ht => h.only t (List.mem_append_left back ht), ?_⟩
  have honce := h.once
  rw [List.filterMap_append] at honce
  exact (List.nodup_append.mp honce).1

theorem admissible_concat {run : List Token} {t : Token} :
    Admissible (run ++ [t]) ↔ Admissible run ∧
      (t = .not ∨ ∃ slot, t.slot? = some slot ∧ slot ∉ run.filterMap Token.slot?) := by
  constructor
  · intro h
    refine ⟨h.of_append, ?_⟩
    rcases h.only t (by simp) with rfl | ⟨slot, hs⟩
    · exact .inl rfl
    · refine .inr ⟨slot, hs, fun hm => ?_⟩
      have honce := h.once
      rw [List.filterMap_append, List.nodup_append] at honce
      exact honce.2.2 slot hm slot (by simp [hs]) rfl
  · intro h
    obtain ⟨hrun, ht⟩ := h
    constructor
    · intro u hu
      rcases List.mem_append.mp hu with hu | hu
      · exact hrun.only u hu
      · rw [List.mem_singleton.mp hu]
        obtain rfl | ⟨slot, hs, -⟩ := ht
        · exact .inl rfl
        · exact .inr ⟨slot, hs⟩
    · rw [List.filterMap_append]
      obtain rfl | ⟨slot, hs, hm⟩ := ht
      · rw [show List.filterMap Token.slot? [.not] = [] from rfl, List.append_nil]
        exact hrun.once
      · rw [show List.filterMap Token.slot? [t] = [slot] by simp [hs], List.nodup_append]
        refine ⟨hrun.once, by simp, ?_⟩
        intro a ha b hb he
        rw [List.mem_singleton.mp hb] at he
        exact hm (he ▸ ha)

namespace ConditionRun

theorem take_isSome_ofTokens {run : List Token} (h : Admissible run) (t : Token) :
    ((ofTokens run).take t).isSome = true ↔ Admissible (run ++ [t]) := by
  simp only [take_isSome_iff, admissible_concat, h, true_and, ← fills_ofTokens,
    Bool.not_eq_true]

theorem readsOff : ReadsOff take Admissible ofTokens where
  nil := ⟨nofun, List.nodup_nil⟩
  of_append h := h.of_append
  take {run t u} hrun := by
    constructor
    · intro h
      have hsome : ((ofTokens run).take t).isSome = true := by rw [h]; rfl
      exact ⟨(take_isSome_ofTokens hrun t).mp hsome, take_ofTokens h⟩
    · intro h
      obtain ⟨hgood, rfl⟩ := h
      obtain ⟨u, hu⟩ := Option.isSome_iff_exists.mp ((take_isSome_ofTokens hrun t).mpr hgood)
      rw [hu, take_ofTokens hu]

/-- A scan takes the longest run and comes to what the run says. -/
theorem exists_longestRun (line : List Token) :
    ∃ run, LongestRun line run ∧ scan take {} line = (ofTokens run, run.length) := by
  obtain ⟨run, rest, rfl, h⟩ := readsOff.exists_longestFront line
  exact ⟨run, ⟨h.front, h.holds, h.longest⟩, readsOff.scan_of_longestFront h⟩

/-! ## The outcome -/

/-- The literal cannot be cast to the kind of the property. -/
inductive Uncastable : Property → Primitive → ValueError → Prop where
  | boolean {p : BooleanProperty} {v : Primitive} {e : ValueError} :
      v.toBoolean = .error e → Uncastable (.boolean p) v e
  | numeric {p : NumericProperty} {v : Primitive} {e : ValueError} :
      v.toNumber = .error e → Uncastable (.numeric p) v e

/-- What becomes of a run at a position.  The rules stand in the order in which they are
tried, and each says that none before it applies. -/
inductive Outcome (registry : Registry) (position : Nat) (r : ConditionRun) :
    Except CompileError Condition → Prop where
  | noSelector : r.selector = none →
      Outcome registry position r (.error (.conditionWithoutSelector position))
  | bare {s : Selector} : r.selector = some s → r.property = none → r.literal = none →
      Outcome registry position r (.error (.conditionWithoutValue position))
  | noHandler {s : Selector} : r.selector = some s → r.property ≠ none ∨ r.literal ≠ none →
      registry.handler? s.device = none →
      Outcome registry position r (.error (.unknownDevice s.device))
  | noLiteral {s : Selector} {h : Handler} {p : Property} : r.selector = some s →
      registry.handler? s.device = some h → r.property = some p → (∀ q, p ≠ .boolean q) →
      r.literal = none → Outcome registry position r (.error (.conditionWithoutValue position))
  | uncastable {s : Selector} {h : Handler} {p : Property} {v : Primitive} {e : ValueError} :
      r.selector = some s → registry.handler? s.device = some h →
      r.property.or (r.literal.bind h.defaults.propertyFor?) = some p → r.literal = some v →
      Uncastable p v e → Outcome registry position r (.error (.value e))
  | compared {s : Selector} {h : Handler} {p : Property} {block : Condition} :
      r.selector = some s → registry.handler? s.device = some h →
      r.property.or (r.literal.bind h.defaults.propertyFor?) = some p →
      r.Compares h.device p block →
      Outcome registry position r (.ok ((Condition.aggregate (r.aggregation.getD .all)
        (block.notIf r.invertEach) (h.provider s)).notIf r.invertAll))

section

variable {registry : Registry} {position count : Nat} {r : ConditionRun}

theorem Outcome.result_condition {outcome : Except CompileError Condition}
    (h : Outcome registry position r outcome) :
    (r.condition registry position count).result = outcome := by
  cases h with
  | noSelector hs =>
    simp only [condition, hs]
    rfl
  | bare hs hp hl =>
    simp only [condition, hs, hp, hl]
    rfl
  | noHandler hs hv hh =>
    have hsome : ¬ (r.literal.isNone && r.property.isNone) = true := by
      rw [Bool.and_eq_true, Option.isNone_iff_eq_none, Option.isNone_iff_eq_none]
      exact fun hn => hv.elim (absurd hn.2) (absurd hn.1)
    simp only [condition, hs, if_neg hsome, hh]
    rfl
  | @noLiteral s h p hs hh hp hb hl =>
    simp only [condition, hs, hp, hl, hh, blockCondition]
    cases p with
    | boolean q => exact absurd rfl (hb q)
    | numeric | text => rfl
  | @uncastable s h p v e hs hh hp hl hu =>
    simp only [condition, hs, hl, hh, blockCondition] at hp ⊢
    cases hu with
    | boolean hv | numeric hv =>
      simp only [hp, hv]
      rfl
  | compared hs hh hp hc => exact condition_eq_ok.mpr ⟨_, _, _, _, hs, hh, hp, hc, rfl⟩

theorem propertyFor?_eq_none {d : Defaults} {v : Primitive} (h : d.propertyFor? v = none) :
    ∃ x, v = .vector x := by
  cases v with
  | vector x => exact ⟨x, rfl⟩
  | _ => cases h

/-- The comparison fails for want of a literal or because the literal cannot be cast. -/
theorem blockCondition_error_cases {device : Device} {defaults : Defaults} {e : CompileError}
    (hvec : ∀ x, r.literal ≠ some (.vector x))
    (hv : ¬ (r.literal.isNone && r.property.isNone) = true)
    (h : (r.blockCondition device defaults position).result = .error e) :
    (∃ p, r.property = some p ∧ (∀ q, p ≠ .boolean q) ∧ r.literal = none ∧
        e = .conditionWithoutValue position) ∨
      ∃ p v err, r.property.or (r.literal.bind defaults.propertyFor?) = some p ∧
        r.literal = some v ∧ Uncastable p v err ∧ e = .value err := by
  rw [blockCondition] at h
  cases hl : r.literal with
  | none =>
    cases hp : r.property with
    | none => simp [hl, hp] at hv
    | some p =>
      simp only [hl, hp, Option.some_or] at h
      refine .inl ⟨p, rfl, ?_, rfl, ?_⟩
      · intro q hq
        rw [hq] at h
        cases h
      · cases p <;> cases h <;> rfl
  | some v =>
    simp only [hl] at h
    cases hp : r.property.or ((some v).bind defaults.propertyFor?) with
    | none =>
      rw [Option.or_eq_none_iff] at hp
      obtain ⟨x, rfl⟩ := propertyFor?_eq_none hp.2
      exact absurd hl (hvec x)
    | some p =>
      simp only [hp] at h
      refine .inr ?_
      cases p with
      | text => cases h
      | boolean p =>
        cases hc : v.toBoolean with
        | error err =>
          rw [hc] at h
          exact ⟨_, v, err, rfl, rfl, .boolean hc, (Except.error.inj h).symm⟩
        | ok b =>
          rw [hc] at h
          cases h
      | numeric p =>
        cases hc : v.toNumber with
        | error err =>
          rw [hc] at h
          exact ⟨_, v, err, rfl, rfl, .numeric hc, (Except.error.inj h).symm⟩
        | ok x =>
          rw [hc] at h
          cases h

theorem outcome_of_condition (hvec : ∀ x, r.literal ≠ some (.vector x)) :
    Outcome registry position r (r.condition registry position count).result := by
  cases hr : (r.condition registry position count).result with
  | ok c =>
    obtain ⟨s, h, p, block, hs, hh, hp, hc, rfl⟩ := condition_eq_ok.mp hr
    exact .compared hs hh hp hc
  | error e =>
    rw [condition] at hr
    cases hs : r.selector with
    | none =>
      simp only [hs] at hr
      cases hr
      exact .noSelector hs
    | some s =>
      simp only [hs] at hr
      by_cases hv : (r.literal.isNone && r.property.isNone) = true
      · rw [if_pos hv] at hr
        rw [Bool.and_eq_true, Option.isNone_iff_eq_none, Option.isNone_iff_eq_none] at hv
        cases hr
        exact .bare hs hv.2 hv.1
      · rw [if_neg hv] at hr
        cases hh : registry.handler? s.device with
        | none =>
          simp only [hh] at hr
          cases hr
          refine .noHandler hs ?_ hh
          by_cases hp : r.property = none
          · exact .inr fun hl => hv (by rw [hl, hp]; rfl)
          · exact .inl hp
        | some h =>
          simp only [hh] at hr
          rcases Logged.result_bind_eq_error.mp hr with hb | ⟨_, -, hb⟩
          · obtain ⟨p, hp, hq, hl, rfl⟩ | ⟨p, v, err, hp, hl, hu, rfl⟩ :=
              blockCondition_error_cases hvec hv hb
            · exact .noLiteral hs hh hp hq hl
            · exact .uncastable hs hh hp hl hu
          · cases hb

theorem result_condition_iff (count : Nat) (hvec : ∀ x, r.literal ≠ some (.vector x))
    {outcome : Except CompileError Condition} :
    (r.condition registry position count).result = outcome ↔
      Outcome registry position r outcome := by
  constructor
  · intro h
    rw [← h]
    exact outcome_of_condition hvec
  · intro h
    exact h.result_condition

end

/-- No token is a vector. -/
theorem literal_ofTokens_ne_vector (run : List Token) (x : Vec3) :
    (ofTokens run).literal ≠ some (.vector x) := by
  intro h
  obtain ⟨t, -, ht⟩ := List.exists_of_findSome?_eq_some h
  cases t <;> cases ht

end ConditionRun

/-! ## One operand -/

namespace Piece

open ConditionRun

/-- An operand succeeds and fails as the run behind its opening tokens does. -/
theorem readOperand_outcome (registry : Registry) (position : Nat) (tokens : List Token) :
    let opened := leading opening? tokens
    ∃ run, LongestRun (tokens.drop opened.length) run ∧
      (∀ e, (readOperand registry position tokens).result = .error e ↔
        Outcome registry (position + opened.length) (.ofTokens run) (.error e)) ∧
      ∀ pieces n, (readOperand registry position tokens).result = .ok (pieces, n) ↔
        ∃ c, Outcome registry (position + opened.length) (.ofTokens run) (.ok c) ∧
          let closed := leading closing? (tokens.drop (opened.length + run.length))
          pieces = opened ++ .operand c :: closed ∧
            n = opened.length + run.length + closed.length := by
  intro opened
  obtain ⟨run, hrun, hscan⟩ := exists_longestRun (tokens.drop opened.length)
  refine ⟨run, hrun, ?_, ?_⟩
  · intro e
    rw [← result_condition_iff run.length (literal_ofTokens_ne_vector run)]
    rw [readOperand, Logged.result_bind_eq_error, hscan]
    constructor
    · intro h
      rcases h with h | ⟨_, -, h⟩
      · exact h
      · cases h
    · exact .inl
  · intro pieces n
    simp only [← result_condition_iff run.length (literal_ofTokens_ne_vector run)]
    rw [readOperand, Logged.result_bind_eq_ok, hscan]
    refine exists_congr fun c => and_congr_right fun _ => ?_
    rw [Logged.result_pure, Except.ok.injEq, Prod.mk.injEq, List.drop_drop]
    exact and_congr eq_comm eq_comm

/-- The run at an index is the longest one there, and its outcome is the first that applies
to what its tokens say.  Where an operand is read, the condition takes the place of the run
behind the opening tokens. -/
theorem condition_longestRun (registry : Registry) (tokens : List Token) (index : Nat) :
    let scanned := scan ConditionRun.take {} (tokens.drop index)
    (∃ run, LongestRun (tokens.drop index) run ∧ scanned.2 = run.length ∧
      ∀ outcome, (scanned.1.condition registry index scanned.2).result = outcome ↔
        Outcome registry index (.ofTokens run) outcome) ∧
    ∀ position,
      let opened := leading opening? tokens
      ∃ run, LongestRun (tokens.drop opened.length) run ∧
        (∀ e, (readOperand registry position tokens).result = .error e ↔
          Outcome registry (position + opened.length) (.ofTokens run) (.error e)) ∧
        ∀ pieces n, (readOperand registry position tokens).result = .ok (pieces, n) ↔
          ∃ c, Outcome registry (position + opened.length) (.ofTokens run) (.ok c) ∧
            let closed := leading closing? (tokens.drop (opened.length + run.length))
            pieces = opened ++ .operand c :: closed ∧
              n = opened.length + run.length + closed.length := by
  intro scanned
  refine ⟨?_, fun position => readOperand_outcome registry position tokens⟩
  obtain ⟨run, hrun, hscan⟩ := exists_longestRun (tokens.drop index)
  have hscanned : scanned = (ofTokens run, run.length) := hscan
  rw [hscanned]
  refine ⟨run, hrun, rfl, fun outcome => ?_⟩
  exact result_condition_iff run.length (literal_ofTokens_ne_vector run)

end Piece
end DeviceScript
