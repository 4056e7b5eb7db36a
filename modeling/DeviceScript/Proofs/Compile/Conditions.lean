/-
The conditions of a compiled line.

Whoever runs a compiled line takes a condition apart into its leaves, and reads for each
the property of a device from the devices that its selector names.  So a comparison has
to be on the device of its selector, and the selector has to be one of the line.  The
device comes from the handler that the registry has for the selector: a registry that is
put together by setting defaults keeps each handler under its own device, however often
one is replaced.
-/
import DeviceScript.Proofs.Compile.NormalForm
import DeviceScript.Proofs.Condition.Print

namespace DeviceScript

/-! ## Registries -/

namespace Registry

/-- The registry was made of an empty or a standard one by registering defaults. -/
inductive Assembled : Registry → Prop where
  | empty : Assembled .empty
  | standard : Assembled .standard
  | register {r : Registry} (device : Device) (defaults : Defaults) :
      Assembled r → Assembled (r.register device defaults)

theorem Assembled.exists_defaults {r : Registry} (h : r.Assembled) {d : Device} {handler : Handler}
    (hh : r.handler? d = some handler) : ∃ defaults : Defaults, handler = defaults.handler d := by
  induction h with
  | empty => cases hh
  | standard => exact ⟨standardDefaults d, (Option.some.inj hh).symm⟩
  | @register r device defaults _ ih =>
    by_cases hd : d = device
    · subst hd
      refine ⟨defaults, ?_⟩
      simpa [Registry.register, install, Defaults.handler, eq_comm] using hh
    · refine ih ?_
      simpa [Registry.register, install, Defaults.handler, hd] using hh

end Registry

/-! ## Trees over the selectors of a line -/

namespace Condition

/-- The selectors of the aggregates of a condition. -/
def selectors : Condition → List Selector
  | .boolean _ _ _ _ | .text _ _ _ _ | .numeric _ _ _ _ => []
  | .aggregate _ c s => s :: c.selectors
  | .not c => c.selectors
  | .and l r | .or l r => l.selectors ++ r.selectors

/-- The leaves are aggregates of one comparison, negated or not, on the device of their
selector, and their selectors are tokens of the line. -/
structure BuiltFrom (line : List Token) (c : Condition) : Prop where
  aggregated : c.Aggregated
  selectors : ∀ s ∈ c.selectors, .selector s ∈ line

section

variable {line : List Token} {c d : Condition}

theorem BuiltFrom.mono {more : List Token} (h : c.BuiltFrom line) (hs : line ⊆ more) :
    c.BuiltFrom more :=
  ⟨h.aggregated, fun s hm => hs (h.selectors s hm)⟩

theorem BuiltFrom.not (h : c.BuiltFrom line) : (Condition.not c).BuiltFrom line :=
  ⟨.not h.aggregated, h.selectors⟩

theorem BuiltFrom.notIf (h : c.BuiltFrom line) (invert : Bool) :
    (c.notIf invert).BuiltFrom line := by
  cases invert with
  | false => exact h
  | true => exact h.not

theorem selectors_join (k : Connective) (l r : Condition) :
    (k.join l r).selectors = l.selectors ++ r.selectors := by
  cases k <;> rfl

theorem BuiltFrom.join (k : Connective) (hc : c.BuiltFrom line) (hd : d.BuiltFrom line) :
    (k.join c d).BuiltFrom line := by
  refine ⟨.join k hc.aggregated hd.aggregated, ?_⟩
  intro s hs
  rw [selectors_join, List.mem_append] at hs
  rcases hs with hs | hs
  · exact hc.selectors s hs
  · exact hd.selectors s hs

theorem selectors_notIf (invert : Bool) (c : Condition) :
    (c.notIf invert).selectors = c.selectors := by
  cases invert <;> rfl

theorem onDevice_notIf {device : Device} (h : c.device? = some device) (invert : Bool) :
    OnDevice device (c.notIf invert) := by
  cases invert with
  | false => exact .plain h
  | true => exact .negated h

theorem selectors_of_device? {device : Device} (h : c.device? = some device) :
    c.selectors = [] := by
  cases c with
  | boolean | text | numeric => rfl
  | aggregate | not | and | or => cases h

end

end Condition

/-! ## Block runs -/

namespace ConditionRun

theorem Compares.device? {r : ConditionRun} {device : Device} {property : Property}
    {c : Condition} (h : r.Compares device property c) : c.device? = some device := by
  cases h <;> rfl

theorem selector_take {r u : ConditionRun} {t : Token} (h : r.take t = some u) {s : Selector}
    (hs : u.selector = some s) : r.selector = some s ∨ t = .selector s := by
  cases t with
  | selector q =>
    simp only [take, Option.ite_none_left_eq_some, Option.some.injEq] at h
    obtain ⟨-, rfl⟩ := h
    exact .inr (congrArg Token.selector (Option.some.inj hs))
  | _ => grind [take]

theorem selector_mem_of_foldlM {run : List Token} {r u : ConditionRun}
    (h : run.foldlM take r = some u) {s : Selector} (hs : u.selector = some s) :
    r.selector = some s ∨ .selector s ∈ run := by
  induction run generalizing r with
  | nil =>
    cases h
    exact .inl hs
  | cons t run ih =>
    rw [List.foldlM_cons] at h
    obtain ⟨v, hv, h⟩ := Option.bind_eq_some_iff.mp h
    rcases ih h with hs | hm
    · rcases selector_take hv hs with hs | rfl
      · exact .inl hs
      · exact .inr List.mem_cons_self
    · exact .inr (List.mem_cons_of_mem t hm)

end ConditionRun

namespace Piece

theorem IsRun.builtFrom {registry : Registry} (hr : registry.Assembled) {run rest : List Token}
    {c : Condition} (h : IsRun registry run rest c) : c.BuiltFrom run := by
  obtain ⟨-, r, hf, -, hc⟩ := isRun_iff.mp h
  obtain ⟨s, handler, property, block, hs, hh, -, hb, rfl⟩ := ConditionRun.condition_eq_ok.mp hc
  obtain ⟨defaults, rfl⟩ := hr.exists_defaults hh
  have hmem : .selector s ∈ run := by
    rcases ConditionRun.selector_mem_of_foldlM hf hs with hn | hm
    · cases hn
    · exact hm
  have hleaf : (Condition.aggregate (r.aggregation.getD default) (block.notIf r.invertEach)
      s).BuiltFrom run := by
    refine ⟨.leaf (Condition.onDevice_notIf hb.device? r.invertEach), ?_⟩
    intro u hu
    rw [Condition.selectors, Condition.selectors_notIf, Condition.selectors_of_device? hb.device?,
      List.mem_singleton] at hu
    rw [hu]
    exact hmem
  exact hleaf.notIf r.invertAll

theorem Spelled.builtFrom {registry : Registry} (hr : registry.Assembled) {rest span : List Token}
    {pieces : List Piece} (h : Spelled registry rest pieces span) {c : Condition}
    (hc : .operand c ∈ pieces) : c.BuiltFrom span := by
  induction h with
  | nil => cases hc
  | mark hm _ ih =>
    rcases List.mem_cons.mp hc with rfl | hc
    · cases hm
    · exact (ih hc).mono (List.subset_cons_self _ _)
  | run hrun _ ih =>
    rcases List.mem_cons.mp hc with he | hc
    · cases he
      exact (hrun.builtFrom hr).mono (List.subset_append_left _ _)
    · exact (ih hc).mono (List.subset_append_right _ _)

mutual

theorem IsOperand.builtFrom {line : List Token} {pieces : List Piece} {n : Nat} {c : Condition}
    (hp : ∀ d, .operand d ∈ pieces → d.BuiltFrom line) : IsOperand pieces n c → c.BuiltFrom line
  | .run c => hp c List.mem_cons_self
  | .not h => (h.builtFrom fun d hd => hp d (List.mem_cons_of_mem _ hd)).not
  | .group h =>
    h.builtFrom fun d hd => hp d (List.mem_cons_of_mem _ (List.mem_append_left _ hd))

theorem IsChain.builtFrom {line : List Token} {pieces : List Piece} {n : Nat} {c : Condition}
    (hp : ∀ d, .operand d ∈ pieces → d.BuiltFrom line) : IsChain pieces n c → c.BuiltFrom line
  | .operand h => h.builtFrom hp
  | .join k hf hb =>
    .join k (hf.builtFrom fun d hd => hp d (List.mem_append_left _ hd))
      (hb.builtFrom fun d hd => hp d (List.mem_append_right _ (List.mem_cons_of_mem _ hd)))

end

theorem Expression.builtFrom {registry : Registry} (hr : registry.Assembled)
    {span rest : List Token} {n : Nat} {c : Condition} (h : Expression registry span rest n c) :
    c.BuiltFrom span := by
  obtain ⟨pieces, hs, hc⟩ := h
  exact hc.builtFrom fun d hd => hs.builtFrom hr hd

end Piece

/-! ## Lines -/

/-- Every condition right behind a `whether` has the property. -/
def EachGuard (P : Condition → Prop) (line : List Token) : Prop :=
  ∀ front c back, line = front ++ .whether :: .condition c :: back → P c

theorem eachGuard_nil {P : Condition → Prop} : EachGuard P [] := by
  intro front c back h
  cases front <;> cases h

theorem EachGuard.cons {P : Condition → Prop} {t : Token} {line : List Token}
    (h : EachGuard P line) (ht : t = .whether → ∀ c back, line = .condition c :: back → P c) :
    EachGuard P (t :: line) := by
  intro front c back hl
  cases front with
  | nil =>
    obtain ⟨rfl, rfl⟩ := List.cons.inj hl
    exact ht rfl c back rfl
  | cons u front =>
    obtain ⟨rfl, rfl⟩ := List.cons.inj hl
    exact h front c back rfl

theorem EachGuard.mono {P Q : Condition → Prop} {line : List Token} (h : EachGuard P line)
    (hpq : ∀ c, P c → Q c) : EachGuard Q line :=
  fun front c back hl => hpq c (h front c back hl)

theorem EachGuard.drop {P : Condition → Prop} {line : List Token} (h : EachGuard P line) (n : Nat) :
    EachGuard P (line.drop n) := by
  intro front c back hd
  refine h (line.take n ++ front) c back ?_
  rw [List.append_assoc, ← hd, List.take_append_drop]

namespace Pass

theorem condition_eachGuard {registry : Registry} (hr : registry.Assembled) {limit : Nat}
    {line out : List Token} (h : (condition registry limit).Yields line out) :
    EachGuard (Condition.BuiltFrom line) out := by
  induction h with
  | nil => exact eachGuard_nil
  | @keep t after out hs _ ih =>
    refine (ih.mono fun c hc => hc.mono (List.subset_cons_self t after)).cons ?_
    intro ht
    rw [ht] at hs
    cases hs
  | @step t after out s _ hs _ ih =>
    obtain ⟨span, rest, _, c, rfl, hx, -, -, rfl⟩ := condition_step_eq_ok.mp hs
    have hout : EachGuard (Condition.BuiltFrom (t :: (span ++ rest))) out := by
      refine ih.mono fun c hc => hc.mono ?_
      exact List.subset_cons_of_subset t (List.drop_subset _ _)
    refine EachGuard.cons (hout.cons nofun) ?_
    intro _ d back hd
    cases hd
    refine (hx.builtFrom hr).mono ?_
    exact List.subset_cons_of_subset t (List.subset_append_left span rest)

/-- What the pass puts in are commands, so a condition in front was there before. -/
theorem command_head_condition {line back : List Token} {c : Condition}
    (h : command.Yields line (.condition c :: back)) : ∃ rest, line = .condition c :: rest := by
  generalize ho : Token.condition c :: back = out at h
  cases h with
  | nil => cases ho
  | @keep t after out =>
    obtain ⟨rfl, -⟩ := List.cons.inj ho
    exact ⟨after, rfl⟩
  | step _ hs =>
    obtain ⟨_, _, rfl⟩ := command_step_eq_ok.mp hs
    cases ho

theorem command_eachGuard {P : Condition → Prop} {line out : List Token}
    (h : command.Yields line out) (hl : EachGuard P line) : EachGuard P out := by
  induction h with
  | nil => exact hl
  | keep _ hy ih =>
    refine (ih (hl.drop 1)).cons ?_
    rintro rfl c back rfl
    obtain ⟨rest, rfl⟩ := command_head_condition hy
    exact hl [] c rest rfl
  | step _ hs _ ih =>
    obtain ⟨_, _, rfl⟩ := command_step_eq_ok.mp hs
    exact (ih ((hl.drop 1).drop _)).cons nofun

end Pass

/-! ## The compiler -/

namespace Compiler

/-- A condition that is compiled behind a `whether` is a tree of negations, conjunctions
and disjunctions over comparisons on the devices of selectors, and the selectors are
those of the line that the passes in front of the condition pass make. -/
theorem compile_conditions_builtFrom (c : Compiler) (hr : c.registry.Assembled)
    (line out : List Token) (h : (c.compile line).result = .ok out) :
    ∃ mid, c.Makes [.selector, .function, .runArgument, .loop] line mid ∧
      ∀ front cond back, out = front ++ .whether :: .condition cond :: back →
        cond.BuiltFrom mid := by
  obtain ⟨folded, h₁, called, h₂, split, h₃, counted, h₄, guarded, h₅, _, h₆, rfl⟩ :=
    compile_eq_ok.mp h
  refine ⟨counted, ⟨folded, h₁, called, h₂, split, h₃, counted, h₄, rfl⟩, ?_⟩
  have hy := (Pass.condition_forward _ _).run_eq_ok.mp h₅
  have hz := Pass.command_forward.run_eq_ok.mp h₆
  exact Pass.command_eachGuard hz (Pass.condition_eachGuard hr hy)

/-- The defaults of doors are replaced twice, and the condition has a negation in front
of a group and one inside a run. -/
theorem compile_conditions_replaced :
    let lamps : Defaults := ⟨.power, .range, .color, .up⟩
    let doors : Defaults := ⟨.open, .closedRatio, .name, .up⟩
    let registry : Registry := ((((Registry.empty.register .door lamps).register .light
      lamps).register .door (Registry.standardDefaults .sound)).register .door doors)
    let c : Compiler := { registry := registry }
    let line : List Token := [.whether, .not, .openParen, .text "Gate" [], .device .door,
      .boolean true, .or, .aggregation .any, .text "Lamps" [.device .light, .group], .not,
      .boolean false, .closeParen, .wait]
    let cond : Condition := .not (.or
      (.aggregate .all (.boolean .door .open .equal true) ⟨.door, false, "Gate", none⟩)
      (.aggregate .any (.not (.boolean .light .power .equal false)) ⟨.light, true, "Lamps", none⟩))
    let out : List Token := [.whether, .condition cond, .command .wait [.wait]]
    c.registry.Assembled ∧ (c.compile line).result = .ok out ∧
      ∃ mid, c.Makes [.selector, .function, .runArgument, .loop] line mid ∧
        cond.BuiltFrom mid := by
  intro lamps doors registry c line cond out
  have hr : c.registry.Assembled :=
    .register _ _ (.register _ _ (.register _ _ (.register _ _ .empty)))
  have h : (c.compile line).result = .ok out := by with_unfolding_all rfl
  obtain ⟨mid, hm, hb⟩ := compile_conditions_builtFrom c hr line out h
  exact ⟨hr, h, mid, hm, hb [] cond [.command .wait [.wait]] rfl⟩

end Compiler
end DeviceScript
