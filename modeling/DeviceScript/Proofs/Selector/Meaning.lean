/-
What a run of selector tokens says.

A run is the longest front part of a line that has only group, text, device and index
tokens, with at most one text and at most one device.  The fold goes through it with a
state, but what the state holds in the end can be read off the run as a whole: its text,
its device, its last index, and whether it has a group token.  So the order of the tokens
in a run matters for nothing but which of several indexes is the last.
-/
import DeviceScript.Pass.Selector
import DeviceScript.Proofs.Pass.LongestRun

namespace DeviceScript

namespace Token

/-- The text of the token, and the tokens inside it. -/
def named? : Token → Option (String × List Token)
  | .text s nested => some (s, nested)
  | _ => none

def index? : Token → Option Int32
  | .index i => some i
  | _ => none

theorem mem_filterMap_named? {run : List Token} {s : String} {nested : List Token} :
    (s, nested) ∈ run.filterMap named? ↔ .text s nested ∈ run := by
  rw [List.mem_filterMap]
  constructor
  · intro h
    obtain ⟨t, ht, hs⟩ := h
    cases t <;> cases hs
    exact ht
  · intro h
    exact ⟨_, h, rfl⟩

theorem mem_filterMap_device? {run : List Token} {d : Device} :
    d ∈ run.filterMap device? ↔ .device d ∈ run := by
  rw [List.mem_filterMap]
  constructor
  · intro h
    obtain ⟨t, ht, hd⟩ := h
    cases t <;> cases hd
    exact ht
  · intro h
    exact ⟨_, h, rfl⟩

theorem any_isGroup {run : List Token} : run.any isGroup = true ↔ .group ∈ run := by
  rw [List.any_eq_true]
  constructor
  · intro h
    obtain ⟨t, ht, hg⟩ := h
    cases t <;> cases hg
    exact ht
  · intro h
    exact ⟨_, h, rfl⟩

end Token

/-! ## Lists with at most one element of a sort -/

section

variable {α β : Type}

theorem head?_eq_some_of_length_le_one {l : List α} (h : l.length ≤ 1) {a : α} :
    l.head? = some a ↔ a ∈ l := by
  match l, h with
  | [], _ => simp
  | [b], _ => simp [eq_comm]

theorem eq_of_perm_of_length_le_one {l m : List α} (h : l.Perm m) (hm : m.length ≤ 1) : l = m := by
  match m, hm with
  | [], _ => exact List.perm_nil.mp h
  | [b], _ => exact List.perm_singleton.mp h

theorem length_filterMap_concat_le_one {f : α → Option β} {l : List α} {a : α} :
    ((l ++ [a]).filterMap f).length ≤ 1 ↔
      (l.filterMap f).length ≤ 1 ∧ ((f a).isSome = true → (l.filterMap f).head? = none) := by
  rw [List.filterMap_append, List.length_append, List.head?_eq_none_iff, ← List.length_eq_zero_iff]
  cases h : f a with
  | none => simp [h]
  | some b =>
    rw [List.filterMap_cons_some h, List.filterMap_nil, List.length_singleton]
    simp only [Option.isSome_some, forall_const]
    omega

end

/-! ## Runs -/

namespace SelectorRun

/-- The tokens that a selector run can consist of. -/
structure Admissible (run : List Token) : Prop where
  only : ∀ t ∈ run, Pass.startsSelector t = true
  name : (run.filterMap Token.named?).length ≤ 1
  device : (run.filterMap Token.device?).length ≤ 1

/-- What a run says, read off its tokens. -/
def ofTokens (run : List Token) : SelectorRun where
  isGroup := run.any Token.isGroup
  name := (run.filterMap Token.named?).head?
  device := (run.filterMap Token.device?).head?
  index := (run.filterMap Token.index?).getLast?

theorem admissible_concat {run : List Token} {t : Token} :
    Admissible (run ++ [t]) ↔ Admissible run ∧ Pass.startsSelector t = true ∧
      (t.named?.isSome = true → (ofTokens run).name = none) ∧
      (t.device?.isSome = true → (ofTokens run).device = none) := by
  constructor
  · intro h
    obtain ⟨hname, hn⟩ := length_filterMap_concat_le_one.mp h.name
    obtain ⟨hdevice, hd⟩ := length_filterMap_concat_le_one.mp h.device
    obtain ⟨honly, ht⟩ := List.forall_mem_append.mp h.only
    exact ⟨⟨honly, hname, hdevice⟩, ht t List.mem_cons_self, hn, hd⟩
  · intro h
    obtain ⟨hrun, ht, hn, hd⟩ := h
    refine ⟨List.forall_mem_append.mpr ⟨hrun.only, by simpa using ht⟩, ?_, ?_⟩
    · exact length_filterMap_concat_le_one.mpr ⟨hrun.name, hn⟩
    · exact length_filterMap_concat_le_one.mpr ⟨hrun.device, hd⟩

theorem ofTokens_concat (run : List Token) (t : Token) :
    ofTokens (run ++ [t]) =
      { isGroup := (ofTokens run).isGroup || t.isGroup
        name := (ofTokens run).name.or t.named?
        device := (ofTokens run).device.or t.device?
        index := t.index?.or (ofTokens run).index } := by
  cases t <;> simp [ofTokens, Token.isGroup, Token.named?, Token.device?, Token.index?]

theorem take_ofTokens {run : List Token} (h : Admissible run) {t : Token} {u : SelectorRun} :
    (ofTokens run).take t = some u ↔ Admissible (run ++ [t]) ∧ u = ofTokens (run ++ [t]) := by
  rw [admissible_concat, ofTokens_concat]
  generalize ofTokens run = r
  cases t with
  | group | index =>
    simp [take, h, Pass.startsSelector, Token.isGroup, Token.named?, Token.device?, Token.index?,
      eq_comm]
  | text s nested =>
    cases hn : r.name with
    | none =>
      simp [take, h, hn, Pass.startsSelector, Token.isGroup, Token.named?, Token.device?,
        Token.index?, eq_comm]
    | some named => simp [take, hn, Token.named?]
  | device d =>
    cases hd : r.device with
    | none =>
      simp [take, h, hd, Pass.startsSelector, Token.isGroup, Token.named?, Token.device?,
        Token.index?, eq_comm]
    | some e => simp [take, hd, Token.device?]
  | _ => simp [take, Pass.startsSelector]

theorem readsOff : ReadsOff take Admissible ofTokens where
  nil := ⟨nofun, Nat.zero_le 1, Nat.zero_le 1⟩
  of_append {x y} h := by
    have hname := h.name
    have hdevice := h.device
    rw [List.filterMap_append, List.length_append] at hname hdevice
    exact ⟨(List.forall_mem_append.mp h.only).1, by omega, by omega⟩
  take h := take_ofTokens h

/-! ## What the fold makes of a run -/

/-- What becomes of a run at a position. -/
inductive Outcome (position : Nat) (run : List Token) :
    Except CompileError (Nat × Option Selector) → Prop where
  | nameless : (∀ s nested, .text s nested ∉ run) →
      Outcome position run (.error (.selectorWithoutName position))
  | plain {s : String} {nested : List Token} : .text s nested ∈ run → (∀ d, .device d ∉ run) →
      (∀ d, .device d ∉ nested) → Outcome position run (.ok (run.length, none))
  /-- The run names its device, and the tokens inside the text do not matter. -/
  | named {s : String} {nested : List Token} {d : Device} {isGroup : Bool} :
      .text s nested ∈ run → .device d ∈ run → (isGroup = true ↔ .group ∈ run) →
      Outcome position run
        (.ok (run.length, some ⟨d, isGroup, s, (run.filterMap Token.index?).getLast?⟩))
  /-- The last device inside the text stands in. -/
  | nested {s : String} {nested : List Token} {d : Device} {isGroup : Bool} :
      .text s nested ∈ run → (∀ e, .device e ∉ run) →
      (nested.filterMap Token.device?).getLast? = some d →
      (isGroup = true ↔ .group ∈ run ∨ .group ∈ nested) →
      Outcome position run
        (.ok (run.length, some ⟨d, isGroup, s, (run.filterMap Token.index?).getLast?⟩))

section

variable {run rest : List Token} {position : Nat}

theorem foldSelector_of_name_eq_none (h : LongestFront Admissible (run ++ rest) run)
    (hn : (ofTokens run).name = none) :
    foldSelector (run ++ rest) position = .error (.selectorWithoutName position) := by
  have hscan : scan take {} (run ++ rest) = (ofTokens run, run.length) :=
    readsOff.scan_of_longestFront h
  simp only [foldSelector, hscan, hn]

theorem foldSelector_of_name_eq_some (h : LongestFront Admissible (run ++ rest) run)
    {s : String} {nested : List Token} (hn : (ofTokens run).name = some (s, nested)) :
    foldSelector (run ++ rest) position =
      .ok (run.length, (ofTokens run).selector? s nested) := by
  have hscan : scan take {} (run ++ rest) = (ofTokens run, run.length) :=
    readsOff.scan_of_longestFront h
  simp only [foldSelector, hscan, hn]

theorem name_ofTokens (h : Admissible run) {s : String} {nested : List Token} :
    (ofTokens run).name = some (s, nested) ↔ .text s nested ∈ run := by
  rw [← Token.mem_filterMap_named?]
  exact head?_eq_some_of_length_le_one h.name

theorem name_ofTokens_eq_none :
    (ofTokens run).name = none ↔ ∀ s nested, .text s nested ∉ run := by
  show (run.filterMap Token.named?).head? = none ↔ _
  rw [List.head?_eq_none_iff, List.eq_nil_iff_forall_not_mem]
  simp only [Prod.forall, Token.mem_filterMap_named?]

theorem device_ofTokens (h : Admissible run) {d : Device} :
    (ofTokens run).device = some d ↔ .device d ∈ run := by
  rw [← Token.mem_filterMap_device?]
  exact head?_eq_some_of_length_le_one h.device

theorem device_ofTokens_eq_none : (ofTokens run).device = none ↔ ∀ d, .device d ∉ run := by
  show (run.filterMap Token.device?).head? = none ↔ _
  rw [List.head?_eq_none_iff, List.eq_nil_iff_forall_not_mem]
  simp only [Token.mem_filterMap_device?]

theorem Outcome.foldSelector_eq (h : LongestFront Admissible (run ++ rest) run)
    {outcome : Except CompileError (Nat × Option Selector)}
    (ho : Outcome position run outcome) : foldSelector (run ++ rest) position = outcome := by
  cases ho with
  | nameless hs => exact foldSelector_of_name_eq_none h (name_ofTokens_eq_none.mpr hs)
  | @plain s nested hs hd hin =>
    have hlast : nested.reverse.findSome? Token.device? = none := by
      rw [← List.getLast?_filterMap, List.getLast?_eq_none_iff, List.eq_nil_iff_forall_not_mem]
      simpa only [Token.mem_filterMap_device?] using hin
    rw [foldSelector_of_name_eq_some h ((name_ofTokens h.holds).mpr hs), selector?,
      device_ofTokens_eq_none.mpr hd, hlast]
    rfl
  | @named s nested d isGroup hs hd hg =>
    have hgroup : (ofTokens run).isGroup = isGroup := by
      rw [Bool.eq_iff_iff, hg]
      exact Token.any_isGroup
    rw [foldSelector_of_name_eq_some h ((name_ofTokens h.holds).mpr hs), selector?,
      (device_ofTokens h.holds).mpr hd, hgroup]
    rfl
  | @nested s nested d isGroup hs hd hlast hg =>
    have hgroup : ((ofTokens run).isGroup || nested.any Token.isGroup) = isGroup := by
      rw [Bool.eq_iff_iff, hg, Bool.or_eq_true, Token.any_isGroup]
      exact or_congr_left Token.any_isGroup
    rw [List.getLast?_filterMap] at hlast
    rw [foldSelector_of_name_eq_some h ((name_ofTokens h.holds).mpr hs), selector?,
      device_ofTokens_eq_none.mpr hd, hlast, hgroup]
    rfl

theorem exists_outcome (h : Admissible run) (position : Nat) :
    ∃ outcome, Outcome position run outcome := by
  cases hn : (ofTokens run).name with
  | none => exact ⟨_, .nameless (name_ofTokens_eq_none.mp hn)⟩
  | some named =>
    obtain ⟨s, nested⟩ := named
    have hs := (name_ofTokens h).mp hn
    cases hd : (ofTokens run).device with
    | some d => exact ⟨_, .named hs ((device_ofTokens h).mp hd) Token.any_isGroup⟩
    | none =>
      have hnone := device_ofTokens_eq_none.mp hd
      cases hlast : (nested.filterMap Token.device?).getLast? with
      | none =>
        rw [List.getLast?_eq_none_iff, List.eq_nil_iff_forall_not_mem] at hlast
        refine ⟨_, .plain hs hnone fun d hin => hlast d ?_⟩
        exact Token.mem_filterMap_device?.mpr hin
      | some d =>
        have hgroup : (run.any Token.isGroup || nested.any Token.isGroup) = true ↔
            .group ∈ run ∨ .group ∈ nested := by
          rw [Bool.or_eq_true, Token.any_isGroup, Token.any_isGroup]
        exact ⟨_, .nested hs hnone hlast hgroup⟩

theorem foldSelector_eq_iff (h : LongestFront Admissible (run ++ rest) run)
    {outcome : Except CompileError (Nat × Option Selector)} :
    foldSelector (run ++ rest) position = outcome ↔ Outcome position run outcome := by
  constructor
  · intro hf
    obtain ⟨other, ho⟩ := exists_outcome h.holds position
    rw [← hf, ho.foldSelector_eq h]
    exact ho
  · intro ho
    exact ho.foldSelector_eq h

/-! ## The order inside a run -/

theorem Admissible.perm (h : Admissible run) {other : List Token} (hp : other.Perm run) :
    Admissible other := by
  refine ⟨fun t ht => h.only t (hp.mem_iff.mp ht), ?_, ?_⟩
  · rw [(hp.filterMap Token.named?).length_eq]
    exact h.name
  · rw [(hp.filterMap Token.device?).length_eq]
    exact h.device

theorem ofTokens_perm (h : Admissible run) {other : List Token} (hp : other.Perm run) :
    ofTokens other =
      { ofTokens run with index := (other.filterMap Token.index?).getLast? } := by
  have hname := eq_of_perm_of_length_le_one (hp.filterMap Token.named?) h.name
  have hdevice := eq_of_perm_of_length_le_one (hp.filterMap Token.device?) h.device
  simp only [ofTokens, hp.any_eq, hname, hdevice]

theorem longestFront_perm (h : LongestFront Admissible (run ++ rest) run) {other : List Token}
    (hp : other.Perm run) : LongestFront Admissible (other ++ rest) other := by
  obtain ⟨hrun, hstop⟩ := readsOff.longestFront_append.mp h
  refine readsOff.longestFront_append.mpr ⟨hrun.perm hp, fun a ha hgood => hstop a ha ?_⟩
  exact hgood.perm (hp.symm.append_right [a])

/-- The selector of a run in another order has the last index of that order. -/
theorem foldSelector_perm (h : LongestFront Admissible (run ++ rest) run) {other : List Token}
    (hp : other.Perm run) :
    foldSelector (other ++ rest) position =
      (foldSelector (run ++ rest) position).map fun r => (r.1, r.2.map fun s =>
        { s with index := (other.filterMap Token.index?).getLast? }) := by
  have hother := longestFront_perm h hp
  have hstate := ofTokens_perm h.holds hp
  cases hn : (ofTokens run).name with
  | none =>
    have hname : (ofTokens other).name = none := by rw [hstate, hn]
    rw [foldSelector_of_name_eq_none h hn, foldSelector_of_name_eq_none hother hname]
    rfl
  | some named =>
    obtain ⟨s, nested⟩ := named
    have hname : (ofTokens other).name = some (s, nested) := by rw [hstate, hn]
    rw [foldSelector_of_name_eq_some h hn, foldSelector_of_name_eq_some hother hname, hstate,
      hp.length_eq, selector?, selector?]
    cases hd : (ofTokens run).device with
    | some d => rfl
    | none => cases nested.reverse.findSome? Token.device? <;> rfl

end

end SelectorRun

/-- The fold takes the longest run and makes of it what its tokens say.  In another order
the same tokens say the same but for which index is the last. -/
theorem foldSelector_longest (line : List Token) (position : Nat) :
    ∃ run rest, line = run ++ rest ∧ LongestFront SelectorRun.Admissible line run ∧
      (∀ outcome, foldSelector line position = outcome ↔
        SelectorRun.Outcome position run outcome) ∧
      ∀ other, other.Perm run →
        LongestFront SelectorRun.Admissible (other ++ rest) other ∧
        (foldSelector (other ++ rest) position =
          (foldSelector line position).map fun r => (r.1, r.2.map fun s =>
            { s with index := (other.filterMap Token.index?).getLast? })) ∧
        ((run.filterMap Token.index?).length ≤ 1 →
          foldSelector (other ++ rest) position = foldSelector line position) := by
  obtain ⟨run, rest, rfl, hrun⟩ := SelectorRun.readsOff.exists_longestFront line
  refine ⟨run, rest, rfl, hrun, fun outcome => SelectorRun.foldSelector_eq_iff hrun, ?_⟩
  intro other hp
  refine ⟨SelectorRun.longestFront_perm hrun hp, SelectorRun.foldSelector_perm hrun hp,
    fun hindex => ?_⟩
  have hlast := eq_of_perm_of_length_le_one (hp.filterMap Token.index?) hindex
  rw [SelectorRun.foldSelector_perm hrun hp, hlast]
  exact (SelectorRun.foldSelector_perm hrun (List.Perm.refl run)).symm

/-- The run ends at the second device, and read backwards its last index is the first. -/
theorem foldSelector_longest_two_devices :
    let line : List Token := [.index 1, .text "Lamps" [.device .door], .index 3, .group,
      .device .light, .device .rotor]
    let found : Selector := ⟨.light, true, "Lamps", some 3⟩
    foldSelector line 0 = .ok (5, some found) ∧
      ∃ run rest, line = run ++ rest ∧ SelectorRun.Outcome 0 run (.ok (5, some found)) ∧
        foldSelector (run.reverse ++ rest) 0 = .ok (5, some { found with
          index := (run.reverse.filterMap Token.index?).getLast? }) := by
  intro line found
  have hfold : foldSelector line 0 = .ok (5, some found) := rfl
  obtain ⟨run, rest, hline, -, hout, hperm⟩ := foldSelector_longest line 0
  refine ⟨hfold, run, rest, hline, (hout _).mp hfold, ?_⟩
  rw [(hperm run.reverse (List.reverse_perm run)).2.1, hfold]
  rfl

end DeviceScript
