/-
The blocks of a line and the commands they become.

A block is a part of the line that has only actionable tokens and cannot be made longer.
Each line is a sequence of blocks and of single tokens between them, and the command pass
goes through it piece by piece: it keeps a single token, and puts a command in place of a
block.  It fails at the first block that has no marker of any kind, at the position that
block has among the tokens put out so far.
-/
import DeviceScript.Proofs.Compile.NormalForm
import DeviceScript.Proofs.Pass.LongestRun
import Mathlib.Data.List.Basic

namespace DeviceScript

/-! ## Blocks -/

/-- `block` stands in the line between `front` and `back`, has only actionable tokens and
cannot be made longer. -/
structure IsBlock (line front block back : List Token) : Prop where
  line : line = front ++ (block ++ back)
  ne_nil : block ≠ []
  actionable : ∀ t ∈ block, t.isActionable = true
  front : ∀ t ∈ front.getLast?, t.isActionable = false
  back : ∀ t ∈ back.head?, t.isActionable = false

/-- The tokens can be made a command. -/
def Marked (block : List Token) : Prop :=
  ∃ t ∈ block, ∃ kind : CommandKind, kind.isMarker t = true

/-- Each line is made up of blocks and of tokens that take no part in commands. -/
theorem block_induction {motive : List Token → Prop} (nil : motive [])
    (single : ∀ t line, t.isActionable = false → motive line → motive (t :: line))
    (block : ∀ block rest, block ≠ [] → (∀ t ∈ block, t.isActionable = true) →
      (∀ t ∈ rest.head?, t.isActionable = false) → motive rest → motive (block ++ rest)) :
    ∀ line, motive line
  | [] => nil
  | t :: line => by
    cases ht : t.isActionable with
    | false => exact single t line ht (block_induction nil single block line)
    | true =>
      have hne : (t :: line).takeWhile Token.isActionable ≠ [] := by
        rw [List.takeWhile_cons_of_pos ht]
        exact List.cons_ne_nil _ _
      have hlt : ((t :: line).dropWhile Token.isActionable).length < (t :: line).length := by
        rw [List.dropWhile_cons_of_pos ht, List.length_cons]
        exact Nat.lt_succ_of_le (List.dropWhile_suffix Token.isActionable).length_le
      have hrest : ∀ u ∈ ((t :: line).dropWhile Token.isActionable).head?,
          u.isActionable = false := by
        intro u hu
        have hnot := List.head?_dropWhile_not Token.isActionable (t :: line)
        rw [hu] at hnot
        simpa using hnot
      have hline := block _ _ hne (fun u hu => List.all_eq_true.mp List.all_takeWhile u hu) hrest
        (block_induction nil single block ((t :: line).dropWhile Token.isActionable))
      rwa [List.takeWhile_append_dropWhile] at hline
termination_by line => line.length
decreasing_by
  · exact Nat.lt_succ_self _
  · exact hlt

namespace IsBlock

variable {line rest front block back : List Token}

theorem takeWhile_eq (h : IsBlock line front block back) :
    (block ++ back).takeWhile Token.isActionable = block :=
  takeWhile_append_of_head h.actionable h.back

/-- The part in front of a block starts with a token that is not actionable if the line
does. -/
theorem front_ne_nil (h : IsBlock line front block back)
    (hl : ∀ t ∈ line.head?, t.isActionable = false) : front ≠ [] := by
  intro hf
  obtain ⟨t, more, hb⟩ := List.exists_cons_of_ne_nil h.ne_nil
  have ht : t.isActionable = true := h.actionable t (by rw [hb]; exact List.mem_cons_self)
  have hnot : t.isActionable = false := hl t (by rw [h.line, hf, hb]; rfl)
  rw [ht] at hnot
  cases hnot

/-- A block stays a block with more in front of the line, unless that makes it longer. -/
theorem append_left (h : IsBlock rest front block back) (more : List Token)
    (hm : front = [] → ∀ t ∈ more.getLast?, t.isActionable = false) :
    IsBlock (more ++ rest) (more ++ front) block back := by
  refine ⟨by rw [h.line, List.append_assoc], h.ne_nil, h.actionable, ?_, h.back⟩
  intro t ht
  by_cases hf : front = []
  · rw [hf, List.append_nil] at ht
    exact hm hf t ht
  · rw [List.getLast?_append_of_ne_nil _ hf] at ht
    exact h.front t ht

/-- A block of a line that starts with a single token lies behind the token. -/
theorem of_single {t : Token} (ht : t.isActionable = false)
    (h : IsBlock (t :: rest) front block back) :
    ∃ front', front = t :: front' ∧ IsBlock rest front' block back := by
  have hne : front ≠ [] := by
    refine h.front_ne_nil ?_
    intro u hu
    cases hu
    exact ht
  obtain ⟨u, front', rfl⟩ := List.exists_cons_of_ne_nil hne
  obtain ⟨rfl, hrest⟩ := List.cons.inj h.line
  refine ⟨front', rfl, hrest, h.ne_nil, h.actionable, ?_, h.back⟩
  intro v hv
  refine h.front v ?_
  rw [List.getLast?_cons, hv]
  rfl

/-- A block of a line that starts with a block is that block or lies behind it. -/
theorem of_block {first : List Token} (hfirst : ∀ t ∈ first, t.isActionable = true)
    (hrest : ∀ t ∈ rest.head?, t.isActionable = false)
    (h : IsBlock (first ++ rest) front block back) :
    block = first ∨ ∃ front', front = first ++ front' ∧ IsBlock rest front' block back := by
  rcases List.append_eq_append_iff.mp h.line with ⟨front', rfl, hl⟩ | ⟨more, rfl, hl⟩
  · refine .inr ⟨front', rfl, hl, h.ne_nil, h.actionable, ?_, h.back⟩
    intro t ht
    refine h.front t ?_
    rw [List.getLast?_append, ht]
    rfl
  · -- All of `front` is actionable here, and its last token is not.
    have hfront : front.getLast? = none := by
      cases hlast : front.getLast? with
      | none => rfl
      | some u =>
        have hu := hfirst u (List.mem_append_left more (List.mem_of_getLast? hlast))
        rw [h.front u hlast] at hu
        cases hu
    rw [List.getLast?_eq_none_iff] at hfront
    have htake : (more ++ rest).takeWhile Token.isActionable = more :=
      takeWhile_append_of_head (List.forall_mem_append.mp hfirst).2 hrest
    rw [← hl, h.takeWhile_eq] at htake
    rw [hfront, htake]
    exact .inl rfl

end IsBlock

/-! ## The kind of a block -/

theorem marked_iff {block : List Token} :
    Marked block ↔ ∃ kind, Pass.commandKind? block = some kind := by
  rw [← Option.isSome_iff_exists, Pass.commandKind?, List.find?_isSome]
  constructor
  · intro h
    obtain ⟨t, ht, kind, hk⟩ := h
    refine ⟨kind, by cases kind <;> decide, ?_⟩
    exact List.any_eq_true.mpr ⟨t, ht, hk⟩
  · intro h
    obtain ⟨kind, -, hk⟩ := h
    obtain ⟨t, ht, hk⟩ := List.any_eq_true.mp hk
    exact ⟨t, ht, kind, hk⟩

theorem Grouped.perm {kind : CommandKind} {block other : List Token} (h : Grouped kind block)
    (hp : other.Perm block) : Grouped kind other := by
  refine ⟨?_, fun t ht => h.actionable t (hp.mem_iff.mp ht), ?_, ?_⟩
  · intro hnil
    rw [hnil, List.nil_perm] at hp
    exact h.ne_nil hp
  · obtain ⟨t, ht, hm⟩ := h.marker
    exact ⟨t, hp.mem_iff.mpr ht, hm⟩
  · intro k hk t ht
    exact h.first k hk t (hp.mem_iff.mp ht)

theorem Grouped.rank_le {kind other : CommandKind} {block : List Token} (h : Grouped kind block)
    (ho : Grouped other block) : kind.rank ≤ other.rank := by
  by_cases hlt : other.rank < kind.rank
  · obtain ⟨t, ht, hm⟩ := ho.marker
    rw [h.first other hlt t ht] at hm
    cases hm
  · omega

theorem CommandKind.eq_of_rank_eq {kind other : CommandKind} (h : kind.rank = other.rank) :
    kind = other := by
  cases kind <;> cases other <;> simp [rank] at h ⊢

/-- A block makes a command of one kind only. -/
theorem Grouped.kind_eq {kind other : CommandKind} {block : List Token} (h : Grouped kind block)
    (ho : Grouped other block) : other = kind :=
  CommandKind.eq_of_rank_eq (Nat.le_antisymm (ho.rank_le h) (h.rank_le ho))

/-! ## The parts of a line -/

/-- A piece of a line that the pass goes through. -/
inductive Part where
  | kept (t : Token)
  | grouped (kind : CommandKind) (block : List Token)

namespace Part

/-- What the part is of the line. -/
def tokens : Part → List Token
  | .kept t => [t]
  | .grouped _ block => block

/-- What the part becomes. -/
def token : Part → Token
  | .kept t => t
  | .grouped kind block => .command kind block

end Part

/-- The line consists of the parts: the blocks with their kinds, and the tokens between
them. -/
structure Grouping (line : List Token) (parts : List Part) : Prop where
  expand : parts.flatMap Part.tokens = line
  kept : ∀ t, .kept t ∈ parts → t.isActionable = false
  grouped : ∀ front kind block back, parts = front ++ .grouped kind block :: back →
    IsBlock line (front.flatMap Part.tokens) block (back.flatMap Part.tokens) ∧
      Grouped kind block

namespace Grouping

variable {rest : List Token} {parts : List Part}

theorem nil : Grouping [] [] := by
  refine ⟨rfl, nofun, ?_⟩
  intro front kind block back h
  cases front <;> cases h

theorem single (h : Grouping rest parts) {t : Token} (ht : t.isActionable = false) :
    Grouping (t :: rest) (.kept t :: parts) := by
  refine ⟨by rw [List.flatMap_cons, h.expand]; rfl, ?_, ?_⟩
  · intro u hu
    rcases List.mem_cons.mp hu with he | hu
    · cases he
      exact ht
    · exact h.kept u hu
  · intro front kind block back hparts
    cases front with
    | nil => cases hparts
    | cons part front =>
      obtain ⟨rfl, hrest⟩ := List.cons.inj hparts
      obtain ⟨hblock, hg⟩ := h.grouped front kind block back hrest
      refine ⟨hblock.append_left [t] fun _ u hu => ?_, hg⟩
      cases hu
      exact ht

theorem block (h : Grouping rest parts) {kind : CommandKind} {block : List Token}
    (hg : Grouped kind block) (hr : ∀ t ∈ rest.head?, t.isActionable = false) :
    Grouping (block ++ rest) (.grouped kind block :: parts) := by
  refine ⟨by rw [List.flatMap_cons, h.expand]; rfl, ?_, ?_⟩
  · intro u hu
    rcases List.mem_cons.mp hu with he | hu
    · cases he
    · exact h.kept u hu
  · intro front kind' block' back hparts
    cases front with
    | nil =>
      cases hparts
      rw [h.expand]
      exact ⟨⟨rfl, hg.ne_nil, hg.actionable, nofun, hr⟩, hg⟩
    | cons part front =>
      obtain ⟨rfl, hrest⟩ := List.cons.inj hparts
      obtain ⟨hblock, hg'⟩ := h.grouped front kind' block' back hrest
      refine ⟨hblock.append_left block fun hnil => ?_, hg'⟩
      exact absurd hnil (hblock.front_ne_nil hr)

end Grouping

/-! ## The pass on single tokens and on blocks -/

namespace Pass

section

variable {before block rest out : List Token}

theorem result_command_block (hne : block ≠ []) (ha : ∀ t ∈ block, t.isActionable = true)
    (hr : ∀ t ∈ rest.head?, t.isActionable = false) :
    (command.runFrom before (block ++ rest)).result =
      match commandKind? block with
      | none => .error (.unknownCommand before.length)
      | some kind => (command.runFrom (.command kind block :: before) rest).result := by
  obtain ⟨t, more, rfl⟩ := List.exists_cons_of_ne_nil hne
  have ht : command.starts t = true := ha t List.mem_cons_self
  have htake : (t :: (more ++ rest)).takeWhile Token.isActionable = t :: more :=
    takeWhile_append_of_head ha hr
  have hdrop : (more ++ rest).drop ((t :: more).length - 1) = rest := by
    rw [List.length_cons, Nat.add_sub_cancel, List.drop_left]
  rw [List.cons_append, runFrom, if_pos ht, Logged.result_bind]
  cases hk : commandKind? (t :: more) with
  | none =>
    simp only [command, htake, hk]
    rfl
  | some kind =>
    have hstep : (command.step before t (more ++ rest)).result =
        .ok { emit := [.command kind (t :: more)], skip := (t :: more).length - 1 } := by
      simp only [command, htake, hk]
      rfl
    rw [hstep]
    show (command.runFrom (.command kind (t :: more) :: before)
      ((more ++ rest).drop ((t :: more).length - 1))).result = _
    rw [hdrop]

theorem yields_command_block (hne : block ≠ []) (ha : ∀ t ∈ block, t.isActionable = true)
    (hr : ∀ t ∈ rest.head?, t.isActionable = false) :
    command.Yields (block ++ rest) out ↔
      ∃ kind made, commandKind? block = some kind ∧ out = .command kind block :: made ∧
        command.Yields rest made := by
  rw [← command_forward.run_eq_ok, run, result_command_block hne ha hr]
  cases hk : commandKind? block with
  | none =>
    constructor
    · intro h
      cases h
    · intro h
      obtain ⟨_, _, hk, -⟩ := h
      cases hk
  | some kind =>
    simp only [command_forward.runFrom_eq_ok]
    constructor
    · intro h
      obtain ⟨made, hy, rfl⟩ := h
      exact ⟨kind, made, rfl, rfl, hy⟩
    · intro h
      obtain ⟨_, made, hk, rfl, hy⟩ := h
      cases hk
      exact ⟨made, hy, rfl⟩

theorem yields_command_single {t : Token} (ht : t.isActionable = false) :
    command.Yields (t :: rest) out ↔ ∃ made, out = t :: made ∧ command.Yields rest made := by
  constructor
  · intro h
    cases h with
    | keep _ hy => exact ⟨_, rfl, hy⟩
    | step hs =>
      have ha : t.isActionable = true := hs
      rw [ht] at ha
      cases ha
  · intro h
    obtain ⟨made, rfl, hy⟩ := h
    exact .keep ht hy

end

/-! ## Whole lines -/

theorem exists_grouping {line out : List Token} (h : command.Yields line out) :
    ∃ parts, Grouping line parts ∧ out = parts.map Part.token := by
  induction line using block_induction generalizing out with
  | nil =>
    cases h
    exact ⟨[], .nil, rfl⟩
  | single t line ht ih =>
    obtain ⟨made, rfl, hy⟩ := (yields_command_single ht).mp h
    obtain ⟨parts, hg, rfl⟩ := ih hy
    exact ⟨_, hg.single ht, rfl⟩
  | block block rest hne ha hr ih =>
    obtain ⟨kind, made, hk, rfl, hy⟩ := (yields_command_block hne ha hr).mp h
    obtain ⟨parts, hg, rfl⟩ := ih hy
    exact ⟨_, hg.block (grouped_of_commandKind? hk ha) hr, rfl⟩

theorem marked_of_yields {line out front block back : List Token} (h : command.Yields line out)
    (hb : IsBlock line front block back) : Marked block := by
  induction line using block_induction generalizing out front with
  | nil =>
    obtain ⟨-, hnil⟩ := List.append_eq_nil_iff.mp hb.line.symm
    exact absurd (List.append_eq_nil_iff.mp hnil).1 hb.ne_nil
  | single t line ht ih =>
    obtain ⟨made, rfl, hy⟩ := (yields_command_single ht).mp h
    obtain ⟨front, rfl, hrest⟩ := hb.of_single ht
    exact ih hy hrest
  | block first rest hne ha hr ih =>
    obtain ⟨kind, made, hk, rfl, hy⟩ := (yields_command_block hne ha hr).mp h
    obtain rfl | ⟨front, rfl, hrest⟩ := hb.of_block ha hr
    · exact marked_iff.mpr ⟨kind, hk⟩
    · exact ih hy hrest

/-- The pass fails at the first block without a marker, and has passed what is in front. -/
theorem command_runFrom_eq_error {before line : List Token} {e : CompileError}
    (h : (command.runFrom before line).result = .error e) :
    ∃ front block back made, IsBlock line front block back ∧ ¬ Marked block ∧
      (∀ f b k, IsBlock line f b k → f.length < front.length → Marked b) ∧
      command.Yields front made ∧ e = .unknownCommand (before.length + made.length) := by
  induction line using block_induction generalizing before with
  | nil =>
    rw [result_runFrom_nil] at h
    cases h
  | single t line ht ih =>
    rw [runFrom_of_not_starts (show command.starts t = false from ht)] at h
    obtain ⟨front, block, back, made, hb, hm, hfirst, hy, rfl⟩ := ih h
    refine ⟨t :: front, block, back, t :: made, ?_, hm, ?_, .keep ht hy, ?_⟩
    · refine hb.append_left [t] fun _ u hu => ?_
      cases hu
      exact ht
    · intro f b k hf hlt
      obtain ⟨f, rfl, hrest⟩ := hf.of_single ht
      exact hfirst f b k hrest (Nat.lt_of_succ_lt_succ hlt)
    · rw [List.length_cons, List.length_cons, Nat.add_right_comm, Nat.add_assoc]
  | block first rest hne ha hr ih =>
    rw [result_command_block hne ha hr] at h
    cases hk : commandKind? first with
    | none =>
      rw [hk] at h
      cases h
      refine ⟨[], first, rest, [], ⟨rfl, hne, ha, nofun, hr⟩, ?_, nofun, .nil, rfl⟩
      intro hm
      obtain ⟨kind, hkind⟩ := marked_iff.mp hm
      rw [hk] at hkind
      cases hkind
    | some kind =>
      rw [hk] at h
      obtain ⟨front, block, back, made, hb, hm, hfirst, hy, rfl⟩ := ih h
      have hhead : ∀ t ∈ front.head?, t.isActionable = false := by
        intro t ht
        refine hr t ?_
        rw [hb.line, List.head?_append, ht]
        rfl
      refine ⟨first ++ front, block, back, .command kind first :: made, ?_, hm, ?_, ?_, ?_⟩
      · exact hb.append_left first fun hnil => absurd hnil (hb.front_ne_nil hr)
      · intro f b k hf hlt
        obtain rfl | ⟨f, rfl, hrest⟩ := hf.of_block ha hr
        · exact marked_iff.mpr ⟨kind, hk⟩
        · rw [List.length_append, List.length_append] at hlt
          exact hfirst f b k hrest (by omega)
      · exact (yields_command_block hne ha hhead).mpr ⟨kind, made, hk, rfl, hy⟩
      · rw [List.length_cons, List.length_cons, Nat.add_right_comm, Nat.add_assoc]

/-- The command pass succeeds on a line exactly if each block has a marker.  It then puts a
command in place of each block and keeps the rest, so that the line can be got back and a
second pass does nothing.  Else it fails at the first block without a marker. -/
theorem command_run_grouping (line : List Token) :
    ((∃ out, (command.run line).result = .ok out) ↔
      ∀ front block back, IsBlock line front block back → Marked block) ∧
    (∀ out, (command.run line).result = .ok out →
      (∃ parts, Grouping line parts ∧ out = parts.map Part.token ∧
        ∀ kind block, .grouped kind block ∈ parts →
          ∀ other, other.Perm block → ∀ k, Grouped k other ↔ k = kind) ∧
      (command.run out).result = .ok out) ∧
    ∀ e, (command.run line).result = .error e →
      ∃ front block back made, IsBlock line front block back ∧ ¬ Marked block ∧
        (∀ f b k, IsBlock line f b k → f.length < front.length → Marked b) ∧
        (command.run front).result = .ok made ∧ e = .unknownCommand made.length := by
  refine ⟨⟨?_, ?_⟩, ?_, ?_⟩
  · intro h front block back hb
    obtain ⟨out, h⟩ := h
    exact marked_of_yields (command_forward.run_eq_ok.mp h) hb
  · intro h
    cases hr : (command.run line).result with
    | ok out => exact ⟨out, rfl⟩
    | error e =>
      obtain ⟨front, block, back, -, hb, hm, -⟩ := command_runFrom_eq_error hr
      exact absurd (h front block back hb) hm
  · intro out h
    have hy := command_forward.run_eq_ok.mp h
    obtain ⟨parts, hg, hout⟩ := exists_grouping hy
    refine ⟨⟨parts, hg, hout, ?_⟩, result_run_of_not_starts ?_⟩
    · intro kind block hmem other hp k
      obtain ⟨front, back, hparts⟩ := List.append_of_mem hmem
      have hkind := ((hg.grouped front kind block back hparts).2).perm hp
      constructor
      · intro hk
        exact hkind.kind_eq hk
      · intro hk
        rw [hk]
        exact hkind
    · intro t ht
      obtain ⟨-, hi⟩ | ⟨kind, run, rfl, -⟩ := command_mem hy ht
      · exact hi
      · rfl
  · intro e h
    obtain ⟨front, block, back, made, hb, hm, hfirst, hy, rfl⟩ := command_runFrom_eq_error h
    refine ⟨front, block, back, made, hb, hm, hfirst, command_forward.run_eq_ok.mpr hy, ?_⟩
    rw [List.length_nil, Nat.zero_add]

/-- A command that is there already is kept, and a block without a marker stands third in
what is put out. -/
theorem command_run_grouping_lamps :
    let lamps : Selector := ⟨.light, true, "Lamps", none⟩
    let line : List Token := [.boolean true, .selector lamps, .not, .command .wait [.wait],
      .text "Deck" [], .send, .listen]
    let out : List Token := [.command .block [.boolean true, .selector lamps], .not,
      .command .wait [.wait], .command .listen [.text "Deck" [], .send, .listen]]
    let failing : List Token := [.wait, .boolean true, .not, .reverse, .whether, .relative]
    ((command.run line).result = .ok out ∧
      (∃ parts, Grouping line parts ∧ out = parts.map Part.token) ∧
      (command.run out).result = .ok out) ∧
    (command.run failing).result = .error (.unknownCommand 2) ∧
      ∃ front block back made, IsBlock failing front block back ∧ ¬ Marked block ∧
        (command.run front).result = .ok made ∧ made.length = 2 := by
  intro lamps line out failing
  have hline : (command.run line).result = .ok out := by with_unfolding_all rfl
  have hfailing : (command.run failing).result = .error (.unknownCommand 2) := by
    with_unfolding_all rfl
  obtain ⟨⟨parts, hg, hout, -⟩, hagain⟩ := (command_run_grouping line).2.1 out hline
  obtain ⟨front, block, back, made, hb, hm, -, hfront, he⟩ :=
    (command_run_grouping failing).2.2 _ hfailing
  refine ⟨⟨hline, ⟨parts, hg, hout⟩, hagain⟩, hfailing, front, block, back, made, hb, hm, hfront,
    ?_⟩
  exact (CompileError.unknownCommand.inj he).symm

end Pass
end DeviceScript
