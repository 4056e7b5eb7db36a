/-
Selectors and conditions are read back from their documents.

A reader that may go as deep as the document nests finds in every container what was put
there, and numbers come back if what is written for them does.  A number that is not finite
is written as null, which is read as no number, so a condition with such a number is refused
however deep the reader may go.
-/
import DeviceScript.Json.Model
import DeviceScript.Proofs.Json.Access

namespace DeviceScript

open Json (ofText ofInt ofWord ofOption ofSingle record tagged binary? elements? nesting_array
  nesting_record nesting_tagged record?_record)

/-! ## Numbers -/

namespace Numeral.Binary

def isFinite {f : Format} : Binary f → Bool
  | .finite .. => true
  | _ => false

end Numeral.Binary

namespace Json

/-- What is written for the number is read as the number again. -/
def Number.Restores (x : Single) : Prop :=
  ∀ n, ofBinary? .single x = some n → n.toBinary? .single = some x

theorem ofBinary?_of_isFinite {x : Single} (hx : x.isFinite = true) :
    ∃ n, Number.ofBinary? .single x = some n := by
  cases x with
  | nan => cases hx
  | infinite s => cases hx
  | finite s m h =>
    cases m with
    | zero => exact ⟨_, rfl⟩
    | succ m => exact ⟨_, rfl⟩

theorem binary?_ofSingle {x : Single} (hx : x.isFinite = true) (hr : Number.Restores x) :
    binary? .single (ofSingle x) = some x := by
  obtain ⟨n, hn⟩ := ofBinary?_of_isFinite hx
  rw [ofSingle, ofBinary, hn]
  exact hr n hn

theorem ofSingle_of_not_isFinite {x : Single} (hx : x.isFinite = false) : ofSingle x = .null := by
  cases x with
  | nan => rfl
  | infinite s => rfl
  | finite s m h => cases hx

theorem isFinite_of_binary? {x y : Single} (h : binary? .single (ofSingle x) = some y) :
    x.isFinite = true := by
  cases hx : x.isFinite with
  | true => rfl
  | false =>
    rw [ofSingle_of_not_isFinite hx] at h
    cases h

end Json

/-! ## Selectors -/

namespace Selector

theorem legible_toJson (s : Selector) : s.toJson.Legible := by
  refine Json.legible_record ?_
  simp only [List.forall_mem_cons]
  exact ⟨Json.legible_ofWord _, .bool _, Json.legible_ofText _,
    Json.legible_ofOption (fun i => Json.legible_ofInt _) _, List.forall_mem_nil _⟩

theorem ofJson?_toJson (s : Selector) (n : Nat) : ofJson? (n + 1) s.toJson = some s := by
  have hfields := record?_record false [("block_type", ofWord s.device),
    ("is_group", .bool s.isGroup), ("name", ofText s.name),
    ("index", ofOption (fun i => ofInt i.toInt) s.index)]
    (show ["block_type", "is_group", "name", "index"].Nodup by decide) n
  rw [ofJson?, toJson]
  simp only [List.map_cons, List.map_nil] at hfields
  rw [hfields]
  simp [Json.bool?]

end Selector

namespace Condition

/-- The numbers with which a condition compares. -/
def numbers : Condition → List Single
  | .boolean .. => []
  | .text .. => []
  | .numeric _ _ _ v => [v]
  | .aggregate _ c _ => c.numbers
  | .not c => c.numbers
  | .and a b => a.numbers ++ b.numbers
  | .or a b => a.numbers ++ b.numbers

theorem blockOfJson?_blockJson {α β : Type} [Vocabulary α] {value? : Json → Option β}
    (build : Device → α → Comparison → β → Condition) (n : Nat) (d : Device) (p : α)
    (c : Comparison) (v : Json) :
    blockOfJson? value? build (n + 1) (blockJson d p c v) = (value? v).map (build d p c) := by
  have hfields := record?_record false [("block_type", ofWord d),
    ("property", ofWord p), ("comparator", ofWord c), ("value", v)]
    (show ["block_type", "property", "comparator", "value"].Nodup by decide) n
  rw [blockOfJson?, blockJson]
  simp only [List.map_cons, List.map_nil] at hfields
  rw [hfields]
  cases h : value? v <;> simp [h]

theorem providerOfJson?_tagged (s : Selector) (n : Nat) :
    providerOfJson? (n + 2) (tagged "Selector" s.toJson) = some s := by
  rw [providerOfJson?, Json.choice?_tagged]
  exact s.ofJson?_toJson n

theorem aggregateOfJson?_record (inner : Json → Option Condition) (n : Nat)
    (mode : Aggregation) (c provider : Json) :
    aggregateOfJson? inner (n + 1) (record [("mode", ofWord mode), ("condition", c),
      ("provider", provider)]) =
      (inner c).bind fun c => (providerOfJson? n provider).map (.aggregate mode c) := by
  have hfields := record?_record false [("mode", ofWord mode), ("condition", c),
    ("provider", provider)] (show ["mode", "condition", "provider"].Nodup by decide) n
  simp only [List.map_cons, List.map_nil] at hfields
  rw [aggregateOfJson?, hfields]
  simp only [Json.word?_ofWord, Option.map_eq_bind]
  rfl

theorem pairOfJson?_array (inner : Json → Option Condition)
    (build : Condition → Condition → Condition) (n : Nat) (a b : Json) :
    pairOfJson? inner build (n + 1) (.array [a, b]) =
      (inner a).bind fun a => (inner b).map (build a) := by
  rw [pairOfJson?, elements?]
  simp only [Option.map_eq_bind]
  rfl

/-- With no containers left nothing is read, so two containers further in is one less. -/
theorem ofJson?_succ (n : Nat) (j : Json) :
    ofJson? (n + 1) j = ofJsonWith? (ofJson? n) (ofJson? (n - 1)) (n + 1) j := by
  cases n with
  | zero => rfl
  | succ n => rfl

/-- A condition is read by the reader of its own kind. -/
theorem ofJson?_toJson_succ (c : Condition) (n : Nat) :
    ofJson? (n + 1) c.toJson =
      match c with
      | .boolean d p k v => blockOfJson? Json.bool? .boolean n (blockJson d p k (.bool v))
      | .text d p k v => blockOfJson? Json.text? .text n (blockJson d p k (ofText v))
      | .numeric d p k v =>
        blockOfJson? (binary? .single) .numeric n (blockJson d p k (ofSingle v))
      | .aggregate mode c s =>
        aggregateOfJson? (ofJson? (n - 1)) n (record [("mode", ofWord mode),
          ("condition", c.toJson), ("provider", tagged "Selector" s.toJson)])
      | .not c => (ofJson? n c.toJson).map .not
      | .and a b => pairOfJson? (ofJson? (n - 1)) .and n (.array [a.toJson, b.toJson])
      | .or a b => pairOfJson? (ofJson? (n - 1)) .or n (.array [a.toJson, b.toJson]) := by
  rw [ofJson?_succ, ofJsonWith?]
  cases c <;> (rw [toJson, Json.choice?_tagged]; rfl)

theorem toJson_ne_null (c : Condition) : c.toJson ≠ .null := by
  cases c <;> exact Json.record_ne_null _

theorem legible_blockJson {α : Type} [Vocabulary α] (d : Device) (p : α) (c : Comparison)
    {v : Json} (hv : v.Legible) : (blockJson d p c v).Legible := by
  refine Json.legible_record ?_
  simp only [List.forall_mem_cons]
  exact ⟨Json.legible_ofWord _, Json.legible_ofWord _, Json.legible_ofWord _, hv,
    List.forall_mem_nil _⟩

theorem legible_pair {a b : Json} (ha : a.Legible) (hb : b.Legible) :
    (Json.array [a, b]).Legible := by
  refine .array ?_
  simp only [List.forall_mem_cons]
  exact ⟨ha, hb, List.forall_mem_nil _⟩

theorem legible_toJson (c : Condition) : c.toJson.Legible := by
  induction c with
  | boolean d p c v => exact Json.legible_tagged (legible_blockJson d p c (.bool v))
  | text d p c v => exact Json.legible_tagged (legible_blockJson d p c (Json.legible_ofText v))
  | numeric d p c v =>
    exact Json.legible_tagged (legible_blockJson d p c (Json.legible_ofSingle v))
  | aggregate mode c s ih =>
    refine Json.legible_tagged (Json.legible_record ?_)
    simp only [List.forall_mem_cons]
    exact ⟨Json.legible_ofWord _, ih, Json.legible_tagged s.legible_toJson,
      List.forall_mem_nil _⟩
  | not c ih => exact Json.legible_tagged ih
  | and a b iha ihb => exact Json.legible_tagged (legible_pair iha ihb)
  | or a b iha ihb => exact Json.legible_tagged (legible_pair iha ihb)

/-! ### Reading back -/

theorem blockOfJson?_of_nesting {α β : Type} [Vocabulary α] {value? : Json → Option β}
    {build : Device → α → Comparison → β → Condition} {n : Nat} {d : Device} {p : α}
    {c : Comparison} {v : Json} {b : β} (hn : (blockJson d p c v).nesting ≤ n)
    (hv : value? v = some b) :
    blockOfJson? value? build n (blockJson d p c v) = some (build d p c b) := by
  obtain ⟨m, rfl, -⟩ := nesting_record hn
  rw [blockOfJson?_blockJson, hv]
  rfl

theorem pairOfJson?_of_nesting {build : Condition → Condition → Condition} {n : Nat}
    {a b : Condition} (hn : (Json.array [a.toJson, b.toJson]).nesting ≤ n)
    (ha : ∀ m, a.toJson.nesting ≤ m → ofJson? m a.toJson = some a)
    (hb : ∀ m, b.toJson.nesting ≤ m → ofJson? m b.toJson = some b) :
    pairOfJson? (ofJson? (n - 1)) build n (.array [a.toJson, b.toJson]) = some (build a b) := by
  obtain ⟨m, rfl, hparts⟩ := nesting_array hn
  simp only [List.forall_mem_cons] at hparts
  rw [pairOfJson?_array, Nat.add_sub_cancel, ha m hparts.1, hb m hparts.2.1]
  rfl

theorem ofJson?_toJson {c : Condition} {n : Nat} (hn : c.toJson.nesting ≤ n)
    (hx : ∀ x ∈ c.numbers, binary? .single (ofSingle x) = some x) :
    ofJson? n c.toJson = some c := by
  induction c generalizing n with
  | boolean d p c v =>
    obtain ⟨m, rfl, hblock⟩ := nesting_tagged hn
    rw [ofJson?_toJson_succ]
    exact blockOfJson?_of_nesting hblock rfl
  | text d p c v =>
    obtain ⟨m, rfl, hblock⟩ := nesting_tagged hn
    rw [ofJson?_toJson_succ]
    exact blockOfJson?_of_nesting hblock (Json.text?_ofText v)
  | numeric d p c v =>
    obtain ⟨m, rfl, hblock⟩ := nesting_tagged hn
    rw [ofJson?_toJson_succ]
    exact blockOfJson?_of_nesting hblock (hx v (List.mem_singleton.mpr rfl))
  | aggregate mode c s ih =>
    obtain ⟨m, rfl, hrecord⟩ := nesting_tagged hn
    obtain ⟨m, rfl, hfields⟩ := nesting_record hrecord
    simp only [List.forall_mem_cons] at hfields
    obtain ⟨-, hc, hprovider, -⟩ := hfields
    obtain ⟨m, rfl, hs⟩ := nesting_tagged hprovider
    obtain ⟨m, rfl, -⟩ := nesting_record hs
    rw [ofJson?_toJson_succ]
    dsimp only
    rw [aggregateOfJson?_record, providerOfJson?_tagged, ih (n := m + 3 - 1) hc hx]
    rfl
  | not c ih =>
    obtain ⟨m, rfl, hc⟩ := nesting_tagged hn
    rw [ofJson?_toJson_succ]
    dsimp only
    rw [ih hc hx]
    rfl
  | and a b iha ihb =>
    obtain ⟨m, rfl, hpair⟩ := nesting_tagged hn
    obtain ⟨hxa, hxb⟩ := List.forall_mem_append.mp hx
    rw [ofJson?_toJson_succ]
    exact pairOfJson?_of_nesting hpair (fun _ h => iha h hxa) (fun _ h => ihb h hxb)
  | or a b iha ihb =>
    obtain ⟨m, rfl, hpair⟩ := nesting_tagged hn
    obtain ⟨hxa, hxb⟩ := List.forall_mem_append.mp hx
    rw [ofJson?_toJson_succ]
    exact pairOfJson?_of_nesting hpair (fun _ h => iha h hxa) (fun _ h => ihb h hxb)

/-! ### Refusing -/

/-- Every condition has a container inside its outermost one. -/
theorem exists_of_ofJson? {c d : Condition} {n : Nat} (h : ofJson? n c.toJson = some d) :
    ∃ m, n = m + 2 := by
  obtain - | - | n := n
  · cases h
  · rw [ofJson?_toJson_succ] at h
    cases c <;> cases h
  · exact ⟨n, rfl⟩

theorem exists_of_pairOfJson? {inner : Json → Option Condition}
    {build : Condition → Condition → Condition} {n : Nat} {a b : Json} {d : Condition}
    (h : pairOfJson? inner build (n + 1) (.array [a, b]) = some d) :
    (∃ e, inner a = some e) ∧ ∃ e, inner b = some e := by
  rw [pairOfJson?_array, Option.bind_eq_some_iff] at h
  obtain ⟨e, ha, h⟩ := h
  obtain ⟨f, hb, -⟩ := Option.map_eq_some_iff.mp h
  exact ⟨⟨e, ha⟩, ⟨f, hb⟩⟩

/-- A condition that is read compares with finite numbers only. -/
theorem isFinite_of_ofJson? {c d : Condition} {n : Nat} (h : ofJson? n c.toJson = some d) :
    ∀ x ∈ c.numbers, x.isFinite = true := by
  induction c generalizing n d with
  | boolean => exact List.forall_mem_nil _
  | text => exact List.forall_mem_nil _
  | numeric e p c v =>
    obtain ⟨m, rfl⟩ := exists_of_ofJson? h
    rw [ofJson?_toJson_succ] at h
    dsimp only at h
    rw [blockOfJson?_blockJson, Option.map_eq_some_iff] at h
    obtain ⟨w, hw, -⟩ := h
    exact List.forall_mem_singleton.mpr (Json.isFinite_of_binary? hw)
  | aggregate mode c s ih =>
    obtain ⟨m, rfl⟩ := exists_of_ofJson? h
    rw [ofJson?_toJson_succ] at h
    dsimp only at h
    rw [aggregateOfJson?_record, Option.bind_eq_some_iff] at h
    obtain ⟨e, he, -⟩ := h
    exact ih he
  | not c ih =>
    obtain ⟨m, rfl⟩ := exists_of_ofJson? h
    rw [ofJson?_toJson_succ] at h
    obtain ⟨e, he, -⟩ := Option.map_eq_some_iff.mp h
    exact ih he
  | and a b iha ihb =>
    obtain ⟨m, rfl⟩ := exists_of_ofJson? h
    rw [ofJson?_toJson_succ] at h
    obtain ⟨⟨e, he⟩, ⟨f, hf⟩⟩ := exists_of_pairOfJson? h
    exact List.forall_mem_append.mpr ⟨iha he, ihb hf⟩
  | or a b iha ihb =>
    obtain ⟨m, rfl⟩ := exists_of_ofJson? h
    rw [ofJson?_toJson_succ] at h
    obtain ⟨⟨e, he⟩, ⟨f, hf⟩⟩ := exists_of_pairOfJson? h
    exact List.forall_mem_append.mpr ⟨iha he, ihb hf⟩

end Condition
end DeviceScript
