/-
Documents that were built are taken apart again.

Each way of building a document has the reader that undoes it: a record gives the values
of its fields, a choice its name and its content, a word the word.  A reader of containers
succeeds if it may still go as deep as the document nests.  Whatever is built in these ways
is legible.
-/
import DeviceScript.Json.Access
import DeviceScript.Proofs.Json.Number

namespace DeviceScript
namespace Json

/-! ## Lists -/

theorem mapM_map_of_forall {α β γ : Type} {l : List α} {write : α → β} {read : β → Option γ}
    (value : α → γ) (h : ∀ a ∈ l, read (write a) = some (value a)) :
    (l.map write).mapM read = some (l.map value) := by
  induction l with
  | nil => rfl
  | cons a l ih =>
    obtain ⟨ha, hl⟩ := List.forall_mem_cons.mp h
    rw [List.map_cons, List.mapM_cons, ha, ih hl]
    rfl

theorem exists_of_mapM {α β : Type} {l : List α} {read : α → Option β} {values : List β}
    (h : l.mapM read = some values) : ∀ a ∈ l, ∃ b, read a = some b := by
  induction l generalizing values with
  | nil => exact List.forall_mem_nil _
  | cons a l ih =>
    rw [List.mapM_cons, Option.bind_eq_bind, Option.bind_eq_some_iff] at h
    obtain ⟨b, hb, h⟩ := h
    rw [Option.bind_eq_bind, Option.bind_eq_some_iff] at h
    obtain ⟨rest, hrest, -⟩ := h
    exact List.forall_mem_cons.mpr ⟨⟨b, hb⟩, ih hrest⟩

/-! ## Nesting -/

mutual

/-- How deep containers nest in a document. -/
def nesting : Json → Nat
  | .array l => elementNesting l + 1
  | .object l => fieldNesting l + 1
  | _ => 0

def elementNesting : List Json → Nat
  | [] => 0
  | j :: rest => max j.nesting (elementNesting rest)

def fieldNesting : List (List Glyph × Json) → Nat
  | [] => 0
  | (_, j) :: rest => max j.nesting (fieldNesting rest)

end

theorem nesting_le_elementNesting {l : List Json} : ∀ j ∈ l, j.nesting ≤ elementNesting l := by
  induction l with
  | nil => exact List.forall_mem_nil _
  | cons j l ih =>
    rw [elementNesting]
    refine List.forall_mem_cons.mpr ⟨Nat.le_max_left _ _, fun k hk => ?_⟩
    exact Nat.le_trans (ih k hk) (Nat.le_max_right _ _)

theorem nesting_le_fieldNesting {l : List (List Glyph × Json)} :
    ∀ p ∈ l, p.2.nesting ≤ fieldNesting l := by
  induction l with
  | nil => exact List.forall_mem_nil _
  | cons p l ih =>
    rw [fieldNesting]
    refine List.forall_mem_cons.mpr ⟨Nat.le_max_left _ _, fun q hq => ?_⟩
    exact Nat.le_trans (ih q hq) (Nat.le_max_right _ _)

theorem nesting_array {l : List Json} {n : Nat} (h : (array l).nesting ≤ n) :
    ∃ m, n = m + 1 ∧ ∀ j ∈ l, j.nesting ≤ m := by
  rw [nesting] at h
  refine ⟨n - 1, by omega, fun j hj => ?_⟩
  have := nesting_le_elementNesting j hj
  omega

theorem nesting_record {fields : List (String × Json)} {n : Nat}
    (h : (record fields).nesting ≤ n) : ∃ m, n = m + 1 ∧ ∀ p ∈ fields, p.2.nesting ≤ m := by
  rw [record, nesting] at h
  refine ⟨n - 1, by omega, fun p hp => ?_⟩
  have := nesting_le_fieldNesting _ (List.mem_map_of_mem (f := fun p : String × Json =>
    (Glyph.ofText p.1, p.2)) hp)
  dsimp only at this
  omega

theorem nesting_tagged {name : String} {content : Json} {n : Nat}
    (h : (tagged name content).nesting ≤ n) : ∃ m, n = m + 1 ∧ content.nesting ≤ m := by
  obtain ⟨m, hm, hfields⟩ := nesting_record h
  exact ⟨m, hm, hfields (name, content) List.mem_cons_self⟩

/-! ## Null -/

theorem ofWord_ne_null {α : Type} [Vocabulary α] (a : α) : ofWord a ≠ .null := by
  intro h
  cases h

theorem ofInt_ne_null (i : Int) : ofInt i ≠ .null := by
  intro h
  cases h

theorem record_ne_null (fields : List (String × Json)) : record fields ≠ .null := by
  intro h
  cases h

/-! ## Scalars -/

@[simp] theorem text?_ofText (s : String) : (ofText s).text? = some s := Glyph.text?_ofText s

@[simp] theorem int32?_ofInt (i : Int32) : (ofInt i.toInt).int32? = some i := by
  have hlow := i.le_toInt
  have hhigh := i.toInt_lt
  have hinteger : (ofInt i.toInt).integer? = some i.toInt :=
    Number.integer?_ofInt (by omega) (by omega)
  rw [int32?, hinteger, Option.bind_eq_bind, Option.bind_some, if_pos ⟨hlow, hhigh⟩,
    Int32.ofInt_toInt]
  rfl

@[simp] theorem uint64?_ofInt (u : UInt64) : (ofInt u.toNat).uint64? = some u := by
  have hlt := u.toNat_lt
  have hinteger : (ofInt u.toNat).integer? = some (u.toNat : Int) :=
    Number.integer?_ofInt (by omega) (by omega)
  rw [uint64?, hinteger]
  simp

/-- An index that may be missing. -/
@[simp] theorem option?_ofOption (o : Option Int32) :
    option? int32? (ofOption (fun i => ofInt i.toInt) o) = some o := by
  cases o with
  | none => rfl
  | some i =>
    show (int32? (ofInt i.toInt)).map some = _
    rw [int32?_ofInt]
    rfl

/-! ## Choices -/

@[simp] theorem choice?_ofText (n : Nat) (s : String) : choice? n (ofText s) = some (s, none) := by
  have h := Glyph.text?_ofText s
  cases n <;> simp [choice?, ofText, h]

@[simp] theorem choice?_tagged (n : Nat) (name : String) (content : Json) :
    choice? (n + 1) (tagged name content) = some (name, some (n, content)) := by
  simp [choice?, tagged, record]

@[simp] theorem word?_ofWord {α : Type} [Vocabulary α] (n : Nat) (a : α) :
    word? α n (ofWord a) = some a := by
  rw [word?, name?, ofWord, choice?_ofText]
  exact Vocabulary.ofTag?_tag a

/-! ## Records -/

theorem filter_key {fields : List (String × Json)} (hd : (fields.map (·.1)).Nodup)
    {p : String × Json} (hp : p ∈ fields) : (fields.filter fun q => q.1 == p.1) = [p] := by
  induction fields with
  | nil => cases hp
  | cons q fields ih =>
    rw [List.map_cons, List.nodup_cons] at hd
    obtain ⟨hq, hd⟩ := hd
    rcases List.mem_cons.mp hp with rfl | hp
    · have hrest : (fields.filter fun q => q.1 == p.1) = [] := by
        rw [List.filter_eq_nil_iff]
        intro r hr he
        exact hq (List.mem_map.mpr ⟨r, hr, beq_iff_eq.mp he⟩)
      rw [List.filter_cons_of_pos (by simp), hrest]
    · have hne : ¬ q.1 = p.1 := fun he => hq (List.mem_map.mpr ⟨p, hp, he.symm⟩)
      rw [List.filter_cons_of_neg (by simpa using hne)]
      exact ih hd hp

theorem once?_of_mem {fields : List (String × Json)} (hd : (fields.map (·.1)).Nodup)
    {p : String × Json} (hp : p ∈ fields) : once? p.1 fields = some (some p.2) := by
  rw [once?, filter_key hd hp]

/-- A record whose fields have different names gives the values of all of them. -/
theorem record?_record (padded : Bool) (fields : List (String × Json))
    (hd : (fields.map (·.1)).Nodup) (n : Nat) :
    record? padded (fields.map (·.1)) (n + 1) (record fields) =
      some (n, fields.map fun p => some p.2) := by
  have hfields : (fields.map fun p => (Glyph.ofText p.1, p.2)).mapM
      (fun p => (Glyph.text? p.1).map fun k => (k, p.2)) = some (fields.map id) :=
    mapM_map_of_forall id fun p _ => by simp
  have hvalues : (fields.map (·.1)).mapM (fun name => once? name fields) =
      some (fields.map fun p => some p.2) :=
    mapM_map_of_forall (fun p => some p.2) fun p hp => once?_of_mem hd hp
  rw [List.map_id] at hfields
  rw [record, record?, hfields, Option.bind_eq_bind, Option.bind_some, hvalues]
  rfl

/-! ## Legibility -/

theorem legible_ofText (s : String) : (ofText s).Legible := .string (Glyph.legible_ofText s)

theorem legible_ofInt (i : Int) : (ofInt i).Legible := .number (Number.legible_ofInt i)

theorem legible_ofWord {α : Type} [Vocabulary α] (a : α) : (ofWord a).Legible := legible_ofText _

theorem legible_ofOption {α : Type} {write : α → Json} (h : ∀ a, (write a).Legible)
    (o : Option α) : (ofOption write o).Legible := by
  cases o with
  | none => exact .null
  | some a => exact h a

theorem legible_ofSingle (x : Single) : (ofSingle x).Legible := by
  rw [ofSingle, ofBinary]
  cases h : Number.ofBinary? .single x with
  | none => exact .null
  | some n => exact .number (Number.legible_ofBinary? h)

theorem legible_record {fields : List (String × Json)} (h : ∀ p ∈ fields, p.2.Legible) :
    (record fields).Legible := by
  refine .object ?_ ?_
  · intro p hp
    obtain ⟨q, -, rfl⟩ := List.mem_map.mp hp
    exact Glyph.legible_ofText q.1
  · intro p hp
    obtain ⟨q, hq, rfl⟩ := List.mem_map.mp hp
    exact h q hq

theorem legible_tagged {name : String} {content : Json} (h : content.Legible) :
    (tagged name content).Legible :=
  legible_record (List.forall_mem_singleton.mpr h)

/-- A legible document is decoded from its text as it is from the document. -/
theorem readAs?_text {α : Type} (decode : Nat → Json → Option α) {j : Json} (hj : j.Legible) :
    readAs? decode j.text = decode maxNesting j := by
  rw [readAs?, text, String.toList_ofList, read?_chars hj]
  rfl

end Json
end DeviceScript
