/-
The texts that give coordinates.

A text gives three coordinates in the fields between its colons.  They are the first three
fields, or the three behind the tag and the name of a waypoint, and `Coordinates` says so in
terms of the text alone.  Trimming the whole text only takes blanks from its outer fields, which
are trimmed on their own anyway, so a vector is read from the fields of the text as it stands:
just when each of the three spells a number, whatever name stands before them and whatever
follows a further colon.
-/
import Mathlib.Data.List.DropRight
import DeviceScript.Vec3

namespace DeviceScript

/-! ## Trimming -/

namespace Text

theorem dropWhile_append_cons {c : Char} (hc : isBlank c = false) (a t : List Char) :
    (a ++ c :: t).dropWhile isBlank = a.dropWhile isBlank ++ c :: t := by
  rw [List.dropWhile_append]
  split
  · rename_i hempty
    rw [List.isEmpty_iff.mp hempty, List.dropWhile_cons, hc]
    rfl
  · rfl

theorem rdropWhile_append_cons {c : Char} (hc : isBlank c = false) (a t : List Char) :
    (a ++ c :: t).rdropWhile isBlank = a ++ c :: t.rdropWhile isBlank := by
  have hreverse : (a ++ c :: t).reverse = t.reverse ++ c :: a.reverse := by simp
  rw [List.rdropWhile, hreverse, dropWhile_append_cons hc, List.rdropWhile]
  simp

theorem trim_append_cons {c : Char} (hc : isBlank c = false) (a t : List Char) :
    trim (a ++ c :: t) = a.dropWhile isBlank ++ c :: t.rdropWhile isBlank := by
  show ((a ++ c :: t).dropWhile isBlank).rdropWhile isBlank = _
  rw [dropWhile_append_cons hc, rdropWhile_append_cons hc]

theorem trim_dropWhile (s : List Char) : trim (s.dropWhile isBlank) = trim s := by
  rw [trim, List.dropWhile_idempotent]
  rfl

theorem trim_rdropWhile (s : List Char) : trim (s.rdropWhile isBlank) = trim s := by
  by_cases h : ∀ c ∈ s, isBlank c = true
  · have htrim : trim s = [] := by
      show (s.dropWhile isBlank).rdropWhile isBlank = []
      rw [List.dropWhile_eq_nil_iff.mpr h, List.rdropWhile_nil]
    rw [List.rdropWhile_eq_nil_iff.mpr h, htrim]
    rfl
  · -- Around a character that stays, each end is trimmed on its own.
    obtain ⟨c, hmem, hc⟩ : ∃ c ∈ s, isBlank c = false := by simpa using h
    obtain ⟨a, t, rfl⟩ := List.append_of_mem hmem
    rw [rdropWhile_append_cons hc, trim_append_cons hc, trim_append_cons hc,
      List.rdropWhile_idempotent]

/-! ## Fields -/

theorem isBlank_colon : isBlank ':' = false := rfl

/-- A text is one field, or a field in front of a colon and a text. -/
@[elab_as_elim]
theorem field_induction {motive : List Char → Prop} (last : ∀ a, ':' ∉ a → motive a)
    (cons : ∀ a t, ':' ∉ a → motive t → motive (a ++ ':' :: t)) (s : List Char) : motive s := by
  induction hn : s.length using Nat.strongRecOn generalizing s with
  | _ n ih =>
    by_cases h : ':' ∈ s
    · obtain ⟨a, t, rfl, ha⟩ := List.eq_append_cons_of_mem h
      refine cons a t ha (ih t.length ?_ t rfl)
      rw [← hn, List.length_append, List.length_cons]
      omega
    · exact last s h

theorem map_trim_splitOn_rdropWhile (s : List Char) :
    ((s.rdropWhile isBlank).splitOn ':').map trim = (s.splitOn ':').map trim := by
  induction s using field_induction with
  | last a ha =>
    have hr : ':' ∉ a.rdropWhile isBlank := fun h => ha ((List.rdropWhile_prefix _ _).subset h)
    rw [List.splitOn_eq_singleton ha, List.splitOn_eq_singleton hr, List.map_singleton,
      List.map_singleton, trim_rdropWhile]
  | cons a t ha ih =>
    rw [rdropWhile_append_cons isBlank_colon, List.splitOn_append_cons_self_of_not_mem ha,
      List.splitOn_append_cons_self_of_not_mem ha, List.map_cons, List.map_cons, ih]

theorem map_trim_splitOn_dropWhile (s : List Char) :
    ((s.dropWhile isBlank).splitOn ':').map trim = (s.splitOn ':').map trim := by
  have hkept : ∀ a : List Char, ':' ∉ a → ':' ∉ a.dropWhile isBlank :=
    fun a ha h => ha (List.dropWhile_subset _ h)
  induction s using field_induction with
  | last a ha =>
    rw [List.splitOn_eq_singleton ha, List.splitOn_eq_singleton (hkept a ha),
      List.map_singleton, List.map_singleton, trim_dropWhile]
  | cons a t ha _ =>
    rw [dropWhile_append_cons isBlank_colon, List.splitOn_append_cons_self_of_not_mem ha,
      List.splitOn_append_cons_self_of_not_mem (hkept a ha), List.map_cons, List.map_cons,
      trim_dropWhile]

/-- Trimming a text trims no field further than trimming the field does. -/
theorem map_trim_splitOn_trim (s : List Char) :
    ((trim s).splitOn ':').map trim = (s.splitOn ':').map trim := by
  show (((s.dropWhile isBlank).rdropWhile isBlank).splitOn ':').map trim = _
  rw [map_trim_splitOn_rdropWhile, map_trim_splitOn_dropWhile]

/-- What may follow a field: nothing, or a colon with anything behind it. -/
def IsTail (t : List Char) : Prop := ∀ c, t.head? = some c → c = ':'

theorem exists_splitOn_of_isTail {a t : List Char} (ha : ':' ∉ a) (ht : IsTail t) :
    ∃ rest, (a ++ t).splitOn ':' = a :: rest := by
  cases t with
  | nil => exact ⟨[], by rw [List.append_nil, List.splitOn_eq_singleton ha]⟩
  | cons c t =>
    obtain rfl : c = ':' := ht c rfl
    exact ⟨_, List.splitOn_append_cons_self_of_not_mem ha t⟩

theorem exists_isTail_of_splitOn {s a : List Char} {rest : List (List Char)}
    (h : s.splitOn ':' = a :: rest) : ':' ∉ a ∧ ∃ t, IsTail t ∧ s = a ++ t := by
  induction s using field_induction with
  | last b hb =>
    rw [List.splitOn_eq_singleton hb] at h
    cases h
    exact ⟨hb, [], nofun, (List.append_nil _).symm⟩
  | cons b t hb _ =>
    rw [List.splitOn_append_cons_self_of_not_mem hb] at h
    cases h
    exact ⟨hb, ':' :: t, fun c hc => (Option.some.inj hc).symm, rfl⟩

theorem exists_text_of_splitOn {s a b : List Char} {rest : List (List Char)}
    (h : s.splitOn ':' = a :: b :: rest) :
    ':' ∉ a ∧ ∃ t, s = a ++ ':' :: t ∧ t.splitOn ':' = b :: rest := by
  induction s using field_induction with
  | last a' ha =>
    rw [List.splitOn_eq_singleton ha] at h
    cases h
  | cons a' t ha _ =>
    rw [List.splitOn_append_cons_self_of_not_mem ha] at h
    obtain ⟨rfl, ht⟩ := List.cons.inj h
    exact ⟨ha, t, rfl, ht⟩

end Text

namespace Vec3

open Text

/-! ## Coordinates -/

/-- The field spells the number, blanks around it apart. -/
def Spells (s : List Char) (a : Double) : Prop :=
  Numeral.Binary.read? .double (trim s) = some a

instance (s : List Char) (a : Double) : Decidable (Spells s a) :=
  inferInstanceAs (Decidable (_ = _))

/-- The text has its coordinates in the fields `x`, `y` and `z`, with or without the tag and the
name of a waypoint in front of them. -/
inductive Coordinates : (s x y z : List Char) → Prop where
  | plain {x y z tail : List Char} : ':' ∉ x → ':' ∉ y → ':' ∉ z → IsTail tail →
      trim x ≠ ['G', 'P', 'S'] → Coordinates (x ++ ':' :: (y ++ ':' :: (z ++ tail))) x y z
  | waypoint {tag name x y z tail : List Char} : ':' ∉ tag → ':' ∉ name →
      ':' ∉ x → ':' ∉ y → ':' ∉ z → IsTail tail → trim tag = ['G', 'P', 'S'] →
      Coordinates (tag ++ ':' :: (name ++ ':' :: (x ++ ':' :: (y ++ ':' :: (z ++ tail))))) x y z

theorem splitOn_three {x y z tail : List Char} (hx : ':' ∉ x) (hy : ':' ∉ y) (hz : ':' ∉ z)
    (ht : IsTail tail) :
    ∃ rest, (x ++ ':' :: (y ++ ':' :: (z ++ tail))).splitOn ':' = x :: y :: z :: rest := by
  obtain ⟨rest, hrest⟩ := exists_splitOn_of_isTail hz ht
  refine ⟨rest, ?_⟩
  rw [List.splitOn_append_cons_self_of_not_mem hx, List.splitOn_append_cons_self_of_not_mem hy,
    hrest]

theorem of_splitOn_three {s x y z : List Char} {rest : List (List Char)}
    (h : s.splitOn ':' = x :: y :: z :: rest) : ':' ∉ x ∧ ':' ∉ y ∧ ':' ∉ z ∧
      ∃ tail, IsTail tail ∧ s = x ++ ':' :: (y ++ ':' :: (z ++ tail)) := by
  obtain ⟨hx, t, rfl, ht⟩ := exists_text_of_splitOn h
  obtain ⟨hy, u, rfl, hu⟩ := exists_text_of_splitOn ht
  obtain ⟨hz, tail, htail, rfl⟩ := exists_isTail_of_splitOn hu
  exact ⟨hx, hy, hz, tail, htail, rfl⟩

theorem coordinateFields_cons (first : List Char) (fields : List (List Char)) :
    coordinateFields (first :: fields) =
      if trim first = ['G', 'P', 'S'] then fields.drop 1 else first :: fields := by
  simp only [coordinateFields, List.head?_cons, Option.map_some, Option.some.injEq,
    List.drop_succ_cons]

theorem coordinates_iff {s x y z : List Char} :
    Coordinates s x y z ↔ ∃ rest, coordinateFields (s.splitOn ':') = x :: y :: z :: rest := by
  constructor
  · intro h
    cases h with
    | plain hx hy hz ht hplain =>
      obtain ⟨rest, hrest⟩ := splitOn_three hx hy hz ht
      exact ⟨rest, by rw [hrest, coordinateFields_cons, if_neg hplain]⟩
    | waypoint hg hn hx hy hz ht htag =>
      obtain ⟨rest, hrest⟩ := splitOn_three hx hy hz ht
      refine ⟨rest, ?_⟩
      rw [List.splitOn_append_cons_self_of_not_mem hg, List.splitOn_append_cons_self_of_not_mem hn,
        hrest, coordinateFields_cons, if_pos htag, List.drop_one, List.tail_cons]
  · intro h
    obtain ⟨rest, hrest⟩ := h
    cases hsplit : s.splitOn ':' with
    | nil => exact absurd hsplit (List.splitOn_ne_nil _ _)
    | cons first fields =>
      rw [hsplit, coordinateFields_cons] at hrest
      by_cases htag : trim first = ['G', 'P', 'S']
      · rw [if_pos htag] at hrest
        cases fields with
        | nil => cases hrest
        | cons name fields =>
          obtain rfl : fields = x :: y :: z :: rest := hrest
          obtain ⟨hg, t, rfl, ht⟩ := exists_text_of_splitOn hsplit
          obtain ⟨hn, u, rfl, hu⟩ := exists_text_of_splitOn ht
          obtain ⟨hx, hy, hz, tail, htail, rfl⟩ := of_splitOn_three hu
          exact .waypoint hg hn hx hy hz htail htag
      · rw [if_neg htag] at hrest
        cases hrest
        obtain ⟨hx, hy, hz, tail, htail, rfl⟩ := of_splitOn_three hsplit
        exact .plain hx hy hz htail htag

/-! ## Reading -/

/-- The first three fields spell the components of the vector. -/
def Given (fields : List (List Char)) (v : Vec3) : Prop :=
  ∃ x y z rest, fields = x :: y :: z :: rest ∧ Spells x v.x ∧ Spells y v.y ∧ Spells z v.z

theorem read?_eq_some_iff_given {s : List Char} {v : Vec3} :
    read? s = some v ↔ Given (coordinateFields ((trim s).splitOn ':')) v := by
  rw [read?]
  split
  · rename_i x y z rest hfields
    rw [hfields]
    simp only [Option.bind_eq_bind, Option.bind_eq_some_iff]
    constructor
    · intro h
      obtain ⟨a, ha, b, hb, c, hc, habc⟩ := h
      cases habc
      exact ⟨x, y, z, rest, rfl, ha, hb, hc⟩
    · intro h
      obtain ⟨x', y', z', rest', hrest, ha, hb, hc⟩ := h
      cases hrest
      exact ⟨v.x, ha, v.y, hb, v.z, hc, rfl⟩
  · rename_i hnone
    refine ⟨nofun, fun h => ?_⟩
    obtain ⟨x, y, z, rest, hrest, -⟩ := h
    exact absurd hrest (hnone x y z rest)

/-- Only the trimmed fields count. -/
theorem Given.of_map_trim_eq {l m : List (List Char)} {v : Vec3} (h : Given l v)
    (hm : l.map trim = m.map trim) : Given m v := by
  obtain ⟨x, y, z, rest, rfl, hx, hy, hz⟩ := h
  obtain ⟨x', m, rfl, hx', hm⟩ := List.map_eq_cons_iff.mp hm.symm
  obtain ⟨y', m, rfl, hy', hm⟩ := List.map_eq_cons_iff.mp hm
  obtain ⟨z', m, rfl, hz', hm⟩ := List.map_eq_cons_iff.mp hm
  rw [Spells, ← hx'] at hx
  rw [Spells, ← hy'] at hy
  rw [Spells, ← hz'] at hz
  exact ⟨x', y', z', m, rfl, hx, hy, hz⟩

theorem map_trim_coordinateFields {l m : List (List Char)} (h : l.map trim = m.map trim) :
    (coordinateFields l).map trim = (coordinateFields m).map trim := by
  have hhead : l.head?.map trim = m.head?.map trim := by
    rw [← List.head?_map, ← List.head?_map, h]
  rw [coordinateFields, coordinateFields, hhead]
  split
  · rw [List.map_drop, List.map_drop, h]
  · exact h

/-- A vector is read from the fields of the text as it stands. -/
theorem read?_eq_some_iff {s : List Char} {v : Vec3} :
    read? s = some v ↔ Given (coordinateFields (s.splitOn ':')) v := by
  have hfields := map_trim_coordinateFields (map_trim_splitOn_trim s)
  rw [read?_eq_some_iff_given]
  exact ⟨fun h => h.of_map_trim_eq hfields, fun h => h.of_map_trim_eq hfields.symm⟩

theorem Coordinates.read?_eq_some_iff {s x y z : List Char} (h : Coordinates s x y z) {v : Vec3} :
    read? s = some v ↔ Spells x v.x ∧ Spells y v.y ∧ Spells z v.z := by
  obtain ⟨rest, hrest⟩ := coordinates_iff.mp h
  rw [Vec3.read?_eq_some_iff, hrest]
  constructor
  · intro hg
    obtain ⟨x', y', z', rest', he, hg⟩ := hg
    cases he
    exact hg
  · intro hg
    exact ⟨x, y, z, rest, rfl, hg⟩

/-- A text with coordinates is read as a vector just when each of the three spells a number, and
the vector has these numbers.  A text without them is not read. -/
theorem read?_coordinates :
    (∀ s x y z : List Char, Coordinates s x y z → ∀ v : Vec3,
      read? s = some v ↔ Spells x v.x ∧ Spells y v.y ∧ Spells z v.z) ∧
    ∀ (s : List Char) (v : Vec3), read? s = some v → ∃ x y z, Coordinates s x y z := by
  refine ⟨fun s x y z h v => h.read?_eq_some_iff, fun s v h => ?_⟩
  obtain ⟨x, y, z, rest, hrest, -⟩ := read?_eq_some_iff.mp h
  exact ⟨x, y, z, coordinates_iff.mpr ⟨rest, hrest⟩⟩

/-- A waypoint with blanks around its tag and around a coordinate, with a name that holds a blank,
and with a color behind its coordinates. -/
theorem read?_coordinates_waypoint :
    let s := " GPS :dock 7: 1 :-2.5:inf:#FF75C9F1: ".toList
    let v : Vec3 := ⟨.ofInt .double 1, .ofDecimal .double true 25 (-1), .infinite false⟩
    Coordinates s " 1 ".toList "-2.5".toList "inf".toList ∧
      Spells " 1 ".toList v.x ∧ Spells "-2.5".toList v.y ∧ Spells "inf".toList v.z ∧
      read? s = some v ∧ ∃ x y z, Coordinates s x y z := by
  intro s v
  have hs : Coordinates s " 1 ".toList "-2.5".toList "inf".toList :=
    coordinates_iff.mpr ⟨_, rfl⟩
  have hx : Spells " 1 ".toList v.x := by decide +kernel
  have hy : Spells "-2.5".toList v.y := by decide +kernel
  have hz : Spells "inf".toList v.z := by decide +kernel
  have hread := (read?_coordinates.1 s _ _ _ hs v).mpr ⟨hx, hy, hz⟩
  exact ⟨hs, hx, hy, hz, hread, read?_coordinates.2 s v hread⟩

end Vec3
end DeviceScript
