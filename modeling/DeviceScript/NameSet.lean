/-
Sets of names.

A set is the list of its names in strictly rising order, so that two sets with the
same names are equal and are listed alike.
-/
import DeviceScript.Text.Order

namespace DeviceScript

/-- Whether `a` comes before `b`. -/
def nameBefore (a b : String) : Prop := Text.order a.toList b.toList = .lt

instance (a b : String) : Decidable (nameBefore a b) :=
  inferInstanceAs (Decidable (Text.order a.toList b.toList = .lt))

structure NameSet where
  names : List String
  sorted : names.Pairwise nameBefore := by exact List.Pairwise.nil

namespace NameSet

def empty : NameSet := { names := [] }

/-- Puts a name in its place in a rising list, or nowhere if it is there. -/
def place (name : String) : List String → List String
  | [] => [name]
  | a :: l =>
    match Text.order name.toList a.toList with
    | .lt => name :: a :: l
    | .eq => a :: l
    | .gt => a :: place name l

theorem mem_place {name b : String} {l : List String} (h : b ∈ place name l) :
    b = name ∨ b ∈ l := by
  induction l with
  | nil => simpa [place] using h
  | cons a l ih =>
    rw [place] at h
    split at h
    · simpa using h
    · exact Or.inr h
    · rcases List.mem_cons.mp h with rfl | h
      · simp
      · rcases ih h with h | h
        · exact Or.inl h
        · exact Or.inr (List.mem_cons_of_mem _ h)

theorem place_sorted {l : List String} (hl : l.Pairwise nameBefore) (name : String) :
    (place name l).Pairwise nameBefore := by
  induction l with
  | nil => simp [place]
  | cons a l ih =>
    obtain ⟨ha, hl⟩ := List.pairwise_cons.mp hl
    rw [place]
    split
    · rename_i h
      refine List.pairwise_cons.mpr ⟨?_, List.pairwise_cons.mpr ⟨ha, hl⟩⟩
      intro b hb
      rcases List.mem_cons.mp hb with rfl | hb
      · exact h
      · exact Text.order_lt_trans h (ha b hb)
    · exact List.pairwise_cons.mpr ⟨ha, hl⟩
    · rename_i h
      refine List.pairwise_cons.mpr ⟨?_, ih hl⟩
      intro b hb
      rcases mem_place hb with rfl | hb
      · have := Text.order_swap b.toList a.toList
        rw [h] at this
        exact this.symm
      · exact ha b hb

def insert (s : NameSet) (name : String) : NameSet :=
  { names := place name s.names, sorted := place_sorted s.sorted name }

def ofList (names : List String) : NameSet := names.foldl insert empty

def contains (s : NameSet) (name : String) : Bool := s.names.contains name

end NameSet
end DeviceScript
