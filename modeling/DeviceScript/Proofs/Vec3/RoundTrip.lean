/-
Vectors read back from their text.

Each component reads back from its own text, and that text holds no blank and no colon.  So the
fields of the text of a vector are the texts of its components, trimming leaves them as they
are, and none of them is the tag of a waypoint, which is no number.
-/
import DeviceScript.Primitive.Operator
import DeviceScript.Proofs.Numeral.ReadBack
import DeviceScript.Proofs.Vec3.Coordinates

namespace DeviceScript
namespace Vec3

open Text

theorem Spells.trim_ne_tag {s : List Char} {a : Double} (h : Spells s a) :
    trim s ≠ ['G', 'P', 'S'] := by
  intro htag
  have hnone : Numeral.Binary.read? .double ['G', 'P', 'S'] = none := by decide
  rw [Spells, htag, hnone] at h
  cases h

theorem colon_not_mem_chars (a : Double) : ':' ∉ a.chars :=
  fun h => (Numeral.Binary.isBlank_of_mem_chars h).2 rfl

theorem trim_chars (a : Double) : trim a.chars = a.chars :=
  trim_eq_self (fun _ hc => (Numeral.Binary.isBlank_of_mem_chars (List.mem_of_head? hc)).1)
    fun _ hc => (Numeral.Binary.isBlank_of_mem_chars (List.mem_of_getLast? hc)).1

theorem spells_chars (a : Double) : Spells a.chars a := by
  rw [Spells, trim_chars]
  exact Numeral.Binary.read?_chars Numeral.Format.double_spacious a

theorem coordinates_chars (v : Vec3) : Coordinates v.chars v.x.chars v.y.chars v.z.chars := by
  have h := Coordinates.plain (colon_not_mem_chars v.x) (colon_not_mem_chars v.y)
    (colon_not_mem_chars v.z) (nofun : IsTail []) (spells_chars v.x).trim_ne_tag
  rwa [List.append_nil] at h

theorem read?_chars (v : Vec3) : read? v.chars = some v :=
  (coordinates_chars v).read?_eq_some_iff.mpr
    ⟨spells_chars v.x, spells_chars v.y, spells_chars v.z⟩

end Vec3

namespace Primitive

theorem toVector_toText (v : Vec3) : (text (vector v).toText).toVector = .ok v := by
  show (text v.text).toVector = _
  rw [toVector, Vec3.text, String.toList_ofList, Vec3.read?_chars]

/-- Every vector is read back from its text, whatever its components are, so its text can stand
for it as an operand of a sum or a difference. -/
theorem read?_text_vector (v : Vec3) :
    Vec3.read? v.text.toList = some v ∧
    (text (vector v).toText).toVector = .ok v ∧
    ∀ w : Vec3, (vector w).plus (text (vector v).toText) = (vector w).plus (vector v) ∧
      (vector w).minus (text (vector v).toText) = (vector w).minus (vector v) := by
  have htext := toVector_toText v
  refine ⟨?_, htext, fun w => ?_⟩
  · rw [Vec3.text, String.toList_ofList, Vec3.read?_chars]
  · rw [plus, plus, minus, minus, htext]
    exact ⟨rfl, rfl⟩

end Primitive
end DeviceScript
