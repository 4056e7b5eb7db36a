/-
The count of a loop.

A loop that stands behind a number splits its line: what is in front of the number and what is
behind the loop is passed as if it stood alone, and in between the loop gets its count.  The
count is the integer nearest to the number, of two the even one, as long as that is an integer
of thirty-two bits, and the nearest of these otherwise.
-/
import DeviceScript.Proofs.Numeral.Value
import DeviceScript.Proofs.Pass.Run

namespace DeviceScript
namespace Pass

open Numeral

theorem Binds.split_loop {front back out : List Token} {value : Single} {count : Option Int32}
    (h : Binds (front ++ .number value :: .loop count :: back) out) :
    ∃ made rest, Binds front made ∧ Binds back rest ∧
      out = made ++ .loop (some value.toInt32) :: rest := by
  generalize hl : front ++ .number value :: .loop count :: back = line at h
  induction h generalizing front with
  | nil => simp at hl
  | keep ht h ih =>
    cases front with
    | nil =>
      -- The number goes with its loop.
      obtain ⟨rfl, rfl⟩ := List.cons.inj hl
      cases h with
      | keep hloop _ => cases hloop
    | cons t front =>
      obtain ⟨rfl, htail⟩ := List.cons.inj hl
      obtain ⟨made, rest, hm, hr, rfl⟩ := ih htail
      exact ⟨t :: made, rest, .keep ht hm, hr, rfl⟩
  | bind h ih =>
    match front, hl with
    | [], hl =>
      cases hl
      exact ⟨[], _, .nil, h, rfl⟩
    | [t], hl => cases hl
    | t :: u :: front, hl =>
      obtain ⟨rfl, htail⟩ := List.cons.inj hl
      obtain ⟨rfl, hmore⟩ := List.cons.inj htail
      obtain ⟨made, rest, hm, hr, rfl⟩ := ih hmore
      exact ⟨_ :: made, rest, .bind hm, hr, rfl⟩

theorem loop_run_split {front back out : List Token} {value : Single} {count : Option Int32} :
    (loop.run (front ++ .number value :: .loop count :: back)).result = .ok out ↔
      ∃ made rest, (loop.run front).result = .ok made ∧ (loop.run back).result = .ok rest ∧
        out = made ++ .loop (some value.toInt32) :: rest := by
  simp only [loop_run_eq_ok]
  constructor
  · exact Binds.split_loop
  · intro h
    obtain ⟨made, rest, hm, hr, rfl⟩ := h
    exact hm.join (.bind hr)

/-- The number in front of a loop gives the loop its count.  Not-a-number counts as zero, what
lies outside of thirty-two bits as the bound that it passes, and everything else as its nearest
integer, a half as the even one.  A larger number never gives a smaller count. -/
theorem loop_count_nearest (v : Single) :
    (∀ front count back out,
      (loop.run (front ++ .number v :: .loop count :: back)).result = .ok out ↔
        ∃ made rest, (loop.run front).result = .ok made ∧ (loop.run back).result = .ok rest ∧
          out = made ++ .loop (some v.toInt32) :: rest) ∧
    (v = .nan → v.toInt32 = 0) ∧
    ((v = .infinite false ∨ ∃ q, v.value? = some q ∧ 2 ^ 31 ≤ q) → v.toInt32 = 2147483647) ∧
    ((v = .infinite true ∨ ∃ q, v.value? = some q ∧ q ≤ -2 ^ 31) → v.toInt32 = -2147483648) ∧
    (∀ q, v.value? = some q → -2 ^ 31 < q → q < 2 ^ 31 →
      ∀ k, IsNearest q k ↔ k = v.toInt32.toInt) ∧
    ∀ w : Single, v ≠ .nan → (v.order w).isLE = true → v.toInt32 ≤ w.toInt32 := by
  have hroomy : Format.single.Roomy := by decide
  refine ⟨fun _ _ _ _ => loop_run_split, ?_, ?_, ?_, ?_, fun w => Binary.toInt32_le_of_order hroomy⟩
  · intro h
    rw [h]
    rfl
  · intro h
    rcases h with rfl | ⟨q, hv, hq⟩
    · rfl
    · exact Binary.toInt32_of_le hroomy hv (by linarith)
  · intro h
    rcases h with rfl | ⟨q, hv, hq⟩
    · rfl
    · exact Binary.toInt32_of_ge hroomy hv (by linarith)
  · intro q hv hlow hhigh k
    have hnearest : IsNearest q v.toInt32.toInt :=
      Binary.isNearest_toInt32 hroomy (by decide) hv (by linarith) (by linarith)
    constructor
    · intro hk
      exact hk.eq hnearest
    · intro hk
      rwa [hk]

/-- Minus two and a half counts as minus two, the largest number below the bound as itself, and
an infinity as the bound. -/
theorem loop_count_nearest_halves :
    let half : Single := .ofDecimal .single true 25 (-1)
    let below : Single := .ofInt .single 2147483520
    let line : List Token := [.wait, .number half, .loop none, .send]
    (loop.run line).result = .ok [.wait, .loop (some half.toInt32), .send] ∧
      (half.value? = some (-5 / 2) ∧ IsNearest (-5 / 2) (-2) ∧ half.toInt32.toInt = -2) ∧
      (below.value? = some 2147483520 ∧ below.toInt32.toInt = 2147483520) ∧
      ((.infinite true : Single).toInt32 = -2147483648) ∧
      (half.order below).isLE = true ∧ half.toInt32 ≤ below.toInt32 := by
  intro half below line
  obtain ⟨hline, -, -, -, hhalf, hmono⟩ := loop_count_nearest half
  obtain ⟨-, -, -, -, hbelow, -⟩ := loop_count_nearest below
  obtain ⟨-, -, -, hlow, -, -⟩ := loop_count_nearest (.infinite true)
  have hvalue : half.value? = some (-5 / 2) := by decide +kernel
  have hvalue' : below.value? = some 2147483520 := by decide +kernel
  have hnearest : IsNearest (-5 / 2) (-2) := .inr ⟨by norm_num [abs_of_neg], by decide⟩
  have horder : (half.order below).isLE = true := by decide +kernel
  have hwait : (loop.run [.wait]).result = .ok [.wait] := result_run_of_not_starts (by decide)
  have hsend : (loop.run [.send]).result = .ok [.send] := result_run_of_not_starts (by decide)
  have hne : half ≠ .nan := by
    intro hnan
    rw [hnan] at hvalue
    cases hvalue
  refine ⟨(hline [.wait] none [.send] _).mpr ⟨[.wait], [.send], hwait, hsend, rfl⟩,
    ⟨hvalue, hnearest, ?_⟩, ⟨hvalue', ?_⟩, hlow (.inl rfl), horder, hmono below hne horder⟩
  · exact ((hhalf _ hvalue (by norm_num) (by norm_num) _).mp hnearest).symm
  · exact ((hbelow _ hvalue' (by norm_num) (by norm_num) _).mp
      (by exact_mod_cast IsNearest.intCast 2147483520)).symm

end Pass
end DeviceScript
