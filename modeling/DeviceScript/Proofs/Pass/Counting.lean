/-
Counting the loops of a line.

The loop pass takes back the number right behind its cursor when it comes to a loop, so
what it looks back at is no longer the line it was given.  What it makes can still be told
from that line alone: each token is looked at between its two neighbours there, a number in
front of a loop goes, and a loop behind a number gets its count.  A number is used once,
because the loop that took it is the nearest token behind the cursor from then on.
-/
import DeviceScript.Proofs.AtEach
import DeviceScript.Proofs.Pass.Run

namespace DeviceScript
namespace Pass

/-! ## The line as it was given -/

/-- What a token becomes that stands between the two others. -/
def becomes? (before : Option Token) (t : Token) (after : Option Token) : Option Token :=
  match t with
  | .number value => if after.any startsLoop then none else some (.number value)
  | .loop count =>
    match before with
    | some (.number value) => some (.loop (some value.toInt32))
    | _ => some (.loop count)
  | t => some t

/-- What the tokens of a line become when `before` stands in front of the line. -/
def countedBehind (before : Option Token) : List Token → List Token
  | [] => []
  | t :: after => (becomes? before t after.head?).toList ++ countedBehind (some t) after

/-- The line without the numbers in front of loops, and with the counts in the loops. -/
def counted (line : List Token) : List Token := countedBehind none line

def EndsInNumber (front : List Token) : Prop := ∃ value, front.getLast? = some (.number value)

/-- Each loop of the line stands right behind a number. -/
def LoopsNumbered (line : List Token) : Prop :=
  AtEach (fun front t => startsLoop t = true → EndsInNumber front) line

theorem startsLoop_iff {t : Token} : startsLoop t = true ↔ ∃ count, t = .loop count := by
  cases t <;> simp [startsLoop]

/-- Only a loop changes what becomes of the token in front of it. -/
theorem becomes?_of_not_startsLoop {t : Token} (ht : startsLoop t = false) (before : Option Token)
    (u : Token) : becomes? before u (some t) = becomes? before u none := by
  cases u with
  | number value =>
    simp only [becomes?, Option.any_some, Option.any_none, ht]
  | _ => rfl

theorem countedBehind_append {t : Token} (ht : startsLoop t = false) (before : Option Token)
    (front back : List Token) :
    countedBehind before (front ++ t :: back) =
      countedBehind before front ++ countedBehind (front.getLast?.or before) (t :: back) := by
  induction front generalizing before with
  | nil => rfl
  | cons u front ih =>
    -- Where `front` ends, `t` is a new neighbour, but a loop only would change anything.
    have hhead : becomes? before u (front ++ t :: back).head? = becomes? before u front.head? := by
      cases front with
      | nil => exact becomes?_of_not_startsLoop ht before u
      | cons v front => rfl
    have hlast : (u :: front).getLast?.or before = front.getLast?.or (some u) := by
      rw [List.getLast?_cons]
      cases front.getLast? <;> rfl
    rw [List.cons_append, countedBehind, hhead, ih, hlast, countedBehind.eq_2 before u front,
      List.append_assoc]

theorem counted_concat {t : Token} (ht : startsLoop t = false) (front : List Token) :
    counted (front ++ [t]) = counted front ++ [t] := by
  have hlast : becomes? (front.getLast?.or none) t none = some t := by
    cases t with
    | loop => cases ht
    | _ => rfl
  rw [counted, countedBehind_append ht, countedBehind, List.head?_nil, hlast]
  rfl

theorem counted_concat_loop (front : List Token) (value : Single) (count : Option Int32) :
    counted (front ++ [.number value, .loop count]) =
      counted front ++ [.loop (some value.toInt32)] := by
  rw [counted, countedBehind_append rfl]
  rfl

/-! ## What the pass has put out -/

/-- The pass has read `front`, and `behind` is what it has put out for it, nearest first. -/
structure Counts (front behind : List Token) : Prop where
  numbered : LoopsNumbered front
  made : behind.reverse = counted front
  length : behind.length + front.countP startsLoop = front.length
  number : ∀ value, behind.head? = some (.number value) ↔ front.getLast? = some (.number value)
  name : nameBehind behind = front.getLast?.elim "nothing" Token.name

namespace Counts

variable {front behind : List Token}

theorem start : Counts [] [] :=
  ⟨atEach_nil, rfl, rfl, fun _ => Iff.rfl, rfl⟩

theorem keep (h : Counts front behind) {t : Token} (ht : startsLoop t = false) :
    Counts (front ++ [t]) (t :: behind) := by
  refine ⟨atEach_concat.mpr ⟨h.numbered, ?_⟩, ?_, ?_, ?_, ?_⟩
  · intro hloop
    rw [ht] at hloop
    cases hloop
  · rw [List.reverse_cons, h.made, counted_concat ht]
  · have hlen := h.length
    rw [List.countP_append, List.countP_singleton, if_neg (Bool.eq_false_iff.mp ht),
      List.length_append, List.length_cons, List.length_singleton]
    omega
  · intro value
    rw [List.head?_cons, List.getLast?_concat]
  · rw [List.getLast?_concat]
    rfl

/-- The number goes and the loop stands in its place, so the length stays as it was. -/
theorem bind {value : Single} (h : Counts front (.number value :: behind)) (count : Option Int32) :
    Counts (front ++ [.loop count]) (.loop (some value.toInt32) :: behind) := by
  -- A number behind the cursor is no count that was put in, so the line ends in it as well.
  have hlast : front.getLast? = some (.number value) := (h.number value).mp rfl
  obtain ⟨start, rfl⟩ := List.getLast?_eq_some_iff.mp hlast
  refine ⟨atEach_concat.mpr ⟨h.numbered, fun _ => ⟨value, hlast⟩⟩, ?_, ?_, ?_, ?_⟩
  · have hmade := h.made
    rw [List.reverse_cons, counted_concat rfl] at hmade
    rw [List.reverse_cons, (List.append_inj' hmade rfl).1, List.append_assoc, List.singleton_append,
      counted_concat_loop]
  · have hlen := h.length
    rw [List.length_cons] at hlen ⊢
    rw [List.countP_append, List.countP_singleton,
      if_pos (show startsLoop (.loop count) = true from rfl), List.length_append, ← hlen,
      List.length_singleton]
    omega
  · intro other
    rw [List.head?_cons, List.getLast?_concat]
    constructor <;> intro he <;> cases he
  · rw [List.getLast?_concat]
    rfl

end Counts

/-- Wherever the loop pass stands, what is ahead is the rest of the line as it was given. -/
theorem counts_of_reaches {line behind after : List Token}
    (h : loop.Reaches [] line behind after) :
    ∃ front, line = front ++ after ∧ Counts front behind := by
  refine h.exists_front Counts .start (fun hc ht => hc.keep ht) ?_
  intro front behind t after s hc ht hs
  obtain ⟨value, rest, rfl, rfl⟩ := loop_step_eq_ok.mp hs
  obtain ⟨count, rfl⟩ := startsLoop_iff.mp ht
  exact ⟨rfl, hc.bind count⟩

theorem counts_of_run {line out : List Token} (h : (loop.run line).result = .ok out) :
    Counts line out.reverse := by
  obtain ⟨front, hline, hc⟩ := counts_of_reaches (Reaches.start.of_eq_ok h)
  rw [List.append_nil] at hline
  rwa [hline]

/-- The pass fails at a loop that has no number in front of it, and at the first such. -/
theorem loop_run_eq_error {line : List Token} {e : CompileError}
    (h : (loop.run line).result = .error e) :
    ∃ front count back position, line = front ++ .loop count :: back ∧ ¬ EndsInNumber front ∧
      LoopsNumbered front ∧ position + front.countP startsLoop = front.length ∧
      e = .loopWithoutNumber position (front.getLast?.elim "nothing" Token.name) := by
  obtain ⟨behind, t, back, hr, ht, hs⟩ := Reaches.start.exists_of_eq_error h
  obtain ⟨front, rfl, hc⟩ := counts_of_reaches hr
  obtain ⟨count, rfl⟩ := startsLoop_iff.mp ht
  refine ⟨front, count, back, behind.length, rfl, ?_, hc.numbered, hc.length, ?_⟩
  · intro hnumber
    obtain ⟨value, hvalue⟩ := hnumber
    obtain ⟨rest, rfl⟩ := List.head?_eq_some_iff.mp ((hc.number value).mpr hvalue)
    rw [loop_step_eq_ok.mpr ⟨value, rest, rfl, rfl⟩] at hs
    cases hs
  · rw [loop_step_eq_error hs, hc.name]

/-- The loop pass succeeds on a line exactly if each loop there stands right behind a number,
and then makes the line with its loops counted.  Else it fails at the first loop that does
not, at the position that is left of its index when each loop in front has taken one number
away, and names what stands in front of it. -/
theorem loop_run_counted (line : List Token) :
    ((∃ out, (loop.run line).result = .ok out) ↔ LoopsNumbered line) ∧
    (∀ out, (loop.run line).result = .ok out → out = counted line) ∧
    ∀ front count back, line = front ++ .loop count :: back → ¬ EndsInNumber front →
      LoopsNumbered front →
      ∃ position, position + front.countP startsLoop = front.length ∧
        (loop.run line).result =
          .error (.loopWithoutNumber position (front.getLast?.elim "nothing" Token.name)) := by
  refine ⟨⟨?_, ?_⟩, ?_, ?_⟩
  · intro h
    obtain ⟨out, h⟩ := h
    exact (counts_of_run h).numbered
  · intro hn
    cases hr : (loop.run line).result with
    | ok out => exact ⟨out, rfl⟩
    | error e =>
      obtain ⟨front, count, back, -, hline, hnot, -⟩ := loop_run_eq_error hr
      exact absurd (hn front (.loop count) back hline rfl) hnot
  · intro out h
    have hmade := (counts_of_run h).made
    rwa [List.reverse_reverse] at hmade
  · intro front count back hline hnot hfront
    cases hr : (loop.run line).result with
    | ok out => exact absurd ((counts_of_run hr).numbered front (.loop count) back hline rfl) hnot
    | error e =>
      -- The loop at which the pass fails and the given one are both the first.
      obtain ⟨front', count', back', position, hline', hnot', hfront', hpos, rfl⟩ :=
        loop_run_eq_error hr
      obtain rfl : front' = front :=
        hfront'.front_eq hfront (hline'.symm.trans hline) (fun h => hnot' (h rfl))
          fun h => hnot (h rfl)
      exact ⟨position, hpos, rfl⟩

/-- A count that is there already is replaced, and the second of two loops in a row has no
number: the first has taken it. -/
theorem loop_run_counted_twice :
    let two : Single := .ofInt .single 2
    let line : List Token := [.number two, .loop none, .number .nan, .number two, .loop (some 7)]
    let out : List Token := [.loop (some 2), .number .nan, .loop (some 2)]
    let front : List Token := [.wait, .number two, .loop none, .number two, .loop none]
    let failing : List Token := front ++ [.loop none, .number two]
    ((loop.run line).result = .ok out ∧ LoopsNumbered line ∧ out = counted line) ∧
    ¬ EndsInNumber front ∧ LoopsNumbered front ∧
      (loop.run failing).result = .error (.loopWithoutNumber 3 "Iteration") := by
  intro two line out front failing
  have hline : (loop.run line).result = .ok out := by
    have htwo : two.toInt32 = 2 := by decide +kernel
    show (loop.run [.number two, .loop none, .number .nan, .number two, .loop (some 7)]).result =
      .ok [.loop (some 2), .number .nan, .loop (some 2)]
    rw [← htwo]
    generalize two = value
    with_unfolding_all rfl
  have hread : ∃ made, (loop.run front).result = .ok made := by
    show ∃ made, (loop.run [.wait, .number two, .loop none, .number two, .loop none]).result = _
    generalize two = value
    refine ⟨[.wait, .loop (some value.toInt32), .loop (some value.toInt32)], ?_⟩
    with_unfolding_all rfl
  have hfront : LoopsNumbered front := (loop_run_counted front).1.mp hread
  have hlast : ¬ EndsInNumber front := by
    intro h
    obtain ⟨value, h⟩ := h
    cases h
  obtain ⟨position, hpos, hfailing⟩ :=
    (loop_run_counted failing).2.2 front none [.number two] rfl hlast hfront
  obtain rfl : position = 3 := by
    have hcount : front.countP startsLoop = 2 := rfl
    have hlength : front.length = 5 := rfl
    omega
  exact ⟨⟨hline, (loop_run_counted line).1.mp ⟨out, hline⟩, (loop_run_counted line).2.1 out hline⟩,
    hlast, hfront, hfailing⟩

end Pass
end DeviceScript
