/-
Where a text is cut into words.

A blank separates if the number of quotes in front of it, counted from the start of the text,
is even.  Cutting the text at the separators and leaving out the empty pieces gives its words.
The splitter counts no quotes, it only keeps whether a quotation is open, so the proof carries
along the text that has been read.
-/
import DeviceScript.Proofs.Lexeme.Rejoin
import Mathlib.Algebra.Group.Nat.Even

namespace DeviceScript
namespace Lexeme

/-- Whether a character behind the text `front` separates words: it is a blank, and the
number of quotes in front of it is even. -/
def separates (front : List Char) (c : Char) : Bool :=
  Text.isBlank c && decide (Even (front.count '"'))

/-- The characters of a text that stands behind `front`, each with whether it separates. -/
def marked (front s : List Char) : List (Char × Bool) :=
  s.mapIdx fun i c => (c, separates (front ++ s.take i) c)

/-- The pieces of a text that stands behind `front`, cut at the separators, which are
dropped. -/
def pieces (front s : List Char) : List (List Char) :=
  ((marked front s).splitOnP Prod.snd).map (List.map Prod.fst)

theorem separates_eq (front : List Char) (c : Char) :
    separates front c = (Text.isBlank c && !quoteOpen front) := by
  have heven : decide (Even (front.count '"')) = !quoteOpen front := by
    rw [quoteOpen, Bool.eq_iff_iff, decide_eq_true_iff, Bool.not_eq_true', beq_eq_false_iff_ne,
      Nat.even_iff]
    omega
  rw [separates, heven]

/-! ## The pieces, from left to right -/

theorem marked_cons (front : List Char) (c : Char) (s : List Char) :
    marked front (c :: s) = (c, separates front c) :: marked (front ++ [c]) s := by
  rw [marked, marked, List.mapIdx_cons]
  simp only [List.take_zero, List.append_nil, List.take_succ_cons, List.append_assoc,
    List.singleton_append]

theorem pieces_nil (front : List Char) : pieces front [] = [[]] := rfl

theorem pieces_cons_separator {front : List Char} {c : Char} (h : separates front c = true)
    (s : List Char) : pieces front (c :: s) = [] :: pieces (front ++ [c]) s := by
  rw [pieces, marked_cons, List.splitOnP_cons_eq_if_modifyHead, if_pos h]
  rfl

theorem pieces_cons {front : List Char} {c : Char} (h : ¬ separates front c = true)
    (s : List Char) :
    pieces front (c :: s) = (pieces (front ++ [c]) s).modifyHead (c :: ·) := by
  rw [pieces, marked_cons, List.splitOnP_cons_eq_if_modifyHead, if_neg h, pieces]
  cases (marked (front ++ [c]) s).splitOnP Prod.snd with
  | nil => rfl
  | cons piece more => rfl

/-! ## The words -/

theorem filter_cons_eq_prepend (piece : List Char) (more : List (List Char)) :
    (piece :: more).filter (· ≠ []) = prepend piece (more.filter (· ≠ [])) := by
  by_cases h : piece = []
  · rw [prepend, if_pos h, List.filter_cons_of_neg (by simpa using h)]
  · rw [prepend, if_neg h, List.filter_cons_of_pos (by simpa using h)]

theorem modifyHead_nil_append (more : List (List Char)) : more.modifyHead ([] ++ ·) = more :=
  congrFun List.modifyHead_id more

/-- What is split off behind the text `front`, with `word` the part of it that belongs to the
next word. -/
theorem wordsFrom_eq_pieces (front word s : List Char) :
    wordsFrom (quoteOpen front) word s =
      ((pieces front s).modifyHead (word ++ ·)).filter (· ≠ []) := by
  induction s generalizing front word with
  | nil =>
    rw [wordsFrom, pieces_nil, List.modifyHead_cons, List.append_nil, filter_cons_eq_prepend]
    rfl
  | cons c s ih =>
    -- A character that does not separate goes to the end of the word.
    have hkeep : ¬ separates front c = true →
        wordsFrom (quoteOpen (front ++ [c])) (word ++ [c]) s =
          ((pieces front (c :: s)).modifyHead (word ++ ·)).filter (· ≠ []) := by
      intro h
      rw [ih, pieces_cons h, List.modifyHead_modifyHead]
      simp only [Function.comp_def, List.append_assoc, List.singleton_append]
    rw [wordsFrom, ← separates_eq]
    by_cases hc : c = '"'
    · have hsep : ¬ separates front c = true := by
        rw [separates_eq, hc, show Text.isBlank '"' = false from rfl, Bool.false_and]
        exact Bool.false_ne_true
      rw [if_pos hc, ← hkeep hsep, hc, quoteOpen_concat_quote]
    · rw [if_neg hc]
      by_cases hsep : separates front c = true
      · have hnext := ih (front ++ [c]) []
        rw [quoteOpen_concat hc, modifyHead_nil_append] at hnext
        rw [if_pos hsep, hnext, pieces_cons_separator hsep, List.modifyHead_cons,
          List.append_nil, filter_cons_eq_prepend]
      · rw [if_neg hsep, ← hkeep hsep, quoteOpen_concat hc]

/-- The words of a text are its pieces between separators, without the empty ones. -/
theorem words_eq_pieces (s : String) :
    words s = ((pieces [] s.toList).filter (· ≠ [])).map String.ofList := by
  have h := wordsFrom_eq_pieces [] [] s.toList
  rw [modifyHead_nil_append] at h
  rw [words, ← h]
  rfl

/-- A word ends with its own quotes, two blanks leave an empty piece between them, and the
quotation that is open at the end of the text keeps its blank. -/
example : pieces [] ['a', '"', ' ', '"', ' ', ' ', '"', 'b', ' '] =
    [['a', '"', ' ', '"'], [], ['"', 'b', ' ']] := by decide

end Lexeme
end DeviceScript
