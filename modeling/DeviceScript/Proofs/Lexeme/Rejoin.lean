/-
The words of a text, joined and split again.

Whether a blank separates depends on all the quotes in front of it.  Behind every word but
the last the number of quotes is even, since it is a blank that ended the word, so each word
can be split off by its own quotes alone, and a single space behind it separates as well as
the blanks that stood there.  Only the last word may leave a quotation open.
-/
import DeviceScript.Proofs.AtEach
import DeviceScript.Proofs.Pass.TokenWise

namespace DeviceScript
namespace Lexeme

/-! ## Quotations -/

/-- Whether a quotation is open behind the text, that is, the number of quotes is odd. -/
def quoteOpen (s : List Char) : Bool := s.count '"' % 2 == 1

theorem quoteOpen_concat_quote (s : List Char) : quoteOpen (s ++ ['"']) = !quoteOpen s := by
  rw [quoteOpen, quoteOpen, List.count_append, List.count_singleton_self, Bool.eq_iff_iff,
    Bool.not_eq_true', beq_iff_eq, beq_eq_false_iff_ne]
  omega

theorem quoteOpen_concat {c : Char} (hc : c ≠ '"') (s : List Char) :
    quoteOpen (s ++ [c]) = quoteOpen s := by
  have hzero : [c].count '"' = 0 := by
    rw [List.count_eq_zero, List.mem_singleton]
    exact hc.symm
  rw [quoteOpen, quoteOpen, List.count_append, hzero, Nat.add_zero]

/-- No blank of the text separates: each stands inside a quotation. -/
def Unbroken (s : List Char) : Prop :=
  AtEach (fun front c => Text.isBlank c = true → quoteOpen front = true) s

/-- The words of a text: none is empty or can be split, and only the last may leave a
quotation open. -/
inductive IsWords : List (List Char) → Prop where
  | nil : IsWords []
  | last {w : List Char} : w ≠ [] → Unbroken w → IsWords [w]
  | cons {w v : List Char} {ws : List (List Char)} :
      w ≠ [] → Unbroken w → quoteOpen w = false → IsWords (v :: ws) → IsWords (w :: v :: ws)

namespace IsWords

variable {ws : List (List Char)}

theorem tail (h : IsWords ws) : IsWords ws.tail := by
  cases h with
  | nil => exact .nil
  | last => exact .nil
  | cons _ _ _ h => exact h

theorem drop (h : IsWords ws) (k : Nat) : IsWords (ws.drop k) := by
  induction k with
  | zero => exact h
  | succ k ih =>
    rw [← List.tail_drop]
    exact ih.tail

/-- A word that a blank ends stands in front of the words behind it. -/
theorem prepend (h : IsWords ws) {word : List Char} (hu : Unbroken word)
    (hq : quoteOpen word = false) : IsWords (prepend word ws) := by
  rw [Lexeme.prepend]
  split
  · exact h
  · cases ws with
    | nil => exact .last ‹_› hu
    | cons v ws => exact .cons ‹_› hu hq h

end IsWords

/-! ## Splitting -/

/-- What is split off a text is a list of words. -/
theorem isWords_wordsFrom {word : List Char} (hu : Unbroken word) (s : List Char) :
    IsWords (wordsFrom (quoteOpen word) word s) := by
  induction s generalizing word with
  | nil =>
    rw [wordsFrom, Lexeme.prepend]
    split
    · exact .nil
    · exact .last ‹_› hu
  | cons c s ih =>
    rw [wordsFrom]
    by_cases hc : c = '"'
    · rw [if_pos hc, hc, ← quoteOpen_concat_quote]
      exact ih (atEach_concat.mpr ⟨hu, fun hblank => by cases hblank⟩)
    · rw [if_neg hc]
      by_cases hsep : (Text.isBlank c && !quoteOpen word) = true
      · -- The quotes in front of the blank are even, so the next word starts afresh.
        obtain ⟨-, hq⟩ := Bool.and_eq_true_iff.mp hsep
        rw [Bool.not_eq_true'] at hq
        rw [if_pos hsep, hq]
        exact (ih atEach_nil).prepend hu hq
      · rw [if_neg hsep, ← quoteOpen_concat hc]
        refine ih (atEach_concat.mpr ⟨hu, fun hblank => ?_⟩)
        rw [hblank, Bool.true_and, Bool.not_eq_true', Bool.not_eq_false] at hsep
        exact hsep

/-- A part that no blank breaks goes into the word whole. -/
theorem wordsFrom_append {word part : List Char} (hu : Unbroken (word ++ part)) (s : List Char) :
    wordsFrom (quoteOpen word) word (part ++ s) =
      wordsFrom (quoteOpen (word ++ part)) (word ++ part) s := by
  induction part generalizing word with
  | nil => rw [List.append_nil, List.nil_append]
  | cons c part ih =>
    rw [List.append_cons] at hu ⊢
    obtain ⟨-, hblank⟩ := atEach_concat.mp hu.of_append
    rw [List.cons_append, wordsFrom, ← ih hu]
    by_cases hc : c = '"'
    · rw [if_pos hc, hc, quoteOpen_concat_quote]
    · rw [if_neg hc, quoteOpen_concat hc, if_neg]
      intro hsep
      obtain ⟨hb, hq⟩ := Bool.and_eq_true_iff.mp hsep
      rw [hblank hb] at hq
      cases hq

theorem wordsFrom_unbroken {w : List Char} (hu : Unbroken w) (s : List Char) :
    wordsFrom false [] (w ++ s) = wordsFrom (quoteOpen w) w s :=
  @wordsFrom_append [] w hu s

/-- Words that are joined by spaces are the words of what they are joined to. -/
theorem wordsFrom_intercalate {ws : List (List Char)} (h : IsWords ws) :
    wordsFrom false [] ([' '].intercalate ws) = ws := by
  induction h with
  | nil => rfl
  | @last w hw hu =>
    have hword := wordsFrom_unbroken hu []
    rw [List.append_nil] at hword
    rw [List.intercalate_singleton, hword, wordsFrom, prepend, if_neg hw]
  | @cons w v ws hw hu hq _ ih =>
    have hspace : (Text.isBlank ' ' && !false) = true := rfl
    rw [List.intercalate_cons_cons, List.append_assoc, wordsFrom_unbroken hu, hq,
      List.singleton_append, wordsFrom, if_neg (by decide), if_pos hspace, ih, prepend, if_neg hw]

/-- Dropping words in front and joining the others makes a text of just these words. -/
theorem words_intercalate_drop (s : String) (k : Nat) :
    words (" ".intercalate ((words s).drop k)) = (words s).drop k := by
  have hwords : IsWords (wordsFrom false [] s.toList) := @isWords_wordsFrom [] atEach_nil s.toList
  have hmap : ((words s).drop k).map String.toList = (wordsFrom false [] s.toList).drop k := by
    rw [words, ← List.map_drop, List.map_map]
    simp
  rw [words, String.toList_intercalate, hmap]
  show (wordsFrom false [] ([' '].intercalate _)).map String.ofList = _
  rw [wordsFrom_intercalate (hwords.drop k), words, List.map_drop]

end Lexeme

namespace Pass

open Lexeme

/-- The words of a text from any on can be joined by spaces and split again.  So the argument
that the run-argument pass writes for a text, wherever in the line it stands, has the words of
the text behind the first. -/
theorem runArgument_words_rejoined (s : String) (k : Nat) :
    words (" ".intercalate ((words s).drop k)) = (words s).drop k ∧
    ∀ nested front back, ∃ made rest argument,
      ((runArgument words).run front).result = .ok made ∧
      ((runArgument words).run back).result = .ok rest ∧
      ((runArgument words).run
          (front ++ .text s (.property (.text .run) :: nested) :: back)).result =
        .ok (made ++ .property (.text .run) :: .text argument [] :: rest) ∧
      words argument = (words s).tail := by
  refine ⟨words_intercalate_drop s k, ?_⟩
  intro nested front back
  have hrun := (runArgument_tokenWise words).result_run
  refine ⟨_, _, " ".intercalate ((words s).drop 1), hrun front, hrun back, ?_, ?_⟩
  · rw [hrun, List.flatMap_append, List.flatMap_cons]
    rfl
  · rw [words_intercalate_drop, List.drop_one]

/-- Blanks inside a quotation stay, also where the quotation is never closed. -/
example : words (" ".intercalate ((words "run \"Base  Program\"\t x\"y  z").drop 1)) =
    ["\"Base  Program\"", "x\"y  z"] := by decide +kernel

end Pass
end DeviceScript
