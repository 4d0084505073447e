/-
  RegexText/Proofs/CommandLine/Lines.lean
  =======================================
  **The lines of a text, and the words that an input lists.**

  A text is cut at its newlines, and carriage returns at the end of a line do not
  belong to it.  `Lists` says which words a text lists, one on a line, without a
  word about how it is cut: blank lines may stand anywhere, and the last line need
  not be ended.  `inputWords_eq_ok_iff` says that a run reads these words, and
  that there is no text that lists none.
-/
import Mathlib.Data.List.Induction
import RegexText.CommandLine.Program
import RegexText.Proofs.Text.Utf8

namespace RegexText.CommandLine

open Text

/-! ### Cutting at a character -/

section Cut

variable {separator : Char} {line rest : List Char}

theorem splitAt_of_not_mem (h : separator ∉ line) : splitAt separator line = [line] := by
  induction line with
  | nil => rfl
  | cons c line ih =>
    simp only [List.mem_cons, not_or] at h
    rw [splitAt, if_neg (Ne.symm h.1), ih h.2]

/-- The first part reaches to the first occurrence. -/
theorem splitAt_append (h : separator ∉ line) (rest : List Char) :
    splitAt separator (line ++ separator :: rest) = line :: splitAt separator rest := by
  induction line with
  | nil => rw [List.nil_append, splitAt, if_pos rfl]
  | cons c line ih =>
    simp only [List.mem_cons, not_or] at h
    rw [List.cons_append, splitAt, if_neg (Ne.symm h.1), ih h.2]

/-- A text has no newline, or a first one. -/
theorem exists_first_line (cs : List Char) :
    '\n' ∉ cs ∨ ∃ line rest, '\n' ∉ line ∧ cs = line ++ '\n' :: rest := by
  induction cs with
  | nil => exact .inl List.not_mem_nil
  | cons c cs ih =>
    by_cases hc : c = '\n'
    · exact .inr ⟨[], cs, List.not_mem_nil, by rw [hc]; rfl⟩
    · rcases ih with hnone | ⟨line, rest, hline, rfl⟩
      · left
        simp [hnone, Ne.symm hc]
      · right
        exact ⟨c :: line, rest, by simp [hline, Ne.symm hc], rfl⟩

end Cut

/-! ### Single lines -/

/-- Can a word stand on a line? -/
structure IsLineWord (word : String) : Prop where
  ne_empty : word ≠ ""
  no_newline : '\n' ∉ word.toList
  no_return : word.toList.getLast? ≠ some '\r'

/-- A line without its newline: it is blank, or it holds a word.  Any number of carriage returns
    may end it. -/
inductive IsLine : List String → List Char → Prop where
  | blank (returns : Nat) : IsLine [] (List.replicate returns '\r')
  | word {word : String} (h : IsLineWord word) (returns : Nat) :
      IsLine [word] (word.toList ++ List.replicate returns '\r')

theorem withoutReturns_append {cs : List Char} (h : cs.getLast? ≠ some '\r') (returns : Nat) :
    withoutReturns (cs ++ List.replicate returns '\r') = cs := by
  have hhead : cs.reverse.dropWhile (· == '\r') = cs.reverse := by
    rcases List.eq_nil_or_concat cs with rfl | ⟨front, c, rfl⟩
    · rfl
    · have hc : c ≠ '\r' := by simpa using h
      rw [List.concat_eq_append, List.reverse_append]
      exact List.dropWhile_cons_of_neg (by simpa using hc)
  rw [withoutReturns, List.reverse_append, List.reverse_replicate, List.dropWhile_append_of_pos,
    hhead, List.reverse_reverse]
  intro c hc
  rw [List.eq_of_mem_replicate hc]
  rfl

/-- What stands before the carriage returns at the end does not end in one. -/
theorem exists_returns (cs : List Char) :
    ∃ front returns, front.getLast? ≠ some '\r' ∧ cs = front ++ List.replicate returns '\r' := by
  induction cs using List.reverseRecOn with
  | nil => exact ⟨[], 0, by simp, rfl⟩
  | append_singleton cs c ih =>
    by_cases hc : c = '\r'
    · rcases ih with ⟨front, returns, hfront, heq⟩
      refine ⟨front, returns + 1, hfront, ?_⟩
      rw [heq, hc, List.append_assoc, List.replicate_succ']
    · exact ⟨cs ++ [c], 0, by simpa using hc, by simp⟩

/-- The words on some lines, of which each holds one or none. -/
def wordsOf (lines : List (List Char)) : List String :=
  ((lines.map withoutReturns).filter (!·.isEmpty)).map String.ofList

theorem wordsOf_cons (line : List Char) (lines : List (List Char)) :
    wordsOf (line :: lines) = wordsOf [line] ++ wordsOf lines := by
  rw [← List.singleton_append]
  simp only [wordsOf, List.map_append, List.filter_append]

theorem wordsOf_of_isLine {words : List String} {line : List Char} (h : IsLine words line) :
    wordsOf [line] = words := by
  cases h with
  | blank returns =>
    have hnil : ([] : List Char).getLast? ≠ some '\r' := nofun
    have hblank := withoutReturns_append hnil returns
    rw [List.nil_append] at hblank
    rw [wordsOf, List.map_singleton, hblank]
    rfl
  | @word word h returns =>
    rw [wordsOf, List.map_singleton, withoutReturns_append h.no_return,
      List.filter_cons_of_pos (by simpa using h.ne_empty)]
    simp

/-- A text without newlines is a line. -/
theorem exists_isLine {cs : List Char} (h : '\n' ∉ cs) : ∃ words, IsLine words cs := by
  rcases exists_returns cs with ⟨front, returns, hfront, rfl⟩
  by_cases hempty : front = []
  · exact ⟨[], hempty ▸ .blank returns⟩
  · refine ⟨[String.ofList front], ?_⟩
    have hword : IsLineWord (String.ofList front) := by
      refine ⟨by simpa using hempty, ?_, by simpa using hfront⟩
      intro hmem
      exact h (List.mem_append_left _ (by simpa using hmem))
    have hline := IsLine.word hword returns
    rwa [String.toList_ofList] at hline

theorem not_newline_mem_of_isLine {words : List String} {line : List Char}
    (h : IsLine words line) : '\n' ∉ line := by
  have hreturns : ∀ returns, '\n' ∉ List.replicate returns '\r' := by
    intro returns hmem
    exact absurd (List.eq_of_mem_replicate hmem) (by decide)
  cases h with
  | blank returns => exact hreturns returns
  | word h returns =>
    rw [List.mem_append, not_or]
    exact ⟨h.no_newline, hreturns returns⟩

/-! ### Listings -/

/-- A text lists some words, one on a line.  The last line may be empty, which is to say that the
    one before it is ended. -/
inductive Lists : List String → List Char → Prop where
  | last {words : List String} {line : List Char} (h : IsLine words line) : Lists words line
  | line {words later : List String} {line rest : List Char} (h : IsLine words line)
      (hrest : Lists later rest) : Lists (words ++ later) (line ++ '\n' :: rest)

theorem wordsOf_of_lists {words : List String} {cs : List Char} (h : Lists words cs) :
    wordsOf (splitAt '\n' cs) = words := by
  induction h with
  | last h => rw [splitAt_of_not_mem (not_newline_mem_of_isLine h), wordsOf_of_isLine h]
  | line h _ ih =>
    rw [splitAt_append (not_newline_mem_of_isLine h), wordsOf_cons, wordsOf_of_isLine h, ih]

/-- Every text lists some words. -/
theorem exists_lists (cs : List Char) : ∃ words, Lists words cs := by
  induction hlength : cs.length using Nat.strongRecOn generalizing cs with
  | ind n ih =>
    rcases exists_first_line cs with hnone | ⟨line, rest, hline, rfl⟩
    · rcases exists_isLine hnone with ⟨words, h⟩
      exact ⟨words, .last h⟩
    · have hshorter : rest.length < n := by
        rw [← hlength, List.length_append, List.length_cons]
        omega
      rcases exists_isLine hline with ⟨words, h⟩
      rcases ih rest.length hshorter rest rfl with ⟨later, hrest⟩
      exact ⟨words ++ later, .line h hrest⟩

/-- **The words of an input are those that it lists.** -/
theorem inputWords_eq_ok_iff {text : String} {words : List String} :
    inputWords (encoded text) = .ok words ↔ Lists words text.toList := by
  have hread : inputWords (encoded text) = .ok (wordsOf (splitAt '\n' text.toList)) := by
    rw [inputWords, encoded, decodeUtf8_toUTF8]
    rfl
  rw [hread, Except.ok.injEq]
  constructor
  · rintro rfl
    rcases exists_lists text.toList with ⟨words, h⟩
    rwa [wordsOf_of_lists h]
  · exact wordsOf_of_lists

end RegexText.CommandLine
