/-
  RegexText/Text/Sorted.lean
  ==========================
  **Sets of texts as sorted lists.**

  Texts are ordered character by character, by code point.  `sortDistinct` lists
  the members of a list in that order, each once, so that the outcome depends on
  the set of members only.
-/

namespace RegexText.Text

/-- Put a text into its place in a sorted list, unless it is there already. -/
def insertDistinct (a : String) : List String → List String
  | [] => [a]
  | b :: bs =>
    if a < b then a :: b :: bs
    else if a = b then b :: bs
    else b :: insertDistinct a bs

/-- The members of a list in ascending order, each once. -/
def sortDistinct (texts : List String) : List String :=
  texts.foldr insertDistinct []

theorem mem_insertDistinct {a x : String} {bs : List String} :
    x ∈ insertDistinct a bs ↔ x = a ∨ x ∈ bs := by
  induction bs with
  | nil => simp [insertDistinct]
  | cons b bs ih =>
    unfold insertDistinct
    split
    · simp
    · split
      · rename_i heq
        subst heq
        simp
      · simp only [List.mem_cons, ih]
        constructor
        · rintro (h | h | h) <;> simp [h]
        · rintro (h | h | h) <;> simp [h]

/-- Sorting keeps exactly the members. -/
theorem mem_sortDistinct {x : String} {texts : List String} :
    x ∈ sortDistinct texts ↔ x ∈ texts := by
  induction texts with
  | nil => simp [sortDistinct]
  | cons a texts ih =>
    have hstep : sortDistinct (a :: texts) = insertDistinct a (sortDistinct texts) := rfl
    rw [hstep, mem_insertDistinct, ih, List.mem_cons]

end RegexText.Text
