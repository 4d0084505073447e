/-
  RegexText/Proofs/Pattern/Slashes.lean
  =====================================
  **Protecting a text against its delimiters.**

  `protect` reads a text as pairs.  A writer that goes through the text character
  by character counts backslashes instead, and protects a character if it stands
  behind an even number of them.  Both are the same, since a text can be read as
  pairs to its end exactly if the backslashes at its end are even in number.

  The writer counts in the text that is read, not in the one that is written.  What
  is added makes the number odd there, so that a second writer adds nothing.
-/
import Mathlib.Algebra.Ring.Parity
import Mathlib.Data.List.Induction
import RegexText.Proofs.Pattern

namespace RegexText

namespace Text

/-! ### Backslashes at the end of a text -/

/-- How many backslashes stand at the end of a text. -/
def backslashRun (cs : List Char) : Nat := (cs.reverse.takeWhile (· = '\\')).length

@[simp] theorem backslashRun_concat_backslash (cs : List Char) :
    backslashRun (cs ++ ['\\']) = backslashRun cs + 1 := by
  simp [backslashRun]

theorem backslashRun_concat {c : Char} (hc : c ≠ '\\') (cs : List Char) :
    backslashRun (cs ++ [c]) = 0 := by
  simp [backslashRun, hc]

/-- What cannot be read as pairs to its end is left with a lone backslash. -/
theorem exists_complete_of_not_complete {cs : List Char} (h : ¬ Complete cs) :
    ∃ front, Complete front ∧ cs = front ++ ['\\'] := by
  induction cs using List.reverseRecOn with
  | nil => exact absurd .nil h
  | append_singleton cs c ih =>
    by_cases hcs : Complete cs
    · by_cases hc : c = '\\'
      · exact ⟨cs, hcs, by rw [hc]⟩
      · exact absurd (hcs.append (.single hc id .nil)) h
    · obtain ⟨front, hfront, rfl⟩ := ih hcs
      rw [List.append_assoc] at h
      exact absurd (hfront.append (.pair c .nil)) h

theorem not_complete_lone : ¬ Complete ['\\'] := by
  rintro (_ | _ | ⟨hc, _, _⟩)
  exact hc rfl

theorem complete_concat_backslash_iff {cs : List Char} :
    Complete (cs ++ ['\\']) ↔ ¬ Complete cs := by
  constructor
  · intro h hcs
    exact not_complete_lone (FreeOf.of_append hcs h).2
  · intro h
    obtain ⟨front, hfront, rfl⟩ := exists_complete_of_not_complete h
    rw [List.append_assoc]
    exact hfront.append (.pair '\\' .nil)

theorem complete_concat {c : Char} (hc : c ≠ '\\') (cs : List Char) : Complete (cs ++ [c]) := by
  by_cases h : Complete cs
  · exact h.append (.single hc id .nil)
  · obtain ⟨front, hfront, rfl⟩ := exists_complete_of_not_complete h
    rw [List.append_assoc]
    exact hfront.append (.pair c .nil)

/-- **Pairs and parity agree.**  A text can be read as pairs to its end exactly if the backslashes
    at its end are even in number. -/
theorem complete_iff_even_backslashRun {cs : List Char} : Complete cs ↔ Even (backslashRun cs) := by
  induction cs using List.reverseRecOn with
  | nil => exact iff_of_true .nil ⟨0, rfl⟩
  | append_singleton cs c ih =>
    by_cases hc : c = '\\'
    · rw [hc, complete_concat_backslash_iff, backslashRun_concat_backslash, Nat.even_add_one, ih]
    · exact iff_of_true (complete_concat hc cs) (by rw [backslashRun_concat hc]; exact ⟨0, rfl⟩)

/-! ### Protecting character by character -/

/-- What is added in front of `c` where it stands behind `before`. -/
def guarding (target : Char) (before : List Char) (c : Char) : List Char :=
  if c = target ∧ Even (backslashRun before) then ['\\'] else []

variable {target : Char}

/-- **One step of protection.**  The next character is written behind what has been written, and
    whether something is added in front of it is told by what has been read. -/
theorem protect_concat (htarget : target ≠ '\\') (cs : List Char) (c : Char) :
    protect target (cs ++ [c]) = protect target cs ++ (guarding target cs c ++ [c]) := by
  by_cases h : Complete cs
  · have hrun := complete_iff_even_backslashRun.1 h
    rw [protect_append h]
    by_cases hc : c = '\\'
    · rw [guarding, hc, if_neg fun heq => htarget heq.1.symm]
      rfl
    · rw [protect_single hc]
      by_cases heq : c = target <;> simp [guarding, heq, hrun, protect]
  · have hrun := mt complete_iff_even_backslashRun.2 h
    obtain ⟨front, hfront, rfl⟩ := exists_complete_of_not_complete h
    rw [guarding, if_neg fun hboth => hrun hboth.2, List.append_assoc, protect_append hfront,
      protect_append hfront, List.append_assoc]
    rfl

/-- **Protection only adds.**  A protected text is the text itself with something in front of each
    of its characters: a backslash where the text has the character behind an even number of
    backslashes, and nothing elsewhere. -/
theorem exists_guarded (htarget : target ≠ '\\') (cs : List Char) :
    ∃ guarded : List (List Char × Char), guarded.map Prod.snd = cs ∧
      guarded.flatMap (fun (added, c) => added ++ [c]) = protect target cs ∧
      ∀ front added c later, guarded = front ++ (added, c) :: later →
        added = guarding target (front.map Prod.snd) c := by
  induction cs using List.reverseRecOn with
  | nil => exact ⟨[], rfl, rfl, by simp⟩
  | append_singleton cs c ih =>
    obtain ⟨guarded, rfl, hprotect, hguarded⟩ := ih
    refine ⟨guarded ++ [(guarding target (guarded.map Prod.snd) c, c)], by simp, ?_, ?_⟩
    · rw [protect_concat htarget, List.flatMap_append, hprotect, List.flatMap_singleton]
    · intro front added d later heq
      cases later using List.reverseRecOn with
      | nil =>
        obtain ⟨rfl, hlast⟩ := List.append_inj' heq rfl
        cases hlast
        rfl
      | append_singleton later last =>
        rw [← List.cons_append, ← List.append_assoc] at heq
        exact hguarded _ _ _ _ (List.append_inj' heq rfl).1

/-- No protected text holds an unescaped character of its kind, even if it ends inside a pair. -/
theorem not_hasUnescaped_protect (htarget : target ≠ '\\') (cs : List Char) :
    ¬ HasUnescaped (· = target) (protect target cs) := by
  have hbad : ¬ '\\' = target := htarget.symm
  by_cases h : Complete cs
  · exact ((freeOf_iff hbad).1 (freeOf_protect h)).2
  · obtain ⟨front, hfront, rfl⟩ := exists_complete_of_not_complete h
    rw [protect_append hfront, hasUnescaped_append_iff hbad (freeOf_protect hfront)]
    exact not_hasUnescaped_lone hbad

theorem protect_protect (cs : List Char) :
    protect target (protect target cs) = protect target cs := by
  by_cases h : Complete cs
  · exact protect_of_freeOf (freeOf_protect h)
  · obtain ⟨front, hfront, rfl⟩ := exists_complete_of_not_complete h
    have hprotected : FreeOf (· = target) (protect target front) := freeOf_protect hfront
    rw [protect_append hfront, protect_append hprotected.complete, protect_of_freeOf hprotected]
    rfl

end Text

namespace Pattern

open Text

/-- **A protected body stays between its delimiters.**  In a protected text every slash stands
    behind an odd number of backslashes.  It is the text itself with a backslash in front of each
    slash that had an even number of them before it, and with nothing else.  To protect it again
    changes nothing.  A text that does not end in an odd number of backslashes is, once protected,
    found between two slashes, with no modifiers. -/
theorem protect_slashes (body : List Char) :
    (∀ before after, protect '/' body = before ++ '/' :: after → Odd (backslashRun before)) ∧
    (∃ guarded : List (List Char × Char), guarded.map Prod.snd = body ∧
      guarded.flatMap (fun (added, c) => added ++ [c]) = protect '/' body ∧
      ∀ front added c later, guarded = front ++ (added, c) :: later →
        added = guarding '/' (front.map Prod.snd) c) ∧
    protect '/' (protect '/' body) = protect '/' body ∧
    (¬ Odd (backslashRun body) →
      splitDelimiters ('/' :: protect '/' body ++ ['/']) = .ok ('/', protect '/' body, [])) := by
  refine ⟨fun before after heq => ?_, exists_guarded (by decide) body, protect_protect body,
    fun hrun => ?_⟩
  · rw [← Nat.not_even_iff_odd, ← complete_iff_even_backslashRun]
    intro hbefore
    exact not_hasUnescaped_protect (by decide) body ⟨before, '/', after, heq, hbefore, rfl⟩
  · have hcomplete : Complete body :=
      complete_iff_even_backslashRun.2 (Nat.not_odd_iff_even.1 hrun)
    exact splitDelimiters_append isDelimiter_slash (freeOf_protect hcomplete) (by simp)

/-- Slashes behind no, one, two and three backslashes, and what stands before the third. -/
theorem protect_slashes_runs :
    protect '/' "a/\\/\\\\/\\\\\\/".toList =
      "a\\/\\/\\\\\\".toList ++ '/' :: "\\\\\\/".toList ∧
    Odd (backslashRun "a\\/\\/\\\\\\".toList) ∧
    ¬ Odd (backslashRun "a/\\/\\\\/\\\\\\/".toList) ∧
    splitDelimiters ('/' :: protect '/' "a/\\/\\\\/\\\\\\/".toList ++ ['/']) =
      .ok ('/', protect '/' "a/\\/\\\\/\\\\\\/".toList, []) := by
  have hthird : protect '/' "a/\\/\\\\/\\\\\\/".toList =
      "a\\/\\/\\\\\\".toList ++ '/' :: "\\\\\\/".toList := by decide +kernel
  have hrun : ¬ Odd (backslashRun "a/\\/\\\\/\\\\\\/".toList) := by decide +kernel
  obtain ⟨hodd, -, -, hsplit⟩ := protect_slashes "a/\\/\\\\/\\\\\\/".toList
  exact ⟨hthird, hodd _ _ hthird, hrun, hsplit hrun⟩

end Pattern

end RegexText
