/-
  RegexText/Proofs/Text/Distinct.lean
  ===================================
  **Lists that hold each of their members once.**

  Duplicates are dropped in two ways: with the first occurrences kept in their
  order, and by sorting.
-/
import Mathlib.Data.List.Basic
import Mathlib.Data.List.Induction
import Mathlib.Data.String.Basic
import RegexText.Text.Sorted

namespace RegexText.Text

theorem nodup_eraseDups {α : Type} [BEq α] [LawfulBEq α] (as : List α) : as.eraseDups.Nodup := by
  induction hn : as.length using Nat.strongRecOn generalizing as with
  | ind n ih =>
    cases as with
    | nil => simp
    | cons a as =>
      subst hn
      have hle := List.length_filter_le (fun b => !b == a) as
      rw [List.eraseDups_cons, List.nodup_cons]
      refine ⟨?_, ih _ (by simp only [List.length_cons]; omega) _ rfl⟩
      simp [List.mem_eraseDups]

theorem eraseDups_concat {α : Type} [DecidableEq α] (as : List α) (a : α) :
    (as ++ [a]).eraseDups = if a ∈ as.eraseDups then as.eraseDups else as.eraseDups ++ [a] := by
  rw [List.eraseDups_append]
  by_cases hmem : a ∈ as
  · have hnone : [a].removeAll as = [] := by simp [List.removeAll, hmem]
    rw [if_pos (List.mem_eraseDups.2 hmem), hnone, List.eraseDups_nil, List.append_nil]
  · have hkept : [a].removeAll as = [a] := by simp [List.removeAll, hmem]
    rw [if_neg fun h => hmem (List.mem_eraseDups.1 h), hkept, List.eraseDups_cons]
    rfl

/-- The occurrences that are kept are the first ones, in their order. -/
theorem pairwise_idxOf_eraseDups {α : Type} [DecidableEq α] (as : List α) :
    as.eraseDups.Pairwise fun a b => as.idxOf a < as.idxOf b := by
  induction as using List.reverseRecOn with
  | nil => simp
  | append_singleton as a ih =>
    have hkept : ∀ x ∈ as.eraseDups, (as ++ [a]).idxOf x = as.idxOf x :=
      fun x hx => List.idxOf_append_of_mem (List.mem_eraseDups.1 hx)
    have hearlier : as.eraseDups.Pairwise fun x y => (as ++ [a]).idxOf x < (as ++ [a]).idxOf y := by
      apply ih.imp_of_mem
      intro x y hx hy hlt
      rwa [hkept x hx, hkept y hy]
    rw [eraseDups_concat]
    split
    · exact hearlier
    · rename_i hnew
      refine List.pairwise_append.2 ⟨hearlier, List.pairwise_singleton _ _, ?_⟩
      intro x hx y hy
      rw [List.mem_singleton.1 hy, hkept x hx,
        List.idxOf_append_of_notMem fun hmem => hnew (List.mem_eraseDups.2 hmem)]
      exact Nat.lt_add_right _ (List.idxOf_lt_length_of_mem (List.mem_eraseDups.1 hx))

theorem pairwise_insertDistinct {a : String} {bs : List String} (h : bs.Pairwise (· < ·)) :
    (insertDistinct a bs).Pairwise (· < ·) := by
  induction bs with
  | nil => simp [insertDistinct]
  | cons b bs ih =>
    obtain ⟨hb, hbs⟩ := List.pairwise_cons.1 h
    unfold insertDistinct
    split
    · rename_i hab
      refine List.pairwise_cons.2 ⟨?_, h⟩
      intro x hx
      rcases List.mem_cons.1 hx with rfl | hmem
      · exact hab
      · exact lt_trans hab (hb x hmem)
    · rename_i hnot
      split
      · exact h
      · rename_i hne
        refine List.pairwise_cons.2 ⟨?_, ih hbs⟩
        intro x hx
        rcases mem_insertDistinct.1 hx with rfl | hmem
        · exact lt_of_le_of_ne (not_lt.1 hnot) (Ne.symm hne)
        · exact hb x hmem

theorem pairwise_sortDistinct (texts : List String) : (sortDistinct texts).Pairwise (· < ·) := by
  induction texts with
  | nil => exact .nil
  | cons a texts ih => exact pairwise_insertDistinct ih

theorem nodup_sortDistinct (texts : List String) : (sortDistinct texts).Nodup :=
  (pairwise_sortDistinct texts).imp fun h => ne_of_lt h

/-- The sorted list depends on the set of members only. -/
theorem sortDistinct_congr {texts texts' : List String} (h : ∀ x, x ∈ texts ↔ x ∈ texts') :
    sortDistinct texts = sortDistinct texts' := by
  have hperm : (sortDistinct texts).Perm (sortDistinct texts') := by
    apply (List.perm_ext_iff_of_nodup (nodup_sortDistinct _) (nodup_sortDistinct _)).2
    intro x
    rw [mem_sortDistinct, mem_sortDistinct, h]
  exact hperm.eq_of_pairwise (fun _ _ _ _ hlt hgt => absurd hgt (lt_asymm hlt))
    (pairwise_sortDistinct _) (pairwise_sortDistinct _)

end RegexText.Text
