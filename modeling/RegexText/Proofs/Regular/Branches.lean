/-
  RegexText/Proofs/Regular/Branches.lean
  ======================================
  **The branches of alternations.**

  A tree holds its alternatives one behind the other, with bars in between.  Its
  branches are what stands between the bars; written as alternatives they are the
  tree again.

  A group with several branches is an alternation.  `EachAlternation` says that
  something holds of the branches of every alternation in an expression, however
  deep it lies.  Two such properties matter here: that the first character of a text
  tells which branch may match it, and that no two branches could have been one
  class.
-/
import RegexText.Proofs.Regular.Optional
import RegexText.Symbol

namespace RegexText

namespace Regex

variable {U G : Type}

/-! ### Branches -/

/-- The first branch of a tree, and the others. -/
def split : Regex U G → Regex U G × List (Regex U G)
  | .done => (.done, [])
  | .unit u q next => (.unit u q next.split.1, next.split.2)
  | .group g body q next => (.group g body q next.split.1, next.split.2)
  | .bar next => (.done, next.split.1 :: next.split.2)

/-- What stands between the bars of a tree. -/
def branches (r : Regex U G) : List (Regex U G) := r.split.1 :: r.split.2

theorem split_of_isSequence {r : Regex U G} (h : r.IsSequence) : r.split = (r, []) := by
  induction r with
  | done => rfl
  | unit u q next ih => rw [split, ih h]
  | group g body q next _ ih => rw [split, ih h]
  | bar next ih => exact h.elim

theorem branches_of_isSequence {r : Regex U G} (h : r.IsSequence) : r.branches = [r] := by
  rw [branches, split_of_isSequence h]

theorem branches_append_bar {r : Regex U G} (h : r.IsSequence) (s : Regex U G) :
    (r.append (.bar s)).branches = r :: s.branches := by
  have hsplit : (r.append (.bar s)).split = (r, s.branches) := by
    induction r with
    | done => rfl
    | unit u q next ih => rw [append, split, ih h]
    | group g body q next _ ih => rw [append, split, ih h]
    | bar next ih => exact h.elim
  rw [branches, hsplit]

theorem branches_alternatives {rs : List (Regex U G)} (hne : rs ≠ [])
    (h : ∀ r ∈ rs, r.IsSequence) : (alternatives rs).branches = rs := by
  fun_induction alternatives rs with
  | case1 => exact absurd rfl hne
  | case2 r => exact branches_of_isSequence (h r (List.mem_singleton_self r))
  | case3 r s rs ih =>
    rw [branches_append_bar (h r (List.mem_cons_self ..)),
      ih (List.cons_ne_nil _ _) fun t ht => h t (List.mem_cons_of_mem _ ht)]

/-! ### Alternations -/

/-- Does something hold of the branches of every alternation inside a tree? -/
def EachAlternation (P : List (Regex U G) → Prop) : Regex U G → Prop
  | .done => True
  | .unit _ _ next => next.EachAlternation P
  | .group _ body _ next =>
    (2 ≤ body.branches.length → P body.branches) ∧ body.EachAlternation P ∧
      next.EachAlternation P
  | .bar next => next.EachAlternation P

namespace EachAlternation

variable {P Q : List (Regex U G) → Prop} {r s : Regex U G}

theorem imp (h : ∀ rs, P rs → Q rs) (hr : r.EachAlternation P) : r.EachAlternation Q := by
  induction r with
  | done => trivial
  | unit u q next ih => exact ih hr
  | group g body q next ihb ihn => exact ⟨fun htwo => h _ (hr.1 htwo), ihb hr.2.1, ihn hr.2.2⟩
  | bar next ih => exact ih hr

theorem append (hr : r.EachAlternation P) (hs : s.EachAlternation P) :
    (r.append s).EachAlternation P := by
  induction r with
  | done => exact hs
  | unit u q next ih => exact ih hr
  | group g body q next _ ih => exact ⟨hr.1, hr.2.1, ih hr.2.2⟩
  | bar next ih => exact ih hr

theorem alternatives {rs : List (Regex U G)} (h : ∀ r ∈ rs, r.EachAlternation P) :
    (alternatives rs).EachAlternation P := by
  fun_induction Regex.alternatives rs with
  | case1 => trivial
  | case2 r => exact h r (List.mem_singleton_self r)
  | case3 r s rs ih =>
    have hlater : EachAlternation P (.bar (Regex.alternatives (s :: rs))) :=
      ih fun t ht => h t (List.mem_cons_of_mem _ ht)
    exact (h r (List.mem_cons_self ..)).append hlater

/-- A group around one branch is no alternation. -/
theorem wrapped (hseq : r.IsSequence) (hr : r.EachAlternation P) (g : G)
    (q : Option Quantifier) : EachAlternation P (.group g r q .done) := by
  refine ⟨fun htwo => ?_, hr, trivial⟩
  rw [branches_of_isSequence hseq] at htwo
  exact absurd htwo (Nat.not_succ_le_self 1)

end EachAlternation

end Regex

namespace Regular

open Regex

theorem MakesOptional.eachAlternation {P : List Expression → Prop} {r s : Expression}
    (h : MakesOptional r s) (hseq : r.IsSequence) (hr : r.EachAlternation P) :
    s.EachAlternation P := by
  cases h with
  | unit u => trivial
  | group g body => exact hr
  | wrapped => exact .wrapped hseq hr _ _

/-! ### Branches that can be told apart -/

/-- Does the first character of a text tell which of some branches may match it? -/
structure Deterministic (D : Dialect) (rs : List Expression) : Prop where
  nonempty : ∀ r ∈ rs, [] ∉ language D r
  apart : rs.Pairwise fun r s => ∀ c w w', c :: w ∈ language D r → c :: w' ∉ language D s

/-- Is an expression just a class-safe symbol, or just a bracket expression? -/
def IsSymbolOrClass (r : Expression) : Prop :=
  Symbol.isClassSafe (String.ofList r.text) = true ∨
    ∃ content, r = .unit (.bracket content) none .done

/-- Are no two of some branches symbols or bracket expressions, so that they could have been
    one class? -/
def Folded (rs : List Expression) : Prop :=
  rs.Pairwise fun r s => ¬ (IsSymbolOrClass r ∧ IsSymbolOrClass s)

end Regular

end RegexText
