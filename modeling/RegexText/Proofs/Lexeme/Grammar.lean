/-
  RegexText/Proofs/Lexeme/Grammar.lean
  ====================================
  **The lexemes of a body, said without the reader.**

  A lexeme is told by its spelling and by what may not come behind it.  `Precedes`
  says of each lexeme before which texts it can stand.  It does not know in which
  order a reader tries what.

  The order does not matter: what stands at the front of a text is settled by the
  text (`next_eq_of_precedes`), and every body can be cut into lexemes in exactly
  one way (`cut_iff`).
-/
import Mathlib.Tactic.SplitIfs
import RegexText.Proofs.Lexeme.Special

namespace RegexText.Lexeme

open Text

variable {c : Char} {cs content options quantifiers rest body : List Char} {l : Lexeme}
  {ls : List Lexeme}

/-! ### Places -/

/-- Is there nothing behind some quantifiers that would have been taken up with them? -/
def Stops (quantifiers rest : List Char) : Prop :=
  (quantifiers = [] → ∀ c ∈ rest.head?, isRepeat c = false) ∧
    ∀ c, quantifiers = [c] → rest.head? ≠ some '+'

/-- Can a lexeme stand before a text, and be what it is? -/
inductive Precedes : Lexeme → List Char → Prop where
  | plain {c : Char} {rest : List Char} (h : c ∉ ['\\', '[', '(', ')']) : Precedes (.plain c) rest
  | escaped (c : Char) (rest : List Char) : Precedes (.escaped c) rest
  | loneBackslash : Precedes .loneBackslash []
  | bracket {content quantifiers rest : List Char} (hcomplete : Complete content)
      (hcontent : ¬ HasUnescaped (· = ']') content)
      (hquantifiers : quantifiers ∈ [[], ['+'], ['*'], ['+', '+'], ['*', '+']])
      (hstops : Stops quantifiers rest) : Precedes (.bracket content quantifiers) rest
  | special {l : Lexeme} {rest : List Char} (h : Special l) : Precedes l rest
  | group {rest : List Char} (h : rest.head? ≠ some '?') :
      Precedes (.opener (.capturing none) ['(']) rest
  /-- All repetitions belong to the parenthesis. -/
  | closer {quantifiers rest : List Char} (h : ∀ c ∈ quantifiers, isRepeat c = true)
      (hnext : ∀ c ∈ rest.head?, isRepeat c = false) : Precedes (.closer quantifiers) rest
  | unclosedBracket {after : List Char} (h : ¬ HasUnescaped (· = ']') after) :
      Precedes (.unclosedBracket after) []
  /-- Nothing that is known begins here. -/
  | unknownGroup {inner : List Char}
      (h : ∀ l rest, Special l → '(' :: '?' :: inner ≠ l.text ++ rest) :
      Precedes (.unknownGroup ('?' :: inner)) []

/-- A body cut into lexemes, each of which can stand before what is left of the body. -/
inductive Cut : List Char → List Lexeme → Prop where
  | nil : Cut [] []
  | cons {l : Lexeme} {rest : List Char} {ls : List Lexeme} (h : l.Precedes rest)
      (hrest : Cut rest ls) : Cut (l.text ++ rest) (l :: ls)

/-! ### Quantifiers -/

theorem stops_of_split (h : splitClassQuantifiers cs = (quantifiers, rest)) :
    Stops quantifiers rest := by
  unfold splitClassQuantifiers at h
  split at h
  · cases h
    exact ⟨by simp, by simp⟩
  · rename_i c cs
    split at h
    · split at h
      · cases h
        exact ⟨by simp, by simp⟩
      · rename_i hne
        cases h
        refine ⟨by simp, ?_⟩
        intro d _ hhead
        obtain ⟨rest, rfl⟩ := List.head?_eq_some_iff.1 hhead
        exact hne rest rfl
    · rename_i hc
      cases h
      refine ⟨?_, by simp⟩
      intro _ d hd
      rw [← Option.some.inj hd]
      exact Bool.eq_false_iff.2 hc

theorem mem_splitClassQuantifiers (cs : List Char) :
    (splitClassQuantifiers cs).1 ∈ [[], ['+'], ['*'], ['+', '+'], ['*', '+']] := by
  unfold splitClassQuantifiers
  split
  · simp
  · rename_i c cs
    split
    · rename_i hc
      simp only [isRepeat, Bool.or_eq_true, beq_iff_eq] at hc
      split <;> rcases hc with rfl | rfl <;> simp
    · simp

theorem splitClassQuantifiers_append_of_stops
    (h : quantifiers ∈ [[], ['+'], ['*'], ['+', '+'], ['*', '+']])
    (hstops : Stops quantifiers rest) :
    splitClassQuantifiers (quantifiers ++ rest) = (quantifiers, rest) := by
  have hone : ∀ c, isRepeat c = true → quantifiers = [c] →
      splitClassQuantifiers (quantifiers ++ rest) = (quantifiers, rest) := by
    rintro c hc rfl
    simp only [List.cons_append, List.nil_append, splitClassQuantifiers, if_pos hc]
    split
    · exact absurd rfl (hstops.2 c rfl)
    · rfl
  simp only [List.mem_cons, List.not_mem_nil, or_false] at h
  rcases h with rfl | rfl | rfl | rfl | rfl
  · cases rest with
    | nil => rfl
    | cons c cs =>
      have hc : isRepeat c = false := hstops.1 rfl c rfl
      simp [splitClassQuantifiers, hc]
  · exact hone '+' rfl rfl
  · exact hone '*' rfl rfl
  · rfl
  · rfl

/-! ### Lexemes -/

/-- What is read first can stand before what is left. -/
theorem precedes_next (c : Char) (cs : List Char) : (next c cs).1.Precedes (next c cs).2 := by
  unfold next
  split_ifs with hbackslash hbracket hgroup hcloser
  · cases cs with
    | nil => exact .loneBackslash
    | cons d ds => exact .escaped d ds
  · unfold readBracket
    split
    · rename_i hsplit
      exact .unclosedBracket ((splitUnescaped_eq_none_iff (by decide)).1 hsplit)
    · rename_i content after hsplit
      obtain ⟨hcomplete, hcontent⟩ :=
        (freeOf_iff (by decide)).1 (freeOf_of_splitUnescaped hsplit)
      exact .bracket hcomplete hcontent (mem_splitClassQuantifiers after) (stops_of_split rfl)
  · unfold readGroup
    split
    · rename_i inner
      cases hread : readSpecial inner with
      | none =>
        refine .unknownGroup fun l rest hspecial heq => ?_
        rw [readSpecial_of_special hspecial heq] at hread
        cases hread
      | some r => exact .special (special_of_readSpecial hread)
    · rename_i hne
      refine .group fun hhead => ?_
      obtain ⟨inner, rfl⟩ := List.head?_eq_some_iff.1 hhead
      exact hne inner rfl
  · exact .closer (fun d hd => List.all_eq_true.1 List.all_takeWhile d hd)
      (stop_of_dropWhile isRepeat cs)
  · exact .plain (by simp [hbackslash, hbracket, hgroup, hcloser])

/-- **What stands at the front of a text is settled by the text.** -/
theorem next_eq_of_precedes (hl : l.Precedes rest) (h : l.text ++ rest = c :: cs) :
    next c cs = (l, rest) := by
  cases hl with
  | @plain d _ hd =>
    cases h
    simp only [List.mem_cons, List.not_mem_nil, or_false, not_or] at hd
    simp [next, hd]
  | escaped d => cases h; rfl
  | loneBackslash => cases h; rfl
  | @bracket content quantifiers _ hcomplete hcontent hquantifiers hstops =>
    have hcs : c = '[' ∧ cs = content ++ ']' :: (quantifiers ++ rest) := by
      simpa [text, eq_comm] using h
    obtain ⟨rfl, rfl⟩ := hcs
    have hfree : FreeOf (· = ']') content := (freeOf_iff (by decide)).2 ⟨hcomplete, hcontent⟩
    simp only [next, readBracket, splitUnescaped_append (by decide) hfree,
      splitClassQuantifiers_append_of_stops hquantifiers hstops]
    rfl
  | special hspecial =>
    obtain rfl : c = '(' := by cases hspecial <;> exact (List.cons.inj h).1.symm
    exact readGroup_of_special hspecial h.symm
  | group hhead =>
    obtain ⟨rfl, rfl⟩ : '(' = c ∧ rest = cs := List.cons.inj h
    have hgroup : next '(' rest = readGroup rest := rfl
    rw [hgroup, readGroup]
    rintro inner rfl
    exact hhead rfl
  | @closer quantifiers _ hquantifiers hnext =>
    cases h
    obtain ⟨htake, hdrop⟩ := takeWhile_append_of_stop hquantifiers hnext
    simp [next, htake, hdrop]
  | @unclosedBracket after hnone =>
    cases h
    simp [next, readBracket, (splitUnescaped_eq_none_iff (by decide)).2 hnone]
  | @unknownGroup inner hnone =>
    obtain ⟨rfl, rfl⟩ : '(' = c ∧ '?' :: inner = cs := by simpa [text] using h
    have hgroup : next '(' ('?' :: inner) = readGroup ('?' :: inner) := rfl
    rw [hgroup, readGroup]
    cases hread : readSpecial inner with
    | none => rfl
    | some r =>
      exact absurd (eq_of_readSpecial hread) (hnone r.1 r.2 (special_of_readSpecial hread))

theorem text_ne_nil_of_precedes (h : l.Precedes rest) : l.text ≠ [] := by
  cases h with
  | special hspecial => cases hspecial <;> simp [text]
  | _ => simp [text]

/-! ### Bodies -/

theorem cut_ofBody (body : List Char) : Cut body (ofBody body) := by
  fun_induction ofBody body with
  | case1 => exact .nil
  | case2 c cs ih =>
    have hcut := Cut.cons (precedes_next c cs) ih
    rwa [text_append_next] at hcut

/-- **Every body can be cut into lexemes in exactly one way.** -/
theorem cut_iff : Cut body ls ↔ ls = ofBody body := by
  constructor
  · intro h
    induction h with
    | nil => rw [ofBody]
    | @cons l rest ls hl _ ih =>
      obtain ⟨c, cs, hbody⟩ := List.exists_cons_of_ne_nil
        (List.append_ne_nil_of_left_ne_nil (text_ne_nil_of_precedes hl) rest)
      rw [hbody, ofBody, next_eq_of_precedes hl hbody, ih]
  · rintro rfl
    exact cut_ofBody body

end RegexText.Lexeme
