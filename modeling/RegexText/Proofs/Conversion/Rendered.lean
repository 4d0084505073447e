/-
  RegexText/Proofs/Conversion/Rendered.lean
  =========================================
  **A converted body has the parentheses that were written into it.**

  The converter glues texts together: literal characters and pairs, bracket
  expressions, parentheses, numbered references.  `Rendered` describes the
  bodies that can come about in this way, with the parentheses that were
  written.  Cutting such a body into lexemes finds these parentheses and no
  others: no seam makes a bracket, a parenthesis or an escape, and none hides
  one.

  What could go wrong is named by a constructor's premise.  A plain parenthesis
  must not stand before a question mark, and the text between brackets must hold
  no unescaped bracket.
-/
import RegexText.Proofs.Conversion.Inversion
import RegexText.Proofs.Lexeme
import RegexText.Proofs.TokenStream.Outline

namespace RegexText

open Text

/-! ### Parentheses of a body -/

namespace Lexeme

/-- The parentheses of a body, up to what is read behind them. -/
def bodyParentheses (body : List Char) : List Parenthesis := parentheses (ofBody body)

theorem bodyParentheses_plain {c : Char} (hc : c ≠ '\\' ∧ c ≠ '[' ∧ c ≠ '(' ∧ c ≠ ')')
    (cs : List Char) : bodyParentheses (c :: cs) = bodyParentheses cs := by
  rw [bodyParentheses, ofBody_plain hc, parentheses_cons]
  rfl

theorem bodyParentheses_pair (c : Char) (cs : List Char) :
    bodyParentheses ('\\' :: c :: cs) = bodyParentheses cs := by
  rw [bodyParentheses, ofBody_escaped, parentheses_cons]
  rfl

/-- Quantifier characters are nothing to the parentheses, so it does not matter which lexeme
    takes them. -/
theorem bodyParentheses_repeats {quantifiers : List Char}
    (h : ∀ c ∈ quantifiers, isRepeat c = true) (rest : List Char) :
    bodyParentheses (quantifiers ++ rest) = bodyParentheses rest := by
  have hplain : ∀ c ∈ quantifiers, c ≠ '\\' ∧ c ≠ '[' ∧ c ≠ '(' ∧ c ≠ ')' := by
    intro c hc
    have hrepeat := h c hc
    refine ⟨?_, ?_, ?_, ?_⟩ <;> rintro rfl <;> cases hrepeat
  rw [bodyParentheses, ofBody_plains hplain, parentheses_append, parentheses_of_literal]
  · rfl
  · intro l hl
    obtain ⟨c, _, rfl⟩ := List.mem_map.1 hl
    rfl

theorem bodyParentheses_bracket {content : List Char} (h : FreeOf (· = ']') content)
    (cs : List Char) : bodyParentheses ('[' :: content ++ ']' :: cs) = bodyParentheses cs := by
  have hsplit := splitUnescaped_append (by decide) h cs
  have hrepeats := bodyParentheses_repeats (isRepeat_splitClassQuantifiers cs)
    (splitClassQuantifiers cs).2
  rw [splitClassQuantifiers_append] at hrepeats
  rw [hrepeats, bodyParentheses, List.cons_append, ofBody, next_bracket, readBracket, hsplit,
    parentheses_cons]
  rfl

theorem bodyParentheses_closer (cs : List Char) :
    bodyParentheses (')' :: cs) = .closes :: bodyParentheses cs := by
  have hrepeats := bodyParentheses_repeats
    (fun c hc => List.all_eq_true.1 (List.all_takeWhile (p := isRepeat) (l := cs)) c hc)
    (cs.dropWhile isRepeat)
  rw [List.takeWhile_append_dropWhile] at hrepeats
  rw [hrepeats, bodyParentheses, ofBody, next_closer, parentheses_cons]
  rfl

theorem bodyParentheses_opener {inner rest text : List Char} {opener : Opener}
    (h : readGroup (inner ++ rest) = (.opener opener text, rest)) :
    bodyParentheses ('(' :: inner ++ rest) = .opens opener :: bodyParentheses rest := by
  rw [bodyParentheses, ofBody_opener h, parentheses_cons]
  rfl

end Lexeme

/-! ### Bodies that the converter writes -/

namespace Conversion

open Lexeme

/-- The bodies that can be written out of characters that are not `bad`, with the parentheses
    that are written. -/
inductive Rendered (bad : Char → Prop) : List Parenthesis → List Char → Prop where
  | nil : Rendered bad [] []
  | char {c : Char} {ps : List Parenthesis} {cs : List Char}
      (hc : c ≠ '\\' ∧ c ≠ '[' ∧ c ≠ '(' ∧ c ≠ ')') (hbad : ¬ bad c)
      (h : Rendered bad ps cs) : Rendered bad ps (c :: cs)
  | pair (c : Char) {ps : List Parenthesis} {cs : List Char} (h : Rendered bad ps cs) :
      Rendered bad ps ('\\' :: c :: cs)
  | bracket {content : List Char} {ps : List Parenthesis} {cs : List Char}
      (hcontent : FreeOf (fun c => bad c ∨ c = ']') content) (h : Rendered bad ps cs) :
      Rendered bad ps ('[' :: content ++ ']' :: cs)
  | capturing {ps : List Parenthesis} {cs : List Char} (hfresh : cs.head? ≠ some '?')
      (h : Rendered bad ps cs) : Rendered bad (.opens (.capturing none) :: ps) ('(' :: cs)
  | nonCapturing {ps : List Parenthesis} {cs : List Char} (h : Rendered bad ps cs) :
      Rendered bad (.opens (.nonCapturing "") :: ps) ('(' :: '?' :: ':' :: cs)
  | ahead (negated : Bool) {ps : List Parenthesis} {cs : List Char} (h : Rendered bad ps cs) :
      Rendered bad (.opens (.assertion .ahead negated) :: ps)
        ('(' :: '?' :: (if negated then '!' else '=') :: cs)
  | closer {ps : List Parenthesis} {cs : List Char} (h : Rendered bad ps cs) :
      Rendered bad (.closes :: ps) (')' :: cs)

namespace Rendered

variable {bad : Char → Prop} {ps : List Parenthesis} {cs : List Char}

theorem chars {as : List Char}
    (has : ∀ c ∈ as, (c ≠ '\\' ∧ c ≠ '[' ∧ c ≠ '(' ∧ c ≠ ')') ∧ ¬ bad c)
    (h : Rendered bad ps cs) : Rendered bad ps (as ++ cs) := by
  induction as with
  | nil => exact h
  | cons a as ih =>
    obtain ⟨⟨ha, hno⟩, has⟩ := List.forall_mem_cons.1 has
    exact .char ha hno (ih has)

/-- **Reading a rendered body finds the parentheses that were written.** -/
theorem parentheses (h : Rendered bad ps cs) : bodyParentheses cs = ps := by
  induction h with
  | nil =>
    rw [bodyParentheses, ofBody]
    rfl
  | char hc _ _ ih => rw [bodyParentheses_plain hc, ih]
  | pair c _ ih => rw [bodyParentheses_pair, ih]
  | bracket hcontent _ ih =>
    rw [bodyParentheses_bracket (hcontent.mono fun _ => Or.inr), ih]
  | @capturing _ cs hfresh _ ih =>
    have hread : readGroup cs = (.opener (.capturing none) ['('], cs) := by
      unfold readGroup
      split
      · exact absurd rfl hfresh
      · rfl
    exact (bodyParentheses_opener (show readGroup ([] ++ cs) = _ from hread)).trans (congrArg _ ih)
  | @nonCapturing _ cs _ ih =>
    have hread : readGroup ([ '?', ':'] ++ cs) =
        (.opener (.nonCapturing "") ['(', '?', ':'], cs) := rfl
    exact (bodyParentheses_opener hread).trans (congrArg _ ih)
  | @ahead negated _ cs _ ih =>
    have hread : readGroup (['?', if negated then '!' else '='] ++ cs) =
        (.opener (.assertion .ahead negated) ['(', '?', if negated then '!' else '='], cs) := by
      cases negated <;> rfl
    exact (bodyParentheses_opener hread).trans (congrArg _ ih)
  | closer _ ih => rw [bodyParentheses_closer, ih]

theorem freeOf (hbad : ∀ c, bad c → c = '/') (h : Rendered bad ps cs) : FreeOf bad cs := by
  have hsigns : ∀ as : List Char, (as.all fun c => decide (c ≠ '\\' ∧ c ≠ '/')) = true →
      FreeOf bad as := by
    intro as has
    have hne := forall_mem_of_all has
    exact FreeOf.of_forall fun c hc => ⟨(hne c hc).1, mt (hbad c) (hne c hc).2⟩
  induction h with
  | nil => exact .nil
  | char hc hno _ ih => exact .single hc.1 hno ih
  | pair c _ ih => exact .pair c ih
  | bracket hcontent _ ih =>
    exact ((hsigns ['['] (by decide)).append (hcontent.mono fun _ => Or.inl)).append
      ((hsigns [']'] (by decide)).append ih)
  | capturing _ _ ih => exact (hsigns ['('] (by decide)).append ih
  | nonCapturing _ ih => exact (hsigns ['(', '?', ':'] (by decide)).append ih
  | ahead negated _ ih =>
    cases negated with
    | true => exact (hsigns ['(', '?', '!'] (by decide)).append ih
    | false => exact (hsigns ['(', '?', '='] (by decide)).append ih
  | closer _ ih => exact (hsigns [')'] (by decide)).append ih

theorem head?_protect (cs : List Char) (h : cs.head? ≠ some '?') :
    (protect '/' cs).head? ≠ some '?' := by
  unfold protect
  split
  · simp
  · simp
  · simp
  · split
    · simp
    · simpa using h

/-- **Escaping slashes changes no parenthesis.** -/
theorem protect (h : Rendered (fun _ => False) ps cs) :
    Rendered (· = '/') ps (Text.protect '/' cs) := by
  have hsign : ∀ {c : Char} (as : List Char), c ≠ '\\' → c ≠ '/' →
      Text.protect '/' (c :: as) = c :: Text.protect '/' as := by
    intro c as hc hslash
    rw [protect_single hc, if_neg hslash]
    rfl
  induction h with
  | nil => exact .nil
  | @char c _ _ hc _ _ ih =>
    rw [protect_single hc.1]
    by_cases hslash : c = '/'
    · rw [if_pos hslash]
      exact .pair c ih
    · rw [if_neg hslash]
      exact .char hc hslash ih
  | pair c _ ih => exact .pair c ih
  | bracket hcontent _ ih =>
    rw [List.cons_append, hsign _ (by decide) (by decide), protect_append hcontent.complete,
      hsign _ (by decide) (by decide)]
    refine .bracket (hcontent.protect.mono ?_) ih
    rintro c (rfl | rfl)
    · exact Or.inr rfl
    · exact Or.inl (Or.inr rfl)
  | capturing hfresh _ ih =>
    rw [hsign _ (by decide) (by decide)]
    exact .capturing (head?_protect _ hfresh) ih
  | nonCapturing _ ih =>
    rw [hsign _ (by decide) (by decide), hsign _ (by decide) (by decide),
      hsign _ (by decide) (by decide)]
    exact .nonCapturing ih
  | ahead negated _ ih =>
    rw [hsign _ (by decide) (by decide), hsign _ (by decide) (by decide),
      hsign _ (by cases negated <;> decide) (by cases negated <;> decide)]
    exact .ahead negated ih
  | closer _ ih =>
    rw [hsign _ (by decide) (by decide)]
    exact .closer ih

end Rendered

/-! ### Literal text and bracket expressions -/

/-- What `bad` may be: a slash at most. -/
abbrev Plain (bad : Char → Prop) : List Char → Prop :=
  FreeOf fun c => bad c ∨ c = '[' ∨ c = '(' ∨ c = ')'

end Conversion

namespace CategoryEscape.Expansion

open Conversion

variable {bad : Char → Prop} {dotAll : Bool} {cs y : List Char}

/-- Inside brackets, an expansion ends no bracket expression. -/
theorem freeOf (hbad : ∀ c, bad c → c = '/') (h : Expansion true false cs y)
    (hcs : FreeOf (fun c => bad c ∨ c = ']') cs) : FreeOf (fun c => bad c ∨ c = ']') y := by
  have hbracket : ∀ c, bad c ∨ c = ']' → c = '/' ∨ c = ']' := fun c => Or.imp_left (hbad c)
  induction h with
  | nil => exact .nil
  | lone => exact hcs
  | category hread _ ih =>
    obtain ⟨spelling, rfl, hspelling⟩ := exists_spelling_of_read hread
    have hrest := (FreeOf.of_append (complete_of_forall hspelling) hcs.of_pair).2
    exact (Source.freeOf_rangesText hbracket _).append (ih hrest)
  | pair _ ih => exact .pair _ (ih hcs.of_pair)
  | @single c _ _ hc _ ih =>
    obtain ⟨hno, hrest⟩ := hcs.of_single hc
    have hsame : (if c = '.' then dotText false else [c]) = [c] := by
      split
      · rename_i hdot
        rw [hdot]
        rfl
      · rfl
    rw [hsame]
    exact .single hc hno (ih hrest)

/-- Outside brackets, an expansion adds bracket expressions and no parenthesis. -/
theorem rendered (hbad : ∀ c, bad c → c = '/') (h : Expansion false dotAll cs y)
    (hcs : Plain bad cs) {ps : List Parenthesis} {z : List Char} (hz : Rendered bad ps z) :
    Rendered bad ps (y ++ z) := by
  have hbracket : ∀ c, bad c ∨ c = ']' → c = '/' ∨ c = ']' := fun c => Or.imp_left (hbad c)
  induction h with
  | nil => exact hz
  | lone =>
    rcases hcs with _ | _ | ⟨hc, _, _⟩
    exact absurd rfl hc
  | @category _ _ _ later escape hread _ ih =>
    obtain ⟨spelling, rfl, hspelling⟩ := exists_spelling_of_read hread
    have hrest := ih (FreeOf.of_append (complete_of_forall hspelling) hcs.of_pair).2
    have hranges := Source.freeOf_rangesText hbracket (unitRanges escape.categories false)
    rw [List.append_assoc]
    cases hnegated : escape.negated with
    | true =>
      have hcaret : ¬ (bad '^' ∨ '^' = ']') :=
        not_or.2 ⟨mt (hbad _) (by decide), by decide⟩
      simpa [Escape.expanded, hnegated] using
        Rendered.bracket (.single (by decide) hcaret hranges) hrest
    | false => simpa [Escape.expanded, hnegated] using Rendered.bracket hranges hrest
  | pair _ ih => exact .pair _ (ih hcs.of_pair)
  | @single c _ _ hc _ ih =>
    obtain ⟨hno, hrest⟩ := hcs.of_single hc
    obtain ⟨hno, hstructural⟩ := not_or.1 hno
    simp only [not_or] at hstructural
    rw [List.append_assoc]
    split
    · cases dotAll with
      | true =>
        have hinner : FreeOf (fun c => bad c ∨ c = ']') ['\\', 's', '\\', 'S'] :=
          .pair 's' (.pair 'S' .nil)
        exact .bracket hinner (ih hrest)
      | false => exact .char (by decide) (mt (hbad _) (by decide)) (ih hrest)
    · exact .char ⟨hc, hstructural⟩ hno (ih hrest)

/-- An expansion begins with a question mark only where the text does, and takes up some room
    if the text does. -/
theorem head (h : Expansion false dotAll cs y) :
    (y = [] → cs = []) ∧ (y.head? = some '?' → cs.head? = some '?') := by
  rcases h with _ | _ | @⟨_, _, _, _, escape, _, _⟩ | _ | @⟨c, _, _, _, _⟩
  · exact ⟨id, id⟩
  · simp
  · cases hnegated : escape.negated <;> simp [Escape.expanded, hnegated]
  · simp
  · cases dotAll <;> split <;> simp_all [dotText]

end CategoryEscape.Expansion

end RegexText
