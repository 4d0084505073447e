/-
  RegexText/Proofs/Lexeme/Outside.lean
  ====================================
  **Where the lexemes of a body begin.**

  `Outside` says of a front of a body that it ends neither inside an escape nor
  inside a bracket expression.  It knows nothing of groups, and so of no lexeme
  but these two.  Still it tells where a backslash or an opening parenthesis begins
  a lexeme, since no other lexeme holds one behind its first character.
-/
import Mathlib.Tactic.SplitIfs
import RegexText.Proofs.Lexeme
import RegexText.Proofs.Syntax.Lexing

namespace RegexText.Lexeme

open Text

/-- Does a front of a body end outside of its escapes and of its bracket expressions? -/
inductive Outside : List Char → Prop where
  | nil : Outside []
  | pair (c : Char) {cs : List Char} (h : Outside cs) : Outside ('\\' :: c :: cs)
  | bracket {content cs : List Char} (hcontent : FreeOf (· = ']') content) (h : Outside cs) :
      Outside ('[' :: content ++ ']' :: cs)
  | single {c : Char} {cs : List Char} (hc : c ≠ '\\') (hbracket : c ≠ '[') (h : Outside cs) :
      Outside (c :: cs)

/-- Has a lexeme an end of its own, before that of the body? -/
def isClosed : Lexeme → Bool
  | .unclosedBracket _ | .unknownGroup _ => false
  | .plain _ | .escaped _ | .loneBackslash | .bracket _ _ | .optionSetting _ | .opener _ _
  | .closer _ => true

variable {as bs cs ds body before after : List Char} {c d : Char} {l : Lexeme}

namespace Outside

theorem append (has : Outside as) (hbs : Outside bs) : Outside (as ++ bs) := by
  induction has with
  | nil => exact hbs
  | pair c _ ih => exact .pair c ih
  | bracket hcontent _ ih => simpa using Outside.bracket hcontent ih
  | single hc hbracket _ ih => exact .single hc hbracket ih

theorem append_of_forall (has : ∀ c ∈ as, c ≠ '\\' ∧ c ≠ '[') (h : Outside bs) :
    Outside (as ++ bs) := by
  induction as with
  | nil => exact h
  | cons a as ih =>
    obtain ⟨⟨hbackslash, hbracket⟩, has⟩ := List.forall_mem_cons.1 has
    exact .single hbackslash hbracket (ih has)

theorem of_append_of_forall (has : ∀ c ∈ as, c ≠ '\\' ∧ c ≠ '[') (h : Outside (as ++ bs)) :
    Outside bs := by
  induction as with
  | nil => exact h
  | cons a as ih =>
    obtain ⟨⟨hbackslash, hbracket⟩, has⟩ := List.forall_mem_cons.1 has
    apply ih has
    generalize hrest : as ++ bs = rest at h
    rw [List.cons_append, hrest] at h
    cases h with
    | pair => exact absurd rfl hbackslash
    | bracket => exact absurd rfl hbracket
    | single _ _ h => exact h

end Outside

/-! ### The lexeme behind a front -/

theorem ne_of_isRepeat (h : isRepeat c = true) : c ≠ '\\' ∧ c ≠ '[' ∧ c ≠ '(' := by
  refine ⟨?_, ?_, ?_⟩ <;> (rintro rfl; cases h)

/-- What holds none of the characters that are looked for lies in front of the first of them. -/
theorem Outside.exists_rest (has : ∀ c ∈ as, c ≠ '\\' ∧ c ≠ '[' ∧ c ≠ '(')
    (hd : d = '\\' ∨ d = '(') (h : Outside cs) (heq : as ++ bs = cs ++ d :: ds) :
    ∃ between, cs = as ++ between ∧ Outside between := by
  have hne : ∀ c ∈ as, c ≠ d := by
    intro c hc
    rcases hd with rfl | rfl
    · exact (has c hc).1
    · exact (has c hc).2.2
  obtain ⟨between, rfl⟩ := exists_append_of_forall_ne hne heq
  exact ⟨between, rfl, h.of_append_of_forall fun c hc => ⟨(has c hc).1, (has c hc).2.1⟩⟩

/-- Behind the first character of a group there are marks only. -/
theorem isMarkChar_readGroup (hclosed : (readGroup cs).1.isClosed = true) :
    ∃ inner, (readGroup cs).1.text = '(' :: inner ∧ ∀ c ∈ inner, isMarkChar c = true := by
  unfold readGroup at hclosed ⊢
  split
  · rename_i inner
    cases hread : readSpecial inner with
    | none =>
      simp only [hread] at hclosed
      cases hclosed
    | some r => exact isMarkChar_of_special (special_of_readSpecial hread)
  · exact ⟨[], rfl, by simp⟩

/-- The first lexeme lies in a front that ends outside, up to a backslash or a parenthesis, and
    leaves such a front. -/
theorem exists_front_of_outside (hclosed : (next c cs).1.isClosed = true)
    (hd : d = '\\' ∨ d = '(') (hbefore : Outside before) (hne : before ≠ [])
    (hbody : c :: cs = before ++ d :: after) :
    ∃ between, before = (next c cs).1.text ++ between ∧ Outside between := by
  cases hbefore with
  | nil => exact absurd rfl hne
  | @pair e rest h =>
    cases hbody
    exact ⟨rest, rfl, h⟩
  | @bracket content rest hcontent h =>
    have hc : c = '[' := (List.cons.inj hbody).1
    have hcs : cs = content ++ ']' :: (rest ++ d :: after) := by
      simpa using (List.cons.inj hbody).2
    have hread : (readBracket cs).1 =
        .bracket content (splitClassQuantifiers (rest ++ d :: after)).1 := by
      rw [readBracket, hcs, splitUnescaped_append (by decide) hcontent]
    obtain ⟨between, hrest, hbetween⟩ := h.exists_rest
      (fun c hc => ne_of_isRepeat (isRepeat_splitClassQuantifiers _ c hc)) hd
      (splitClassQuantifiers_append (rest ++ d :: after))
    refine ⟨between, ?_, hbetween⟩
    rw [hc, next_bracket, hread]
    simp only [text, List.append_assoc, List.cons_append, ← hrest]
  | @single e rest hbackslash hbracket h =>
    obtain ⟨rfl, hcs⟩ := List.cons.inj hbody
    have happend := text_append_next c cs
    by_cases hgroup : c = '('
    · subst hgroup
      obtain ⟨inner, htext, hinner⟩ := isMarkChar_readGroup hclosed
      rw [next_group, htext, hcs] at happend
      obtain ⟨between, rfl, hbetween⟩ := h.exists_rest
        (fun c hc => ne_of_isMarkChar (hinner c hc)) hd (List.cons.inj happend).2
      exact ⟨between, by rw [next_group, htext, List.cons_append], hbetween⟩
    · by_cases hcloser : c = ')'
      · subst hcloser
        rw [next_closer, text] at happend
        obtain ⟨between, hrest, hbetween⟩ := h.exists_rest
          (fun c hc => ne_of_isRepeat (List.all_eq_true.1 List.all_takeWhile c hc)) hd
          ((List.cons.inj happend).2.trans hcs)
        exact ⟨between, by rw [next_closer, text, List.cons_append, ← hrest], hbetween⟩
      · have hplain : next c cs = (.plain c, cs) := by
          simp only [next, if_neg hbackslash, if_neg hbracket, if_neg hgroup, if_neg hcloser]
        rw [hplain]
        exact ⟨rest, rfl, h⟩

/-- **Behind a front that ends outside, a backslash and an opening parenthesis begin a
    lexeme.** -/
theorem exists_ofBody_of_outside (hclosed : ∀ l ∈ ofBody body, l.isClosed = true)
    (hd : d = '\\' ∨ d = '(') (hbefore : Outside before) (hbody : body = before ++ d :: after) :
    ∃ ls, ofBody body = ls ++ ofBody (d :: after) ∧ ls.flatMap text = before := by
  fun_induction ofBody body generalizing before with
  | case1 => simp at hbody
  | case2 c cs ih =>
    obtain ⟨hfirst, hlater⟩ := List.forall_mem_cons.1 hclosed
    by_cases hne : before = []
    · subst hne
      obtain ⟨rfl, rfl⟩ := List.cons.inj hbody
      exact ⟨[], by rw [ofBody, List.nil_append], rfl⟩
    · obtain ⟨between, rfl, hbetween⟩ := exists_front_of_outside hfirst hd hbefore hne hbody
      have hrest : (next c cs).2 = between ++ d :: after := by
        rw [← text_append_next c cs, List.append_assoc] at hbody
        exact List.append_cancel_left hbody
      obtain ⟨ls, hls, rfl⟩ := ih hlater hbetween hrest
      exact ⟨(next c cs).1 :: ls, by rw [hls, List.cons_append], rfl⟩

/-! ### The front of a lexeme -/

/-- A lexeme with an end, behind which there is something, ends outside. -/
theorem Outside.append_next (hclosed : (next c cs).1.isClosed = true)
    (hrest : (next c cs).2 ≠ []) (h : Outside bs) : Outside ((next c cs).1.text ++ bs) := by
  have happend : ∀ {as : List Char}, (∀ c ∈ as, c ≠ '\\' ∧ c ≠ '[' ∧ c ≠ '(') →
      Outside (as ++ bs) :=
    fun has => append_of_forall (fun c hc => ⟨(has c hc).1, (has c hc).2.1⟩) h
  unfold next at hclosed hrest ⊢
  split_ifs at hclosed hrest ⊢ with hbackslash hbracket hgroup hcloser
  · cases cs with
    | nil => exact absurd rfl hrest
    | cons e es => exact .pair e h
  · unfold readBracket at hclosed ⊢
    split
    · rename_i hsplit
      simp only [hsplit] at hclosed
      cases hclosed
    · rename_i content rest hsplit
      have hquantifiers := happend
        fun c hc => ne_of_isRepeat (isRepeat_splitClassQuantifiers rest c hc)
      simpa [text] using Outside.bracket (freeOf_of_splitUnescaped hsplit) hquantifiers
  · obtain ⟨inner, htext, hinner⟩ := isMarkChar_readGroup hclosed
    rw [htext]
    exact .single (by decide) (by decide) (happend fun c hc => ne_of_isMarkChar (hinner c hc))
  · exact .single (by decide) (by decide)
      (happend fun c hc => ne_of_isRepeat (List.all_eq_true.1 List.all_takeWhile c hc))
  · exact .single hbackslash hbracket h

/-- **A lexeme begins behind a front that ends outside.** -/
theorem outside_of_ofBody {ls ms : List Lexeme} (h : ofBody body = ls ++ l :: ms)
    (hclosed : ∀ m ∈ ls, m.isClosed = true) : Outside (ls.flatMap text) := by
  fun_induction ofBody body generalizing ls with
  | case1 => simp at h
  | case2 c cs ih =>
    cases ls with
    | nil => exact .nil
    | cons m ls =>
      obtain ⟨rfl, hrest⟩ := List.cons.inj h
      obtain ⟨hfirst, hlater⟩ := List.forall_mem_cons.1 hclosed
      have hne : (next c cs).2 ≠ [] := by
        intro hnil
        simp [hnil, ofBody] at hrest
      exact Outside.append_next hfirst hne (ih hrest hlater)

/-- What follows some lexemes of a body has the other lexemes. -/
theorem ofBody_flatMap_text {ls ms : List Lexeme} (h : ofBody body = ls ++ ms) :
    ofBody (ms.flatMap text) = ms := by
  fun_induction ofBody body generalizing ls with
  | case1 =>
    obtain ⟨_, rfl⟩ := List.append_eq_nil_iff.1 h.symm
    rw [List.flatMap_nil, ofBody]
  | case2 c cs ih =>
    cases ls with
    | nil =>
      rw [List.nil_append] at h
      rw [← h, List.flatMap_cons, flatMap_text_ofBody, text_append_next, ofBody]
    | cons l ls => exact ih (List.cons.inj h).2

/-- **The escapes of a body are the pairs behind a front that ends outside.** -/
theorem forall_escaped_iff {P : List Char → Char → List Char → Prop}
    (hclosed : ∀ l ∈ ofBody body, l.isClosed = true) :
    (∀ before letter after, body = before ++ '\\' :: letter :: after → Outside before →
      P before letter after) ↔
    ∀ ls letter ms, ofBody body = ls ++ .escaped letter :: ms →
      P (ls.flatMap text) letter (ms.flatMap text) := by
  constructor
  · intro h ls letter ms hls
    have hbody := flatMap_text_ofBody body
    rw [hls, List.flatMap_append, List.flatMap_cons] at hbody
    refine h _ letter _ hbody.symm (outside_of_ofBody hls fun m hm => hclosed m ?_)
    rw [hls]
    exact List.mem_append_left _ hm
  · intro h before letter after hbody houtside
    obtain ⟨ls, hls, rfl⟩ := exists_ofBody_of_outside hclosed (.inl rfl) houtside hbody
    rw [ofBody_escaped] at hls
    have hresult := h ls letter _ hls
    rwa [flatMap_text_ofBody] at hresult

end RegexText.Lexeme
