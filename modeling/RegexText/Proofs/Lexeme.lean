/-
  RegexText/Proofs/Lexeme.lean
  ============================
  **Lexemes end between two backslash pairs.**

  A body that is free of an unescaped delimiter is cut into lexemes that are
  free of it, too.  The readers of names, options and quantifiers stop at a
  backslash, and a bracket expression ends at an unescaped bracket, so what
  follows a lexeme is cut into pairs as the body is.
-/
import RegexText.Proofs.Lexeme.Special

namespace RegexText.Lexeme

open Text

variable {bad : Char → Prop}

/-- What the characters of a lexeme promise in a body that is free of `bad` ones.  Nothing is
    asked of lexemes whose text is copied by nobody. -/
def Safe (bad : Char → Prop) : Lexeme → Prop
  | .plain c => c ≠ '\\' ∧ c ≠ '[' ∧ c ≠ '(' ∧ c ≠ ')' ∧ ¬ bad c
  | .loneBackslash => False
  | .bracket content quantifiers =>
    FreeOf (fun c => bad c ∨ c = ']') content ∧ ∀ c ∈ quantifiers, isRepeat c = true
  | .closer quantifiers => ∀ c ∈ quantifiers, isRepeat c = true
  | .escaped _ | .optionSetting _ | .opener _ _ | .unclosedBracket _ | .unknownGroup _ => True

/-! ### Readers that take no backslash -/

theorem ne_backslash_of_isRepeat {c : Char} (h : isRepeat c = true) : c ≠ '\\' := by
  rintro rfl
  cases h

/-- The characters that the opening of a group, or an option setting, has behind its
    parenthesis. -/
def isMarkChar (c : Char) : Bool :=
  isNameChar c || isOptionLetter c || ['?', '<', '>', '\'', ':', '=', '!', ')'].contains c

theorem isMarkChar_of_isNameChar {c : Char} (h : isNameChar c = true) : isMarkChar c = true := by
  simp [isMarkChar, h]

theorem isMarkChar_of_isOptionLetter {c : Char} (h : isOptionLetter c = true) :
    isMarkChar c = true := by
  simp [isMarkChar, h]

theorem ne_of_isMarkChar {c : Char} (h : isMarkChar c = true) :
    c ≠ '\\' ∧ c ≠ '[' ∧ c ≠ '(' := by
  refine ⟨?_, ?_, ?_⟩ <;> (rintro rfl; revert h; decide)

theorem isRepeat_splitClassQuantifiers (cs : List Char) :
    ∀ c ∈ (splitClassQuantifiers cs).1, isRepeat c = true := by
  unfold splitClassQuantifiers
  split
  · simp
  · rename_i c cs
    split
    · rename_i hc
      split
      · exact List.forall_mem_cons.2 ⟨hc, List.forall_mem_singleton.2 rfl⟩
      · exact List.forall_mem_singleton.2 hc
    · simp

/-- What begins with a parenthesis and a question mark holds marks only. -/
theorem isMarkChar_of_special {l : Lexeme} (h : Special l) :
    ∃ inner, l.text = '(' :: inner ∧ ∀ c ∈ inner, isMarkChar c = true := by
  have hname : ∀ {front name : List Char} {close : Char}, Source.isIdentifier name = true →
      (∀ c ∈ front, isMarkChar c = true) → isMarkChar close = true →
        ∀ c ∈ front ++ name ++ [close], isMarkChar c = true := by
    intro front name close hname hfront hclose
    have hchars : ∀ c ∈ name, isMarkChar c = true := fun c hc =>
      isMarkChar_of_isNameChar (Source.all_isNameChar_of_isIdentifier hname c hc)
    exact List.forall_mem_append.2
      ⟨List.forall_mem_append.2 ⟨hfront, hchars⟩, List.forall_mem_singleton.2 hclose⟩
  have hletters : ∀ {options : List Char} {close : Char},
      (∀ c ∈ options, isOptionLetter c = true) → isMarkChar close = true →
        ∀ c ∈ '?' :: options ++ [close], isMarkChar c = true := by
    intro options close hoptions hclose
    have hchars : ∀ c ∈ options, isMarkChar c = true := fun c hc =>
      isMarkChar_of_isOptionLetter (hoptions c hc)
    exact List.forall_mem_append.2
      ⟨List.forall_mem_cons.2 ⟨by decide, hchars⟩, List.forall_mem_singleton.2 hclose⟩
  cases h with
  | setting hoptions => exact ⟨_, rfl, hletters hoptions (by decide)⟩
  | letter hidentifier =>
    have hfront : ∀ c ∈ ['?', 'P', '<'], isMarkChar c = true := forall_mem_of_all (by decide)
    exact ⟨_, rfl, hname hidentifier hfront (by decide)⟩
  | angle hidentifier =>
    have hfront : ∀ c ∈ ['?', '<'], isMarkChar c = true := forall_mem_of_all (by decide)
    exact ⟨_, rfl, hname hidentifier hfront (by decide)⟩
  | quote hidentifier =>
    have hfront : ∀ c ∈ ['?', '\''], isMarkChar c = true := forall_mem_of_all (by decide)
    exact ⟨_, rfl, hname hidentifier hfront (by decide)⟩
  | nonCapturing hoptions => exact ⟨_, rfl, hletters hoptions (by decide)⟩
  | atomic => exact ⟨_, rfl, forall_mem_of_all (by decide)⟩
  | ahead negated => cases negated <;> exact ⟨_, rfl, forall_mem_of_all (by decide)⟩
  | behind negated => cases negated <;> exact ⟨_, rfl, forall_mem_of_all (by decide)⟩

theorem ne_backslash_of_special {l : Lexeme} (h : Special l) : ∀ c ∈ l.text, c ≠ '\\' := by
  obtain ⟨inner, htext, hinner⟩ := isMarkChar_of_special h
  rw [htext]
  exact List.forall_mem_cons.2 ⟨by decide, fun c hc => (ne_of_isMarkChar (hinner c hc)).1⟩

/-! ### Lexemes of a body -/

theorem safe_of_special {l : Lexeme} (h : Special l) : l.Safe bad := by
  cases h <;> trivial

/-- What follows a text without backslashes is free of what the whole is free of. -/
theorem freeOf_rest {as bs cs : List Char} (h : FreeOf bad cs) (hcs : cs = as ++ bs)
    (has : ∀ c ∈ as, c ≠ '\\') : FreeOf bad bs :=
  (FreeOf.of_append (complete_of_forall has) (hcs ▸ h)).2

theorem safe_readBracket {cs : List Char} (h : FreeOf bad cs) :
    (readBracket cs).1.Safe bad ∧ FreeOf bad (readBracket cs).2 := by
  unfold readBracket
  split
  · exact ⟨trivial, .nil⟩
  · rename_i content after hsplit
    obtain ⟨hcontent, hafter⟩ := h.of_splitUnescaped (by decide) hsplit
    have hrepeat := isRepeat_splitClassQuantifiers after
    exact ⟨⟨hcontent, hrepeat⟩, freeOf_rest hafter (splitClassQuantifiers_append after).symm
      fun c hc => ne_backslash_of_isRepeat (hrepeat c hc)⟩

theorem safe_readGroup {cs : List Char} (h : FreeOf bad ('(' :: cs)) :
    (readGroup cs).1.Safe bad ∧ FreeOf bad (readGroup cs).2 := by
  unfold readGroup
  split
  · rename_i inner
    cases hread : readSpecial inner with
    | none => exact ⟨trivial, .nil⟩
    | some r =>
      obtain ⟨l, rest⟩ := r
      have hspecial := special_of_readSpecial hread
      exact ⟨safe_of_special hspecial,
        freeOf_rest h (eq_of_readSpecial hread) (ne_backslash_of_special hspecial)⟩
  · exact ⟨trivial, (h.of_single (by decide)).2⟩

/-- A lexeme leaves a text that is cut into pairs as before. -/
theorem safe_next {c : Char} {cs : List Char} (h : FreeOf bad (c :: cs)) :
    (next c cs).1.Safe bad ∧ FreeOf bad (next c cs).2 := by
  unfold next
  split
  · rename_i hc
    subst hc
    cases cs with
    | nil =>
      rcases h with _ | _ | ⟨hc, _, _⟩
      exact absurd rfl hc
    | cons d ds => exact ⟨trivial, h.of_pair⟩
  · rename_i hbackslash
    obtain ⟨hbad, hcs⟩ := h.of_single hbackslash
    split
    · exact safe_readBracket hcs
    · split
      · rename_i hc
        subst hc
        exact safe_readGroup h
      · split
        · have hrepeat : ∀ c ∈ cs.takeWhile isRepeat, isRepeat c = true :=
            fun c hc => List.all_eq_true.1 List.all_takeWhile c hc
          exact ⟨hrepeat, freeOf_rest hcs List.takeWhile_append_dropWhile.symm
            fun c hc => ne_backslash_of_isRepeat (hrepeat c hc)⟩
        · rename_i hbracket hgroup hcloser
          exact ⟨⟨hbackslash, hbracket, hgroup, hcloser, hbad⟩, hcs⟩

/-- **The lexemes of a body are as free of unescaped characters as the body is.** -/
theorem safe_of_mem_ofBody {body : List Char} (h : FreeOf bad body) {l : Lexeme}
    (hl : l ∈ ofBody body) : l.Safe bad := by
  fun_induction ofBody body with
  | case1 => cases hl
  | case2 c cs ih =>
    obtain ⟨hfirst, hrest⟩ := safe_next h
    rcases List.mem_cons.1 hl with rfl | hmem
    · exact hfirst
    · exact ih hrest hmem

end RegexText.Lexeme
