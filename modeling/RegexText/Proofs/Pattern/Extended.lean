/-
  RegexText/Proofs/Pattern/Extended.lean
  ======================================
  **What the modifier `x` leaves of a body.**

  An extended body is cut into escapes, bracket expressions, comments, white
  space and other characters.  Stripping it keeps all pieces but comments and
  white space, and what is kept is cut as it was: neither are two pieces joined
  into another one, nor is a piece read as something else once its surroundings
  are gone.  One induction along the pieces says so, and the rest follows from
  it: that stripping twice is stripping once, and that the bracket expressions
  which the tokenizer finds are those of the body as it was written.
-/
import RegexText.Proofs.Pattern
import RegexText.Proofs.Piece
import RegexText.Proofs.TokenStream.Captures

namespace RegexText

open Text

/-! ### Regions of an extended body -/

namespace Pattern

variable {cs content : List Char}

theorem isIgnorable_eq_isBlank (c : Char) : isIgnorable c = Piece.isBlank c := by
  rw [Bool.eq_iff_iff]
  simp only [isIgnorable, Piece.isBlank, Bool.or_eq_true, Bool.and_eq_true, beq_iff_eq,
    decide_eq_true_eq, ← Char.toNat_inj, Char.reduceToNat]
  omega

/-- Up to its closing bracket, a bracket expression stays as it is. -/
theorem stripExtended_content (h : FreeOf (· = ']') content) (rest : List Char) :
    stripExtended .bracket (content ++ ']' :: rest) =
      content ++ ']' :: stripExtended .ordinary rest := by
  induction h with
  | nil => rw [List.nil_append, stripExtended_bracket (by decide), if_pos rfl, List.nil_append]
  | pair c _ ih => exact congrArg ('\\' :: c :: ·) ih
  | single hc hne _ ih =>
    rw [List.cons_append, stripExtended_bracket hc, if_neg hne, ih, List.cons_append]

/-- A bracket that is never closed keeps the rest of the body from being stripped. -/
theorem stripExtended_unclosed (h : splitUnescaped ']' cs = none) :
    stripExtended .bracket cs = cs := by
  fun_induction splitUnescaped ']' cs with
  | case1 => rfl
  | case2 => rfl
  | case3 c cs ih => exact congrArg ('\\' :: c :: ·) (ih (Option.map_eq_none_iff.1 h))
  | case4 cs => cases h
  | case5 c cs hlone hpair hne ih =>
    rw [stripExtended_bracket (ne_backslash_of_not_pair hlone hpair), if_neg hne,
      ih (Option.map_eq_none_iff.1 h)]

/-- A comment goes with the end of its line, whatever is escaped in it. -/
theorem stripExtended_comment (cs : List Char) :
    stripExtended .comment cs = stripExtended .ordinary ((cs.dropWhile (· != '\n')).drop 1) := by
  induction cs with
  | nil => rfl
  | cons c cs ih =>
    rw [stripExtended]
    by_cases hc : c = '\n'
    · simp [hc]
    · rw [if_neg hc, ih, List.dropWhile_cons_of_pos (by simpa using hc)]

end Pattern

/-! ### Pieces that are kept -/

namespace Piece

open Pattern

theorem readComment_spec (cs : List Char) :
    (readComment cs).1.isKept = false ∧
      (readComment cs).2 = (cs.dropWhile (· != '\n')).drop 1 := by
  unfold readComment
  split
  · rename_i hback
    rw [hback]
    exact ⟨rfl, rfl⟩
  · rename_i hback
    rw [hback]
    exact ⟨rfl, rfl⟩

/-- **A stripped body has the pieces of the body that are neither comments nor white space.**  It
    does not matter whether it is read as an extended body again. -/
theorem ofBody_stripExtended (extended : Bool) (cs : List Char) :
    ofBody extended (stripExtended .ordinary cs) = (ofBody true cs).filter isKept := by
  fun_induction ofBody true cs with
  | case1 => exact ofBody_nil extended
  | case2 c cs ih =>
    unfold next at ih ⊢
    split_ifs at ih ⊢ with hbackslash hbracket hcomment hblank
    · subst hbackslash
      cases cs with
      | nil =>
        rw [readEscape, ofBody_nil]
        exact ofBody_lone extended
      | cons d ds =>
        have hstrip : stripExtended .ordinary ('\\' :: d :: ds) =
          '\\' :: d :: stripExtended .ordinary ds := rfl
        rw [hstrip, ofBody_escape]
        exact congrArg (Piece.escape d :: ·) ih
    · subst hbracket
      rw [stripExtended_ordinary hbackslash, if_pos rfl]
      cases hsplit : splitUnescaped ']' cs with
      | none =>
        rw [stripExtended_unclosed hsplit, ofBody_openBracket hsplit, readBracket, hsplit,
          ofBody_nil]
        rfl
      | some cut =>
        obtain ⟨content, rest⟩ := cut
        simp only [readBracket, hsplit] at ih ⊢
        have hcontent := freeOf_of_splitUnescaped hsplit
        rw [eq_append_of_splitUnescaped hsplit, stripExtended_content hcontent,
          ← List.cons_append, ofBody_bracket hcontent, ih]
        rfl
    · have hc : c = '#' := by simpa using hcomment
      obtain ⟨hdropped, hrest⟩ := readComment_spec cs
      rw [stripExtended_ordinary hbackslash, if_neg hbracket, if_pos hc, stripExtended_comment,
        ← hrest, ih, List.filter_cons_of_neg (by simp [hdropped])]
    · have hc : c ≠ '#' := by simpa using hcomment
      have hignorable : isIgnorable c = true := by simpa [isIgnorable_eq_isBlank] using hblank
      rw [stripExtended_ordinary hbackslash, if_neg hbracket, if_neg hc, if_pos hignorable, ih]
      rfl
    · have hc : c ≠ '#' := by simpa using hcomment
      have hkept : isBlank c = false := by simpa using hblank
      have hignorable : ¬ isIgnorable c = true := by simp [isIgnorable_eq_isBlank, hkept]
      rw [stripExtended_ordinary hbackslash, if_neg hbracket, if_neg hc, if_neg hignorable,
        ofBody_char ⟨hbackslash, hbracket⟩ (fun _ => ⟨hc, hkept⟩), ih]
      rfl

/-- The pieces of an extended body, put together without its comments and white space. -/
def keptText (cs : List Char) : List Char := ((ofBody true cs).filter isKept).flatMap text

theorem stripExtended_eq_keptText (cs : List Char) :
    stripExtended .ordinary cs = keptText cs := by
  rw [keptText, ← ofBody_stripExtended false, flatMap_text_ofBody]

theorem keptText_keptText (cs : List Char) : keptText (keptText cs) = keptText cs := by
  rw [keptText, ← stripExtended_eq_keptText cs, ofBody_stripExtended, List.filter_filter,
    stripExtended_eq_keptText, keptText]
  simp only [Bool.and_self]

/-- Stripping neither adds nor drops a bracket expression. -/
theorem filterMap_content?_keptText (cs : List Char) :
    (ofBody false (keptText cs)).filterMap content? = (ofBody true cs).filterMap content? := by
  rw [← stripExtended_eq_keptText, ofBody_stripExtended, List.filterMap_filter]
  congr 1
  funext p
  cases p <;> rfl

end Piece

/-! ### Bracket expressions of the tokens -/

/-- The text between the brackets of a token. -/
def TokenItem.content? : TokenItem → Option (List Char)
  | .characterClass content _ => some content.toList
  | _ => none

/-- The texts between brackets, as the tokens have them. -/
def bracketContents (tokens : List Token) : List (List Char) :=
  tokens.filterMap fun t => t.item.content?

namespace Lexeme

theorem filterMap_content?_char (cs : List Char) :
    (cs.map Piece.char).filterMap Piece.content? = [] := by
  rw [List.filterMap_map]
  exact List.filterMap_eq_nil_iff.2 fun _ _ => rfl

/-- The pieces of a closed lexeme have the bracket expression of its token. -/
theorem filterMap_content?_pieces (kinds : List GroupKind) {l : Lexeme}
    (hclosed : l.isClosed = true) :
    l.pieces.filterMap Piece.content? =
      ((TokenStream.itemFor? kinds l).bind TokenItem.content?).toList := by
  cases l with
  | bracket content quantifiers =>
    have hchars := filterMap_content?_char quantifiers
    simp [pieces, Piece.content?, hchars, TokenStream.itemFor?, flatItem?, TokenItem.content?]
  | optionSetting options => exact filterMap_content?_char _
  | opener opener text => exact filterMap_content?_char _
  | closer quantifiers =>
    rw [pieces, filterMap_content?_char]
    cases kinds <;> rfl
  | unclosedBracket after => cases hclosed
  | unknownGroup after => cases hclosed
  | _ => rfl

end Lexeme

namespace TokenStream

theorem bracketContents_layout {ls : List Lexeme} (hclosed : ∀ l ∈ ls, l.isClosed = true)
    (pos : Nat) (kinds : List GroupKind) :
    bracketContents (layout pos kinds ls) =
      (ls.flatMap Lexeme.pieces).filterMap Piece.content? := by
  induction ls generalizing pos kinds with
  | nil => rfl
  | cons l ls ih =>
    obtain ⟨hl, hls⟩ := List.forall_mem_cons.1 hclosed
    have hrest := ih hls (pos + byteLength l.text) (kindsAfter kinds l)
    rw [bracketContents] at hrest ⊢
    rw [layout, List.filterMap_append, hrest, List.flatMap_cons, List.filterMap_append,
      Lexeme.filterMap_content?_pieces kinds hl]
    cases itemFor? kinds l with
    | none => rfl
    | some item => cases item <;> rfl

theorem bracketContents_unlinked (tokens : List Token) :
    bracketContents (tokens.map unlinked) = bracketContents tokens := by
  rw [bracketContents, List.filterMap_map, bracketContents]
  congr 1
  funext t
  obtain ⟨pos, len, item⟩ := t
  cases item <;> rfl

/-- The bracket expressions that the tokenizer finds are those that are found without regard to
    groups. -/
theorem bracketContents_of_tokenize {limit : Nat} {body : List Char} {tokens : List Token}
    (h : (tokenize limit body).outcome = .ok tokens) :
    bracketContents tokens = (Piece.ofBody false body).filterMap Piece.content? := by
  obtain ⟨s, hreads, _, _⟩ := tokenize_eq_ok_iff.1 h
  rw [← bracketContents_unlinked, map_unlinked_of_tokenize h,
    bracketContents_layout (isClosed_of_reads hreads), Lexeme.flatMap_pieces_ofBody]

end TokenStream

/-! ### Extended patterns -/

namespace Pattern

theorem outcome_parse_of_extended {limit : Nat} {pattern : String} {d : Char}
    {raw mods : List Char} (hsplit : splitDelimiters pattern.toList = .ok (d, raw, mods))
    (hx : 'x' ∈ mods) :
    (parse limit pattern).outcome = (tokenize limit (stripExtended .ordinary raw)).outcome.map
      fun tokens => ⟨d, String.ofList mods,
        String.ofList (stripExtended .ordinary raw), tokens⟩ := by
  unfold parse
  simp only [hsplit, List.contains_iff_mem.2 hx, if_true, Traced.outcome_bind]
  cases (tokenize limit (stripExtended .ordinary raw)).outcome <;> rfl

/-- **The modifier `x` strips a body piece by piece, as the tokenizer reads it.**  What is left is
    what stands neither in a comment nor in white space, in its order; stripping it again
    changes nothing; and its tokens have the bracket expressions of the body, in their order.
    This is the body that a pattern with the modifier is reported to have. -/
theorem strips_by_pieces (raw : List Char) :
    stripExtended .ordinary raw = Piece.keptText raw ∧
      stripExtended .ordinary (Piece.keptText raw) = Piece.keptText raw ∧
      (∀ limit tokens, (tokenize limit (Piece.keptText raw)).outcome = .ok tokens →
        bracketContents tokens = (Piece.ofBody true raw).filterMap Piece.content?) ∧
      ∀ limit pattern d mods, splitDelimiters pattern.toList = .ok (d, raw, mods) → 'x' ∈ mods →
        (parse limit pattern).outcome = (tokenize limit (Piece.keptText raw)).outcome.map
          fun tokens => ⟨d, String.ofList mods, String.ofList (Piece.keptText raw), tokens⟩ := by
  refine ⟨Piece.stripExtended_eq_keptText raw, ?_, ?_, ?_⟩
  · rw [Piece.stripExtended_eq_keptText, Piece.keptText_keptText]
  · intro limit tokens htokens
    rw [TokenStream.bracketContents_of_tokenize htokens, Piece.filterMap_content?_keptText]
  · intro limit pattern d mods hsplit hx
    rw [outcome_parse_of_extended hsplit hx, Piece.stripExtended_eq_keptText]

/-- Brackets in a comment, a `#` between brackets, and an escaped space. -/
def bracketInComment : List Char := "a [ #\\]]+ # [b\\\n\\ [\x0bc]".toList

/-- A bracket in a comment is none, and a `#` between brackets begins no comment. -/
theorem strips_by_pieces_bracketInComment :
    Piece.keptText bracketInComment = "a[ #\\]]+\\ [\x0bc]".toList ∧
      (tokenize 0 (Piece.keptText bracketInComment)).outcome =
        .ok [⟨1, 7, .characterClass " #\\]" "+"⟩, ⟨10, 4, .characterClass "\x0bc" ""⟩] ∧
      (Piece.ofBody true bracketInComment).filterMap Piece.content? =
        [" #\\]".toList, "\x0bc".toList] ∧
      (parse 0 "/a [ #\\]]+ # [b\\\n\\ [\x0bc]/x").outcome =
        .ok ⟨'/', "x", "a[ #\\]]+\\ [\x0bc]",
          [⟨1, 7, .characterClass " #\\]" "+"⟩, ⟨10, 4, .characterClass "\x0bc" ""⟩]⟩ := by
  obtain ⟨_, _, hcontents, hparse⟩ := strips_by_pieces bracketInComment
  have hkept : Piece.keptText bracketInComment = "a[ #\\]]+\\ [\x0bc]".toList := by
    decide +kernel
  have htokens : (tokenize 0 (Piece.keptText bracketInComment)).outcome =
      .ok [⟨1, 7, .characterClass " #\\]" "+"⟩, ⟨10, 4, .characterClass "\x0bc" ""⟩] := by
    decide +kernel
  have hread := hparse 0 "/a [ #\\]]+ # [b\\\n\\ [\x0bc]/x" '/' ['x'] (by decide +kernel)
    (by decide)
  rw [htokens, hkept] at hread
  exact ⟨hkept, htokens, (hcontents 0 _ htokens).symm, hread⟩

end Pattern

end RegexText
