/-
  RegexText/Proofs/Piece.lean
  ===========================
  **A body as escapes, bracket expressions and single characters.**

  Pieces are coarser than characters and finer than lexemes: a group is nothing
  but its characters, and a quantifier stands for itself.  An extended body has
  two more kinds of pieces, white space and comments.

  The lexemes of a body are cut where its pieces are.  A scanner that counts
  parentheses and one that does not therefore agree on which characters are
  escaped and which stand between brackets.
-/
import RegexText.Proofs.Lexeme.Outside

namespace RegexText

open Text

inductive Piece where
  | char (c : Char)
  /-- A backslash and the character after it. -/
  | escape (c : Char)
  /-- A bracket expression, from an unescaped `[` to the first unescaped `]`. -/
  | bracket (content : List Char)
  /-- An unescaped `[` without such a partner, and the rest of the body. -/
  | openBracket (content : List Char)
  | blank (c : Char)
  /-- A `#` and what follows it, through the end of its line. -/
  | comment (line : List Char)
deriving DecidableEq, Repr

namespace Piece

/-- The characters that a piece takes up. -/
def text : Piece → List Char
  | .char c | .blank c => [c]
  | .escape c => ['\\', c]
  | .bracket content => '[' :: content ++ [']']
  | .openBracket content => '[' :: content
  | .comment line => '#' :: line

/-- Is a piece part of what an extended body says? -/
def isKept : Piece → Bool
  | .blank _ | .comment _ => false
  | .char _ | .escape _ | .bracket _ | .openBracket _ => true

/-- The text between the brackets of a bracket expression. -/
def content? : Piece → Option (List Char)
  | .bracket content | .openBracket content => some content
  | .char _ | .escape _ | .blank _ | .comment _ => none

/-! ### Reading -/

/-- ASCII white space: the space, and the characters from the tab to the carriage return. -/
def isBlank (c : Char) : Bool := c == ' ' || 0x09 ≤ c.toNat && c.toNat ≤ 0x0D

/-- The piece of a backslash before `cs`, and the rest.  A backslash that nothing follows is a
    character like any other. -/
def readEscape : List Char → Piece × List Char
  | [] => (.char '\\', [])
  | c :: cs => (.escape c, cs)

/-- The piece of an opening bracket before `cs`, and the rest. -/
def readBracket (cs : List Char) : Piece × List Char :=
  match splitUnescaped ']' cs with
  | none => (.openBracket cs, [])
  | some (content, rest) => (.bracket content, rest)

/-- The comment whose `#` stands before `cs`, and the rest. -/
def readComment (cs : List Char) : Piece × List Char :=
  match cs.dropWhile (· != '\n') with
  | [] => (.comment cs, [])
  | c :: rest => (.comment (cs.takeWhile (· != '\n') ++ [c]), rest)

/-- The piece that starts with `c`, and the rest of the text. -/
def next (extended : Bool) (c : Char) (cs : List Char) : Piece × List Char :=
  if c = '\\' then readEscape cs
  else if c = '[' then readBracket cs
  else if extended && c == '#' then readComment cs
  else if extended && isBlank c then (.blank c, cs)
  else (.char c, cs)

theorem text_append_readComment (cs : List Char) :
    (readComment cs).1.text ++ (readComment cs).2 = '#' :: cs := by
  have hsplit := List.takeWhile_append_dropWhile (p := (· != '\n')) (l := cs)
  unfold readComment
  split
  · simp [text]
  · rename_i c rest hdrop
    rw [hdrop] at hsplit
    simp [text, hsplit]

/-- A piece and the rest after it make up the text. -/
theorem text_append_next (extended : Bool) (c : Char) (cs : List Char) :
    (next extended c cs).1.text ++ (next extended c cs).2 = c :: cs := by
  unfold next
  split_ifs with hbackslash hbracket hcomment
  · rw [hbackslash]
    cases cs <;> rfl
  · rw [hbracket, readBracket]
    split
    · simp [text]
    · rename_i content rest hsplit
      simp [text, eq_append_of_splitUnescaped hsplit]
  · rw [text_append_readComment, (beq_iff_eq.1 (Bool.and_eq_true_iff.1 hcomment).2)]
  · rfl
  · rfl

theorem text_ne_nil (p : Piece) : p.text ≠ [] := by
  cases p <;> simp [text]

theorem length_next_le (extended : Bool) (c : Char) (cs : List Char) :
    (next extended c cs).2.length ≤ cs.length := by
  have happend := congrArg List.length (text_append_next extended c cs)
  have hpos := List.length_pos_iff.2 (next extended c cs).1.text_ne_nil
  simp only [List.length_append, List.length_cons] at happend
  omega

/-- Cut a body into pieces. -/
def ofBody (extended : Bool) : List Char → List Piece
  | [] => []
  | c :: cs => (next extended c cs).1 :: ofBody extended (next extended c cs).2
termination_by cs => cs.length
decreasing_by
  have := length_next_le extended c cs
  simp only [List.length_cons]
  omega

variable {extended : Bool} {c : Char} {as bs cs content rest : List Char}

/-- The texts of the pieces make up the body. -/
theorem flatMap_text_ofBody (extended : Bool) (cs : List Char) :
    (ofBody extended cs).flatMap text = cs := by
  fun_induction ofBody extended cs with
  | case1 => rfl
  | case2 c cs ih => rw [List.flatMap_cons, ih, text_append_next]

/-! ### One piece at a time -/

theorem ofBody_nil (extended : Bool) : ofBody extended [] = [] := by rw [ofBody]

theorem ofBody_lone (extended : Bool) : ofBody extended ['\\'] = [.char '\\'] := by
  rw [ofBody]
  exact congrArg (Piece.char '\\' :: ·) (ofBody_nil extended)

theorem ofBody_escape (c : Char) (cs : List Char) :
    ofBody extended ('\\' :: c :: cs) = .escape c :: ofBody extended cs := by
  rw [ofBody]
  rfl

theorem ofBody_bracket (h : FreeOf (· = ']') content) (rest : List Char) :
    ofBody extended ('[' :: content ++ ']' :: rest) =
      .bracket content :: ofBody extended rest := by
  have hread : next extended '[' (content ++ ']' :: rest) = (.bracket content, rest) := by
    change readBracket _ = _
    rw [readBracket, splitUnescaped_append (by decide) h]
  rw [List.cons_append, ofBody, hread]

theorem ofBody_openBracket (h : splitUnescaped ']' cs = none) :
    ofBody extended ('[' :: cs) = [.openBracket cs] := by
  have hread : next extended '[' cs = (.openBracket cs, []) := by
    change readBracket cs = _
    rw [readBracket, h]
  rw [ofBody, hread, ofBody_nil]

theorem ofBody_char (hc : c ≠ '\\' ∧ c ≠ '[')
    (hkept : extended = true → c ≠ '#' ∧ isBlank c = false) (cs : List Char) :
    ofBody extended (c :: cs) = .char c :: ofBody extended cs := by
  have hread : next extended c cs = (.char c, cs) := by
    rw [next, if_neg hc.1, if_neg hc.2]
    cases extended with
    | false => rfl
    | true => simp [hkept rfl]
  rw [ofBody, hread]

/-- Outside of extended bodies, only a backslash and a bracket are more than a character. -/
theorem ofBody_plains (has : ∀ c ∈ as, c ≠ '\\' ∧ c ≠ '[') (bs : List Char) :
    ofBody false (as ++ bs) = as.map .char ++ ofBody false bs := by
  induction as with
  | nil => rfl
  | cons a as ih =>
    obtain ⟨ha, has⟩ := List.forall_mem_cons.1 has
    rw [List.cons_append, ofBody_char ha (by simp), ih has]
    rfl

end Piece

/-! ### The pieces of a lexeme -/

namespace Lexeme

/-- A lexeme as pieces.  Apart from escapes, brackets, and what has no end of its own, each
    character is a piece. -/
def pieces : Lexeme → List Piece
  | .escaped c => [.escape c]
  | .bracket content quantifiers => .bracket content :: quantifiers.map .char
  | .unclosedBracket after => [.openBracket after]
  | .unknownGroup after => .char '(' :: Piece.ofBody false after
  | .plain c => [.char c]
  | .loneBackslash => [.char '\\']
  | .optionSetting options => ('(' :: '?' :: options ++ [')']).map .char
  | .opener _ text => text.map .char
  | .closer quantifiers => (')' :: quantifiers).map .char

theorem pieces_of_special {l : Lexeme} (h : Special l) : l.pieces = l.text.map .char := by
  cases h <;> rfl

theorem ofBody_pieces_readGroup (cs : List Char) :
    Piece.ofBody false ('(' :: cs) =
      (readGroup cs).1.pieces ++ Piece.ofBody false (readGroup cs).2 := by
  unfold readGroup
  split
  · rename_i inner
    cases hread : readSpecial inner with
    | none =>
      rw [Piece.ofBody_char (by decide) (by simp)]
      simp [pieces, Piece.ofBody_nil]
    | some r =>
      have hspecial := special_of_readSpecial hread
      obtain ⟨marks, htext, hmarks⟩ := isMarkChar_of_special hspecial
      have hplain : ∀ c ∈ r.1.text, c ≠ '\\' ∧ c ≠ '[' := by
        rw [htext]
        exact List.forall_mem_cons.2 ⟨by decide, fun c hc =>
          ⟨(ne_of_isMarkChar (hmarks c hc)).1, (ne_of_isMarkChar (hmarks c hc)).2.1⟩⟩
      rw [eq_of_readSpecial hread, Piece.ofBody_plains hplain, Option.getD_some,
        pieces_of_special hspecial]
  · exact Piece.ofBody_char (by decide) (by simp) cs

theorem ofBody_pieces_next (c : Char) (cs : List Char) :
    Piece.ofBody false (c :: cs) =
      (next c cs).1.pieces ++ Piece.ofBody false (next c cs).2 := by
  have hrepeats : ∀ {as : List Char}, (∀ c ∈ as, isRepeat c = true) →
      ∀ c ∈ as, c ≠ '\\' ∧ c ≠ '[' := fun has c hc =>
    ⟨(ne_of_isRepeat (has c hc)).1, (ne_of_isRepeat (has c hc)).2.1⟩
  unfold next
  split_ifs with hbackslash hbracket hgroup hcloser
  · rw [hbackslash]
    cases cs with
    | nil => rw [Piece.ofBody_lone, readEscape, Piece.ofBody_nil]; rfl
    | cons d ds => exact Piece.ofBody_escape d ds
  · rw [hbracket, readBracket]
    split
    · rename_i hnone
      rw [Piece.ofBody_openBracket hnone, Piece.ofBody_nil]
      rfl
    · rename_i content after hsplit
      have hquantifiers := Piece.ofBody_plains
        (hrepeats (isRepeat_splitClassQuantifiers after)) (splitClassQuantifiers after).2
      rw [splitClassQuantifiers_append] at hquantifiers
      rw [eq_append_of_splitUnescaped hsplit, ← List.cons_append,
        Piece.ofBody_bracket (freeOf_of_splitUnescaped hsplit), hquantifiers]
      rfl
  · rw [hgroup]
    exact ofBody_pieces_readGroup cs
  · have htaken : ∀ c ∈ cs.takeWhile isRepeat, isRepeat c = true := fun c hc =>
      List.all_eq_true.1 List.all_takeWhile c hc
    have hquantifiers := Piece.ofBody_plains (hrepeats htaken) (cs.dropWhile isRepeat)
    rw [List.takeWhile_append_dropWhile] at hquantifiers
    rw [hcloser, Piece.ofBody_char (by decide) (by simp), hquantifiers]
    rfl
  · exact Piece.ofBody_char ⟨hbackslash, hbracket⟩ (by simp) cs

/-- **The lexemes of a body are made of its pieces.** -/
theorem flatMap_pieces_ofBody (body : List Char) :
    (ofBody body).flatMap pieces = Piece.ofBody false body := by
  fun_induction ofBody body with
  | case1 => rw [Piece.ofBody_nil, List.flatMap_nil]
  | case2 c cs ih => rw [List.flatMap_cons, ih, ofBody_pieces_next]

end Lexeme

end RegexText
