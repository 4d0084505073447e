/-
  RegexText/Lexeme.lean
  =====================
  **A pattern body, cut into lexemes without losing a character.**

  Reading from the left, a body falls into backslash pairs, bracket expressions,
  option settings, group openers, closing parentheses and single characters.  A
  bracket that is never closed and a group opener of no known kind are lexemes
  too: they take the rest of the body along, so that every text can be cut.

  The order in which a `(?` is tried matters.  A run of option letters that is
  closed at once is a setting; then come the named captures, which may begin
  with a letter as well; then a run of letters before a colon.

  Main statement: the texts of the lexemes, put together, are the body.
-/
import RegexText.Text.Escape
import RegexText.Token

namespace RegexText

open Text

/-- A piece of a pattern body. -/
inductive Lexeme where
  | plain (c : Char)
  /-- A backslash and the character after it. -/
  | escaped (c : Char)
  /-- A backslash at the end of the body. -/
  | loneBackslash
  /-- A bracket expression and its quantifier characters. -/
  | bracket (content quantifiers : List Char)
  | optionSetting (options : List Char)
  /-- The opening of a group, as it is spelled in `text`. -/
  | opener (opener : Opener) (text : List Char)
  /-- A closing parenthesis and its quantifier characters. -/
  | closer (quantifiers : List Char)
  /-- An opening bracket without its partner; `after` is the rest of the body. -/
  | unclosedBracket (after : List Char)
  /-- An opening parenthesis and a question mark that begin nothing known; `after` is
      what follows the parenthesis. -/
  | unknownGroup (after : List Char)
deriving DecidableEq, Repr

namespace Lexeme

/-- The characters that a lexeme takes up. -/
def text : Lexeme → List Char
  | .plain c => [c]
  | .escaped c => ['\\', c]
  | .loneBackslash => ['\\']
  | .bracket content quantifiers => '[' :: content ++ ']' :: quantifiers
  | .optionSetting options => '(' :: '?' :: options ++ [')']
  | .opener _ text => text
  | .closer quantifiers => ')' :: quantifiers
  | .unclosedBracket after => '[' :: after
  | .unknownGroup after => '(' :: after

/-! ### Character classes of the grammar -/

/-- The letters that name options, and the hyphen that switches options off. -/
def isOptionLetter (c : Char) : Bool := c.isAlpha || c == '-'

/-- The characters of a name. -/
def isNameChar (c : Char) : Bool := c.isAlphanum || c == '_'

/-- The quantifier characters that a token takes up. -/
def isRepeat (c : Char) : Bool := c == '+' || c == '*'

/-! ### Reading -/

/-- The quantifiers of a bracket expression, and the rest: one repetition, and one more
    `+` that makes it possessive. -/
def splitClassQuantifiers : List Char → List Char × List Char
  | [] => ([], [])
  | c :: cs =>
    if isRepeat c then
      match cs with
      | '+' :: cs => ([c, '+'], cs)
      | cs => ([c], cs)
    else ([], c :: cs)

/-- A name that is followed by `close`, and what comes after that. -/
def readIdentifier (close : Char) (cs : List Char) : Option (List Char × List Char) :=
  match cs.takeWhile isNameChar, cs.dropWhile isNameChar with
  | first :: more, c :: rest =>
    if !first.isDigit && c == close then some (first :: more, rest) else none
  | _, _ => none

/-- A name between `front` and `close`, its whole spelling, and the rest. -/
def readSpelled (front : List Char) (close : Char) (cs : List Char) :
    Option (List Char × List Char × List Char) :=
  (readIdentifier close cs).map fun (name, rest) => (name, front ++ name ++ [close], rest)

/-- A name in one of its three spellings, the spelling, and the rest. -/
def readName : List Char → Option (List Char × List Char × List Char)
  | 'P' :: '<' :: cs => readSpelled ['P', '<'] '>' cs
  | '<' :: cs => readSpelled ['<'] '>' cs
  | '\'' :: cs => readSpelled ['\''] '\'' cs
  | _ => none

/-- An atomic group or an assertion, and the rest. -/
def readMarked : List Char → Option (Lexeme × List Char)
  | '>' :: cs => some (.opener .atomic ['(', '?', '>'], cs)
  | '=' :: cs => some (.opener (.assertion .ahead false) ['(', '?', '='], cs)
  | '!' :: cs => some (.opener (.assertion .ahead true) ['(', '?', '!'], cs)
  | '<' :: '=' :: cs => some (.opener (.assertion .behind false) ['(', '?', '<', '='], cs)
  | '<' :: '!' :: cs => some (.opener (.assertion .behind true) ['(', '?', '<', '!'], cs)
  | _ => none

/-- What a `(?` opens or sets, and the rest. -/
def readSpecial (cs : List Char) : Option (Lexeme × List Char) :=
  let letters := cs.takeWhile isOptionLetter
  let after := cs.dropWhile isOptionLetter
  match after with
  | ')' :: rest => some (.optionSetting letters, rest)
  | _ =>
    match readName cs with
    | some (name, spelling, rest) =>
      some (.opener (.capturing (some (String.ofList name))) ('(' :: '?' :: spelling), rest)
    | none =>
      match after with
      | ':' :: rest =>
        some (.opener (.nonCapturing (String.ofList letters)) ('(' :: '?' :: letters ++ [':']),
          rest)
      | _ => readMarked cs

/-- The lexeme of a backslash before `cs`, and the rest. -/
def readEscape : List Char → Lexeme × List Char
  | [] => (.loneBackslash, [])
  | c :: cs => (.escaped c, cs)

/-- The lexeme of an opening bracket before `cs`, and the rest. -/
def readBracket (cs : List Char) : Lexeme × List Char :=
  match splitUnescaped ']' cs with
  | none => (.unclosedBracket cs, [])
  | some (content, after) =>
    let (quantifiers, rest) := splitClassQuantifiers after
    (.bracket content quantifiers, rest)

/-- The lexeme of an opening parenthesis before `cs`, and the rest. -/
def readGroup (cs : List Char) : Lexeme × List Char :=
  match cs with
  | '?' :: inner => (readSpecial inner).getD (.unknownGroup cs, [])
  | _ => (.opener (.capturing none) ['('], cs)

/-- The lexeme that starts with `c`, and the rest of the text. -/
def next (c : Char) (cs : List Char) : Lexeme × List Char :=
  if c = '\\' then readEscape cs
  else if c = '[' then readBracket cs
  else if c = '(' then readGroup cs
  else if c = ')' then (.closer (cs.takeWhile isRepeat), cs.dropWhile isRepeat)
  else (.plain c, cs)

/-! ### Nothing is lost -/

theorem splitClassQuantifiers_append (cs : List Char) :
    (splitClassQuantifiers cs).1 ++ (splitClassQuantifiers cs).2 = cs := by
  unfold splitClassQuantifiers
  split
  · rfl
  · split
    · split <;> rfl
    · rfl

theorem eq_of_readIdentifier {close : Char} {cs name rest : List Char}
    (h : readIdentifier close cs = some (name, rest)) : cs = name ++ close :: rest := by
  have hsplit := List.takeWhile_append_dropWhile (p := isNameChar) (l := cs)
  unfold readIdentifier at h
  split at h
  · rename_i first more c after htake hdrop
    split at h
    · rename_i hc
      obtain ⟨rfl, rfl⟩ := Prod.mk.inj (Option.some.inj h)
      rw [htake, hdrop] at hsplit
      simp only [Bool.and_eq_true, beq_iff_eq] at hc
      rw [← hsplit, hc.2]
    · simp at h
  · simp at h

theorem eq_of_readSpelled {front cs name spelling rest : List Char} {close : Char}
    (h : readSpelled front close cs = some (name, spelling, rest)) :
    front ++ cs = spelling ++ rest := by
  obtain ⟨⟨found, after⟩, hi, he⟩ := Option.map_eq_some_iff.1 h
  cases he
  simp [eq_of_readIdentifier hi]

theorem eq_of_readName {cs name spelling rest : List Char}
    (h : readName cs = some (name, spelling, rest)) : cs = spelling ++ rest := by
  unfold readName at h
  split at h
  · exact eq_of_readSpelled h
  · exact eq_of_readSpelled h
  · exact eq_of_readSpelled h
  · cases h

theorem eq_of_readMarked {cs rest : List Char} {l : Lexeme}
    (h : readMarked cs = some (l, rest)) : '(' :: '?' :: cs = l.text ++ rest := by
  unfold readMarked at h
  split at h <;> cases h <;> rfl

theorem eq_of_readSpecial {cs rest : List Char} {l : Lexeme}
    (h : readSpecial cs = some (l, rest)) : '(' :: '?' :: cs = l.text ++ rest := by
  have hsplit := List.takeWhile_append_dropWhile (p := isOptionLetter) (l := cs)
  unfold readSpecial at h
  simp only at h
  split at h
  · rename_i after hafter
    obtain ⟨rfl, rfl⟩ := Prod.mk.inj (Option.some.inj h)
    rw [hafter] at hsplit
    rw [← hsplit]
    simp [text, hsplit]
  · split at h
    · rename_i hname
      obtain ⟨rfl, rfl⟩ := Prod.mk.inj (Option.some.inj h)
      simp [text, eq_of_readName hname]
    · split at h
      · rename_i hafter
        obtain ⟨rfl, rfl⟩ := Prod.mk.inj (Option.some.inj h)
        rw [hafter] at hsplit
        rw [← hsplit]
        simp [text, hsplit]
      · exact eq_of_readMarked h

theorem text_append_readEscape (cs : List Char) :
    (readEscape cs).1.text ++ (readEscape cs).2 = '\\' :: cs := by
  cases cs <;> rfl

theorem text_append_readBracket (cs : List Char) :
    (readBracket cs).1.text ++ (readBracket cs).2 = '[' :: cs := by
  unfold readBracket
  split
  · simp [text]
  · rename_i content after hs
    have hq := splitClassQuantifiers_append after
    simp [text, hq, eq_append_of_splitUnescaped hs]

theorem text_append_readGroup (cs : List Char) :
    (readGroup cs).1.text ++ (readGroup cs).2 = '(' :: cs := by
  unfold readGroup
  split
  · rename_i inner
    cases hr : readSpecial inner with
    | none => simp [text]
    | some r => exact (eq_of_readSpecial hr).symm
  · rfl

/-- A lexeme and the rest after it make up the text. -/
theorem text_append_next (c : Char) (cs : List Char) :
    (next c cs).1.text ++ (next c cs).2 = c :: cs := by
  unfold next
  split
  · rename_i hc
    rw [hc, text_append_readEscape]
  · split
    · rename_i hc
      rw [hc, text_append_readBracket]
    · split
      · rename_i hc
        rw [hc, text_append_readGroup]
      · split
        · rename_i hc
          simp [text, hc]
        · rfl

theorem text_ne_nil_of_readMarked {cs rest : List Char} {l : Lexeme}
    (h : readMarked cs = some (l, rest)) : l.text ≠ [] := by
  unfold readMarked at h
  split at h <;> cases h <;> simp [text]

theorem text_ne_nil_of_readSpecial {cs rest : List Char} {l : Lexeme}
    (h : readSpecial cs = some (l, rest)) : l.text ≠ [] := by
  unfold readSpecial at h
  simp only at h
  split at h
  · obtain ⟨rfl, rfl⟩ := Prod.mk.inj (Option.some.inj h)
    simp [text]
  · split at h
    · obtain ⟨rfl, rfl⟩ := Prod.mk.inj (Option.some.inj h)
      simp [text]
    · split at h
      · obtain ⟨rfl, rfl⟩ := Prod.mk.inj (Option.some.inj h)
        simp [text]
      · exact text_ne_nil_of_readMarked h

theorem text_readGroup_ne_nil (cs : List Char) : (readGroup cs).1.text ≠ [] := by
  unfold readGroup
  split
  · rename_i inner
    cases hr : readSpecial inner with
    | none => simp [text]
    | some r => exact text_ne_nil_of_readSpecial hr
  · simp [text]

/-- Every lexeme takes up at least one character. -/
theorem text_next_ne_nil (c : Char) (cs : List Char) : (next c cs).1.text ≠ [] := by
  unfold next
  split
  · cases cs <;> simp [readEscape, text]
  · split
    · unfold readBracket
      split <;> simp [text]
    · split
      · exact text_readGroup_ne_nil cs
      · split <;> simp [text]

/-- Reading a lexeme makes progress. -/
theorem length_next_le (c : Char) (cs : List Char) : (next c cs).2.length ≤ cs.length := by
  have happend := congrArg List.length (text_append_next c cs)
  have hpos := List.length_pos_iff.2 (text_next_ne_nil c cs)
  simp only [List.length_append, List.length_cons] at happend
  omega

/-! ### All lexemes of a body -/

/-- Cut a body into lexemes. -/
def ofBody : List Char → List Lexeme
  | [] => []
  | c :: cs => (next c cs).1 :: ofBody (next c cs).2
termination_by cs => cs.length
decreasing_by
  have := length_next_le c cs
  simp only [List.length_cons]
  omega

/-- The texts of the lexemes make up the body. -/
theorem flatMap_text_ofBody (cs : List Char) : (ofBody cs).flatMap text = cs := by
  fun_induction ofBody cs with
  | case1 => rfl
  | case2 c cs ih => rw [List.flatMap_cons, ih, text_append_next]

end Lexeme

end RegexText
