/-
  RegexText/Proofs/Syntax/Lexing.lean
  ===================================
  **The text of a tree is cut where the tree is.**

  Cutting a body into lexemes knows nothing of trees: it scans for brackets and
  parentheses and takes quantifier characters along behind them.  The lexemes of
  a tree are computed from the tree alone, and `ofBody_text_append` says that
  they are the lexemes of its text, whatever follows, as long as what follows
  does not begin with a quantifier.
-/
import RegexText.Proofs.Syntax
import RegexText.Proofs.TokenStream.Run

namespace RegexText

open Text

/-! ### Single lexemes -/

namespace Lexeme

theorem ofBody_plain {c : Char} (hc : c ≠ '\\' ∧ c ≠ '[' ∧ c ≠ '(' ∧ c ≠ ')')
    (cs : List Char) : ofBody (c :: cs) = .plain c :: ofBody cs := by
  have hnext : next c cs = (.plain c, cs) := by
    simp only [next, if_neg hc.1, if_neg hc.2.1, if_neg hc.2.2.1, if_neg hc.2.2.2]
  rw [ofBody, hnext]

theorem next_bracket (cs : List Char) : next '[' cs = readBracket cs := rfl

theorem next_group (cs : List Char) : next '(' cs = readGroup cs := rfl

theorem next_closer (cs : List Char) :
    next ')' cs = (.closer (cs.takeWhile isRepeat), cs.dropWhile isRepeat) := rfl

theorem ofBody_escaped (c : Char) (cs : List Char) :
    ofBody ('\\' :: c :: cs) = .escaped c :: ofBody cs := by
  rw [ofBody]
  rfl

theorem ofBody_plains {cs : List Char}
    (h : ∀ c ∈ cs, c ≠ '\\' ∧ c ≠ '[' ∧ c ≠ '(' ∧ c ≠ ')') (rest : List Char) :
    ofBody (cs ++ rest) = cs.map .plain ++ ofBody rest := by
  induction cs with
  | nil => rfl
  | cons c cs ih =>
    rw [List.cons_append, ofBody_plain (h c (by simp)), ih fun d hd => h d (by simp [hd])]
    rfl

def ofRun : List Char → List Lexeme
  | [] => []
  | ['\\'] => [.loneBackslash]
  | '\\' :: c :: cs => .escaped c :: ofRun cs
  | c :: cs => .plain c :: ofRun cs

theorem ofRun_single {c : Char} (hc : c ≠ '\\') (cs : List Char) :
    ofRun (c :: cs) = .plain c :: ofRun cs := by
  rw [ofRun.eq_def]
  split <;> simp_all

theorem ofBody_run {cs : List Char} (h : FreeOf (fun c => c = '[' ∨ c = '(' ∨ c = ')') cs)
    (rest : List Char) : ofBody (cs ++ rest) = ofRun cs ++ ofBody rest := by
  induction h with
  | nil => rfl
  | pair c _ ih =>
    rw [List.cons_append, List.cons_append, ofBody_escaped, ih]
    rfl
  | single hc hbad _ ih =>
    simp only [not_or] at hbad
    rw [List.cons_append, ofBody_plain ⟨hc, hbad.1, hbad.2.1, hbad.2.2⟩, ih, ofRun_single hc]
    rfl

theorem flatMap_text_plain (cs : List Char) : (cs.map plain).flatMap text = cs := by
  induction cs with
  | nil => rfl
  | cons c cs ih =>
    rw [List.map_cons, List.flatMap_cons, ih]
    rfl

theorem flatMap_text_ofRun (cs : List Char) : (ofRun cs).flatMap text = cs := by
  fun_induction ofRun cs with
  | case1 => rfl
  | case2 => rfl
  | case3 c cs ih =>
    rw [List.flatMap_cons, ih]
    rfl
  | case4 c cs _ _ ih =>
    rw [List.flatMap_cons, ih]
    rfl

/-- The quantifier characters that a token takes up do not include what follows. -/
theorem takeWhile_isRepeat (q : Option Quantifier) {rest : List Char} (hrest : Fresh rest) :
    (Quantifier.text q ++ rest).takeWhile isRepeat = Quantifier.absorbed q ∧
      (Quantifier.text q ++ rest).dropWhile isRepeat = Quantifier.remaining q ++ rest := by
  have hhead : rest.takeWhile isRepeat = [] ∧ rest.dropWhile isRepeat = rest := by
    cases rest with
    | nil => exact ⟨rfl, rfl⟩
    | cons c cs =>
      have hfresh := fresh_cons.1 hrest
      have hc : isRepeat c = false := by simp [isRepeat, hfresh]
      simp [hc]
  cases q with
  | none => exact hhead
  | some q =>
    obtain ⟨r, m⟩ := q
    cases r <;> cases m <;>
      simp [Quantifier.text, Repetition.char, Manner.text, Quantifier.absorbed,
        Quantifier.remaining, isRepeat, hhead]

theorem splitClassQuantifiers_quantifier (q : Option Quantifier) {rest : List Char}
    (hrest : Fresh rest) :
    splitClassQuantifiers (Quantifier.text q ++ rest) =
      (Quantifier.absorbed q, Quantifier.remaining q ++ rest) := by
  have hhead : ∀ c, isRepeat c = true →
      splitClassQuantifiers (c :: rest) = ([c], rest) := by
    intro c hc
    simp only [splitClassQuantifiers, hc, if_true]
    split
    · rename_i cs
      exact absurd rfl (fresh_cons.1 hrest).2.1
    · rfl
  cases q with
  | none =>
    cases rest with
    | nil => rfl
    | cons c cs =>
      have hfresh := fresh_cons.1 hrest
      have hc : isRepeat c = false := by simp [isRepeat, hfresh]
      simp [Quantifier.text, splitClassQuantifiers, hc, Quantifier.absorbed,
        Quantifier.remaining]
  | some q =>
    obtain ⟨r, m⟩ := q
    cases m with
    | greedy =>
      cases r with
      | star => exact hhead '*' (by decide)
      | plus => exact hhead '+' (by decide)
      | optional => rfl
    | lazy => cases r <;> rfl
    | possessive => cases r <;> rfl

theorem ofBody_bracket {content : List Char} (h : FreeOf (· = ']') content)
    (q : Option Quantifier) {rest : List Char} (hrest : Fresh rest) :
    ofBody ('[' :: content ++ ']' :: (Quantifier.text q ++ rest)) =
      .bracket content (Quantifier.absorbed q) :: ofBody (Quantifier.remaining q ++ rest) := by
  have hsplit := splitUnescaped_append (by decide) h (Quantifier.text q ++ rest)
  have hread : readBracket (content ++ ']' :: (Quantifier.text q ++ rest)) =
      (.bracket content (Quantifier.absorbed q), Quantifier.remaining q ++ rest) := by
    simp only [readBracket, hsplit, splitClassQuantifiers_quantifier q hrest]
  rw [List.cons_append, ofBody, next_bracket, hread]

theorem ofBody_closer (q : Option Quantifier) {rest : List Char} (hrest : Fresh rest) :
    ofBody (')' :: (Quantifier.text q ++ rest)) =
      .closer (Quantifier.absorbed q) :: ofBody (Quantifier.remaining q ++ rest) := by
  obtain ⟨htake, hdrop⟩ := takeWhile_isRepeat q hrest
  rw [ofBody, next_closer, htake, hdrop]

theorem ofBody_opener {inner rest : List Char} {l : Lexeme}
    (h : readGroup (inner ++ rest) = (l, rest)) :
    ofBody ('(' :: inner ++ rest) = l :: ofBody rest := by
  rw [List.cons_append, ofBody, next_group, h]

theorem plain_quantifier (q : Option Quantifier) :
    ∀ c ∈ Quantifier.text q, c ≠ '\\' ∧ c ≠ '[' ∧ c ≠ '(' ∧ c ≠ ')' := by
  cases q with
  | none => simp [Quantifier.text]
  | some q =>
    obtain ⟨r, m⟩ := q
    cases r <;> cases m <;> simp [Quantifier.text, Repetition.char, Manner.text]

theorem plain_remaining (q : Option Quantifier) :
    ∀ c ∈ Quantifier.remaining q, c ≠ '\\' ∧ c ≠ '[' ∧ c ≠ '(' ∧ c ≠ ')' := by
  intro c hc
  apply plain_quantifier q c
  rw [← Quantifier.absorbed_append_remaining]
  exact List.mem_append_right _ hc

end Lexeme

/-! ### Texts that do not end inside a pair -/

theorem Spelling.Sound.complete {s : Spelling} (h : s.Sound) : Complete s.text := by
  cases s with
  | run text => exact h.2.2.complete
  | bracket content =>
    exact .single (by decide) id (FreeOf.append (FreeOf.complete h) (.single (by decide) id .nil))

theorem complete_quantifier (q : Option Quantifier) : Complete (Quantifier.text q) :=
  complete_of_forall fun c hc => (Lexeme.plain_quantifier q c hc).1

/-! ### The lexemes of a tree -/

def Spelling.lexemes (q : Option Quantifier) : Spelling → List Lexeme
  | .run text => Lexeme.ofRun text ++ (Quantifier.text q).map .plain
  | .bracket content =>
    .bracket content (Quantifier.absorbed q) :: (Quantifier.remaining q).map .plain

namespace Regex

variable {U G : Type} [Written U] [Marks G]

def lexemes : Regex U G → List Lexeme
  | .done => []
  | .unit u q next => (Written.spelling u).lexemes q ++ next.lexemes
  | .group g body q next =>
    .opener (Marks.opener g) (Marks.opening g) :: (body.lexemes ++
      .closer (Quantifier.absorbed q) :: ((Quantifier.remaining q).map .plain ++ next.lexemes))
  | .bar next => .plain '|' :: next.lexemes

theorem ofBody_spelling {s : Spelling} (h : s.Sound) (q : Option Quantifier)
    {rest : List Char} (hrest : Fresh rest) :
    Lexeme.ofBody (s.text ++ Quantifier.text q ++ rest) =
      s.lexemes q ++ Lexeme.ofBody rest := by
  cases s with
  | run text =>
    rw [Spelling.text, List.append_assoc, Lexeme.ofBody_run h.2.2,
      Lexeme.ofBody_plains (Lexeme.plain_quantifier q), Spelling.lexemes, List.append_assoc]
  | bracket content =>
    have htext : Spelling.text (.bracket content) ++ Quantifier.text q ++ rest =
        '[' :: content ++ ']' :: (Quantifier.text q ++ rest) := by
      simp [Spelling.text]
    rw [htext, Lexeme.ofBody_bracket h q hrest,
      Lexeme.ofBody_plains (Lexeme.plain_remaining q), Spelling.lexemes]
    rfl

/-- **The lexemes of a tree's text are those of the tree.** -/
theorem ofBody_text_append {r : Regex U G} (h : r.Sound) {rest : List Char}
    (hrest : Fresh rest) : Lexeme.ofBody (r.text ++ rest) = r.lexemes ++ Lexeme.ofBody rest := by
  induction r generalizing rest with
  | done => rfl
  | unit u q next ih =>
    have hnext : next.Sound := h.2
    rw [text, List.append_assoc, ofBody_spelling h.1 q (hnext.fresh hrest), ih hnext hrest,
      lexemes, List.append_assoc]
  | group g body q next ihb ihn =>
    obtain ⟨⟨inner, hopening, hread⟩, hbody, hnext⟩ := h
    have hafter : Fresh (')' :: (Quantifier.text q ++ (next.text ++ rest))) :=
      fresh_cons.2 (by decide)
    have hfresh : Fresh (body.text ++ ')' :: (Quantifier.text q ++ (next.text ++ rest))) :=
      Sound.fresh hbody hafter
    have htext : (Regex.group g body q next).text ++ rest =
        '(' :: inner ++ (body.text ++ ')' :: (Quantifier.text q ++ (next.text ++ rest))) := by
      simp [text, hopening]
    rw [htext, Lexeme.ofBody_opener (hread _ hfresh), ihb hbody hafter,
      Lexeme.ofBody_closer q (Sound.fresh hnext hrest),
      Lexeme.ofBody_plains (Lexeme.plain_remaining q), ihn hnext hrest]
    simp [lexemes]
  | bar next ih =>
    rw [text, List.cons_append, Lexeme.ofBody_plain (by decide), ih h hrest]
    rfl

theorem ofBody_text {r : Regex U G} (h : r.Sound) : Lexeme.ofBody r.text = r.lexemes := by
  have hlex := ofBody_text_append h fresh_nil
  rw [List.append_nil] at hlex
  rw [hlex, Lexeme.ofBody, List.append_nil]

theorem flatMap_text_lexemes {r : Regex U G} (h : r.Sound) :
    r.lexemes.flatMap Lexeme.text = r.text := by
  rw [← ofBody_text h, Lexeme.flatMap_text_ofBody]

end Regex

end RegexText
