/-
  RegexText/Proofs/Regular/Optional.lean
  ======================================
  **A question mark binds to the whole of an expression.**

  Whether an expression can take a quantifier as it stands is read off its
  tokens: the first token must be a bracket expression that reaches to the end of
  the text, or the start of a group whose end does.  The tokens of a tree are
  known, so the test says that the tree is a single item.  When it fails, for
  whatever reason, the expression is wrapped, which is always right.

  The one text on which the test errs is a lone bar, two empty alternatives: one
  character, which it takes for a symbol.
-/
import RegexText.Chain.Alternation
import RegexText.Proofs.Regular.Reading
import RegexText.Proofs.TokenStream.Tree

namespace RegexText.Regular

open Text TokenStream

/-! ### Texts of single items -/

/-- Is an expression one unit or one group, without a quantifier? -/
inductive IsItem : Expression → Prop where
  | unit (u : Matcher) : IsItem (.unit u none .done)
  | group (g : Mark) (body : Expression) : IsItem (.group g body none .done)

theorem isItem_unit {u : Matcher} {q : Option Quantifier} {next : Expression}
    (hnext : next.Sound) (h : Quantifier.text q ++ next.text = []) :
    IsItem (.unit u q next) := by
  obtain ⟨hq, htext⟩ := List.append_eq_nil_iff.1 h
  rw [Quantifier.text_eq_nil.1 hq, hnext.eq_done htext]
  exact .unit u

theorem isItem_group {g : Mark} {body : Expression} {q : Option Quantifier} {next : Expression}
    (hnext : next.Sound) (h : Quantifier.text q ++ next.text = []) :
    IsItem (.group g body q next) := by
  obtain ⟨hq, htext⟩ := List.append_eq_nil_iff.1 h
  rw [Quantifier.text_eq_nil.1 hq, hnext.eq_done htext]
  exact .group g body

/-- A text of one character that is not a bar is a single unit. -/
theorem isItem_of_text_single {r : Expression} (hr : r.Sound) (hbar : r ≠ .bar .done)
    {c : Char} (h : r.text = [c]) : IsItem r := by
  cases r with
  | done => cases h
  | unit u q next =>
    have hsound : u.spelling.Sound := hr.1
    have hne := hsound.text_ne_nil
    obtain ⟨d, cs, hspelling⟩ := List.exists_cons_of_ne_nil hne
    have htext : d :: cs ++ Quantifier.text q ++ next.text = [c] := hspelling ▸ h
    refine isItem_unit hr.2 ?_
    simp only [List.cons_append, List.cons.injEq, List.append_eq_nil_iff] at htext
    simp [htext]
  | group g body q next =>
    have hlength := congrArg List.length h
    cases g <;> simp [Regex.text, Marks.opening, Mark.opening] at hlength
  | bar next =>
    have hnext : next.Sound := hr
    simp only [Regex.text, List.cons.injEq] at h
    rw [hnext.eq_done h.2] at hbar
    exact absurd rfl hbar

theorem isItem_of_text_escape {r : Expression} (hr : r.Sound) {c : Char}
    (h : r.text = ['\\', c]) : IsItem r := by
  cases r with
  | done => cases h
  | unit u q next =>
    have htext : u.spelling.text ++ Quantifier.text q ++ next.text = ['\\', c] := h
    cases u with
    | char d =>
      -- a backslash by itself would escape what follows it
      have hsound : (Matcher.char d).spelling.Sound := hr.1
      simp only [Matcher.spelling, Spelling.text, List.cons_append, List.cons.injEq] at htext
      rw [Matcher.spelling, htext.1] at hsound
      cases hsound.2.2 with
      | single hd => exact absurd rfl hd
    | escaped d =>
      refine isItem_unit hr.2 ?_
      simp only [Matcher.spelling, Spelling.text, List.cons_append, List.cons.injEq,
        List.nil_append] at htext
      exact htext.2.2
    | nul => simp [Matcher.spelling, Spelling.text] at htext
    | dot => simp [Matcher.spelling, Spelling.text] at htext
    | shorthand s negated =>
      refine isItem_unit hr.2 ?_
      simp only [Matcher.spelling, Spelling.text, List.cons_append, List.cons.injEq,
        List.nil_append] at htext
      exact htext.2.2
    | bracket content => simp [Matcher.spelling, Spelling.text] at htext
  | group g body q next => cases g <;> simp [Regex.text, Marks.opening, Mark.opening] at h
  | bar next => simp [Regex.text] at h

/-! ### Tokens of single items -/

/-- What stands behind an item is read without a change to the tokens before it. -/
theorem keeps_behind {limit : Nat} {s s' : State} {q : Option Quantifier} {next : Expression}
    (h : Reads limit s ((Quantifier.remaining q).map .plain ++ next.lexemes) s') :
    Keeps s s' := by
  obtain ⟨mid, hremaining, hnext⟩ := reads_append.1 h
  exact (hremaining.keeps_of_literal fun l hl => isLiteral_of_mem_plain hl).trans
    (Regex.keeps_of_reads hnext)

/-- What the test for single units finds. -/
theorem cases_of_isSingleUnit {size : Nat} {tokens : List Token}
    (h : Chain.isSingleUnit size tokens = true) :
    (∃ first content, tokens = [first] ∧ first.item = .characterClass content "" ∧
        first.stop = size) ∨
      ∃ first last opener kind start, tokens.head? = some first ∧ tokens.getLast? = some last ∧
        first.item = .groupStart opener (tokens.length - 1) ∧ opener.kind = .nonCapturing ∧
        last.item = .groupEnd kind start "" ∧ last.stop = size := by
  unfold Chain.isSingleUnit at h
  split at h
  · rename_i first last hfirst hlast
    split at h
    · rename_i content quantifiers hitem
      simp only [Bool.and_eq_true, beq_iff_eq, String.isEmpty_iff] at h
      obtain ⟨⟨hlength, hstop⟩, rfl⟩ := h
      obtain ⟨only, rfl⟩ := List.length_eq_one_iff.1 hlength
      cases hfirst
      exact .inl ⟨first, content, rfl, hitem, hstop⟩
    · rename_i opener endToken hitem
      simp only [Bool.and_eq_true, beq_iff_eq] at h
      obtain ⟨⟨⟨hkind, rfl⟩, hstop⟩, hquantifiers⟩ := h
      split at hquantifiers
      · rename_i kind start quantifiers hend
        rw [String.isEmpty_iff.1 hquantifiers] at hend
        exact .inr ⟨first, last, opener, kind, start, hfirst, hlast, hitem, hkind, hend, hstop⟩
      · cases hquantifiers
    · cases h
  · cases h

theorem isItem_of_bracket {limit : Nat} {u : Matcher} {content : List Char}
    (hu : Written.spelling u = .bracket content) {q : Option Quantifier} {next : Expression}
    (hnext : next.Sound) {s : State}
    (hreads : Reads limit .initial (Regex.unit u q next : Expression).lexemes s)
    (h : Chain.isSingleUnit (byteLength (Regex.unit u q next : Expression).text)
      s.tokens.toList = true) : IsItem (.unit u q next) := by
  rw [Regex.lexemes, hu] at hreads
  obtain ⟨mid, hmove, hrest⟩ := reads_cons.1 hreads
  cases hmove with
  | skip hliteral => simp [Lexeme.isLiteral] at hliteral
  | emit hitem =>
    cases hitem
    have hkept := (keeps_behind hrest).tokens 0 (by simp)
    simp only [State.emit, State.initial, List.push_toArray, List.nil_append,
      List.getElem?_toArray, List.getElem?_cons_zero] at hkept
    rcases cases_of_isSingleUnit h with
      ⟨first, _, htokens, hitem, hstop⟩ | ⟨first, _, _, _, _, hfirst, _, hitem, _, _, _⟩
    · rw [← Array.getElem?_toList, htokens, List.getElem?_cons_zero, Option.some.injEq] at hkept
      subst hkept
      simp only [TokenItem.characterClass.injEq, String.ofList_eq_empty_iff] at hitem
      apply isItem_unit hnext
      apply eq_nil_of_byteLength
      simp only [Token.stop, Lexeme.text, hitem.2, Regex.text, hu, Spelling.text,
        byteLength_append, byteLength_cons, byteLength_nil] at hstop ⊢
      omega
    · rw [List.head?_eq_getElem?, Array.getElem?_toList, hkept, Option.some.injEq] at hfirst
      rw [← hfirst] at hitem
      cases hitem

theorem isItem_of_group {limit : Nat} {g : Mark} {body : Expression} {q : Option Quantifier}
    {next : Expression} (hr : (Regex.group g body q next).Sound) {s : State}
    (hreads : Reads limit .initial (Regex.group g body q next).lexemes s)
    (h : Chain.isSingleUnit (byteLength (Regex.group g body q next).text)
      s.tokens.toList = true) : IsItem (.group g body q next) := by
  have hpos : s.pos = byteLength (Regex.group g body q next).text := by
    rw [hreads.layout.1, Regex.flatMap_text_lexemes hr]
    exact Nat.zero_add _
  obtain ⟨inner, after, hafter, hrest, _, _, hstart⟩ :=
    Reads.group (fun _ _ => Regex.keeps_of_reads) hreads
  have hkeeps := keeps_behind hrest
  have hsize : after.tokens.size = inner.tokens.size + 1 := by rw [hafter, State.closed_size]
  have hclosed : after.tokens[inner.tokens.size]? = some ⟨inner.pos,
      byteLength (')' :: Quantifier.absorbed q),
      .groupEnd (Marks.opener g).kind 0 (String.ofList (Quantifier.absorbed q))⟩ := by
    rw [hafter, State.getElem?_closed_size]
    rfl
  have hfirst : s.itemAt? 0 = some (.groupStart (Marks.opener g) inner.tokens.size) := by
    rw [hkeeps.itemAt? (by omega)]
    exact hstart
  rcases cases_of_isSingleUnit h with
    ⟨first, content, htokens, hitem, _⟩ |
    ⟨first, last, _, _, _, hhead, hlast, hitem, _, hend, hstop⟩
  · rw [State.itemAt?, ← Array.getElem?_toList, htokens] at hfirst
    simp [hitem] at hfirst
  · -- the end of the group is the last token, and it reaches to the end of the text
    rw [State.itemAt?, ← Array.getElem?_toList, ← List.head?_eq_getElem?, hhead,
      Option.map_some, hitem, Option.some.injEq, TokenItem.groupStart.injEq] at hfirst
    rw [List.getLast?_eq_getElem?, hfirst.2, Array.getElem?_toList, hkeeps.tokens _ (by omega),
      hclosed, Option.some.injEq] at hlast
    subst hlast
    simp only [TokenItem.groupEnd.injEq, String.ofList_eq_empty_iff] at hend
    have hpos' : after.pos = inner.pos + byteLength (')' :: Quantifier.absorbed q) := by
      rw [hafter]
      rfl
    have hlayout := hrest.layout.1
    rw [List.flatMap_append, Lexeme.flatMap_text_plain,
      Regex.flatMap_text_lexemes hr.2.2, hpos] at hlayout
    simp only [Token.stop] at hstop
    apply isItem_group hr.2.2
    apply eq_nil_of_byteLength
    rw [← Quantifier.absorbed_append_remaining, hend.2.2, List.nil_append]
    omega

/-! ### The test and its use -/

/-- The test whether an expression is atomic has an answer for every text. -/
theorem exists_outcome_isAtomic (e : String) : ∃ b, (Chain.isAtomic e).outcome = .ok b := by
  unfold Chain.isAtomic
  split
  · exact ⟨false, rfl⟩
  · exact ⟨true, rfl⟩
  · rename_i b c rest _
    split_ifs with hescape hbracket
    · exact ⟨true, rfl⟩
    · rw [Traced.outcome_bind, Traced.outcome_attempt]
      cases (tokenize defaultGroupDepth (b :: c :: rest)).outcome with
      | error e => exact ⟨false, rfl⟩
      | ok tokens => exact ⟨_, rfl⟩
    · exact ⟨false, rfl⟩

/-- **What passes the test is a single item.** -/
theorem isItem_of_isAtomic {r : Expression} (hr : r.Sound) (hbar : r ≠ .bar .done)
    {e : String} (htext : r.text = e.toList) (h : (Chain.isAtomic e).outcome = .ok true) :
    IsItem r := by
  unfold Chain.isAtomic at h
  split at h
  · cases h
  · rename_i c he
    exact isItem_of_text_single hr hbar (htext.trans he)
  · rename_i b c rest he
    rw [he] at htext
    split_ifs at h with hescape hbracket
    · obtain ⟨rfl, rfl⟩ := hescape
      exact isItem_of_text_escape hr htext
    · rw [Traced.outcome_bind, Traced.outcome_attempt] at h
      cases htokens : (tokenize defaultGroupDepth (b :: c :: rest)).outcome with
      | error e =>
        rw [htokens] at h
        cases h
      | ok tokens =>
        rw [htokens] at h
        have hunit : Chain.isSingleUnit (byteLength r.text) tokens = true := by
          rw [htext]
          exact Except.ok.inj h
        obtain ⟨s, hreads, _, hs⟩ := tokenize_eq_ok_iff.1 htokens
        rw [← htext, Regex.ofBody_text hr] at hreads
        subst hs
        cases r with
        | done => cases htext
        | unit u q next =>
          have hsound : (Written.spelling u).Sound := hr.1
          cases hu : Written.spelling u with
          | run text =>
            -- what is not between brackets does not begin with one
            rw [hu] at hsound
            obtain ⟨d, cs, rfl⟩ := List.exists_cons_of_ne_nil hsound.1
            rw [Regex.text, hu] at htext
            have hd : d = b := (List.cons.inj htext).1
            have hno := hsound.2.2.not_head (by decide)
            rw [hd] at hno
            rcases hbracket with hb | hb
            · exact absurd (.inl hb) hno
            · exact absurd (.inr (.inl hb)) hno
          | bracket content => exact isItem_of_bracket hu hr.2 hreads hunit
        | group g body q next => exact isItem_of_group hr hreads hunit
        | bar next =>
          simp only [Regex.text, List.cons.injEq] at htext
          rcases hbracket with rfl | rfl
          · exact absurd htext.1 (by decide)
          · exact absurd htext.1 (by decide)
    · cases h

/-! ### Optional expressions -/

def optional : Quantifier := ⟨.optional, .greedy⟩

/-- The second expression makes the first one optional, all of it: the question mark stands
    behind the item that the first one is, or behind a group around it. -/
inductive MakesOptional : Expression → Expression → Prop where
  | unit (u : Matcher) : MakesOptional (.unit u none .done) (.unit u (some optional) .done)
  | group (g : Mark) (body : Expression) :
      MakesOptional (.group g body none .done) (.group g body (some optional) .done)
  | wrapped (r : Expression) :
      MakesOptional r (.group .nonCapturing r (some optional) .done)

namespace MakesOptional

variable {r s : Expression}

theorem language_eq (h : MakesOptional r s) (D : Dialect) :
    language D s = 1 + language D r := by
  cases h with
  | unit u => rw [language_unit, language_unit]; rfl
  | group g body => rw [language_group, language_group]; rfl
  | wrapped => rw [language_group]; rfl

theorem isSequence (h : MakesOptional r s) : s.IsSequence := by
  cases h <;> trivial

theorem within {F : Fragment} (hF : F.Closed) (hr : Within F r) (h : MakesOptional r s) :
    Within F s := by
  cases h with
  | unit u => exact ⟨hF.optional_unit u hr.1, trivial⟩
  | group g body => exact ⟨hF.optional_group g hr.1, hr.2.1, trivial⟩
  | wrapped => exact ⟨hF.optional_group _ hF.wrap, hr, trivial⟩

end MakesOptional

/-- **An expression is made optional as a whole.** -/
theorem exists_makesOptional {r : Expression} (hr : r.Sound) (hbar : r ≠ .bar .done)
    {e : String} (htext : r.text = e.toList) :
    ∃ s e', (Chain.makeOptional e).outcome = .ok e' ∧ MakesOptional r s ∧
      s.text = e'.toList := by
  obtain ⟨b, hb⟩ := exists_outcome_isAtomic e
  unfold Chain.makeOptional
  rw [Traced.outcome_bind, hb]
  cases b with
  | true =>
    have htext' : r.text ++ ['?'] = (e ++ "?").toList := by
      rw [htext, String.toList_append]
      rfl
    cases isItem_of_isAtomic hr hbar htext hb with
    | unit u =>
      refine ⟨_, e ++ "?", rfl, .unit u, ?_⟩
      rw [← htext']
      simp [Regex.text, optional, Quantifier.text, Repetition.char, Manner.text]
    | group g body =>
      refine ⟨_, e ++ "?", rfl, .group g body, ?_⟩
      rw [← htext']
      simp [Regex.text, optional, Quantifier.text, Repetition.char, Manner.text]
  | false =>
    refine ⟨_, "(?:" ++ e ++ ")?", rfl, .wrapped r, ?_⟩
    rw [String.toList_append, String.toList_append, ← htext]
    simp [Regex.text, Marks.opening, Mark.opening, optional, Quantifier.text, Repetition.char,
      Manner.text]

end RegexText.Regular
