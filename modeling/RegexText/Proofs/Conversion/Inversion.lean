/-
  RegexText/Proofs/Conversion/Inversion.lean
  ==========================================
  **What a successful conversion must have done.**

  `Expands`, `Rewrites` and `Carries` say what texts of a known form become.
  Here nothing is known of a text but that it was converted: `Expansion` and
  `Converts` list the ways in which that can have come about.  Category escapes
  and references are read by scanners of their own, and whatever these take is
  free of backslashes, so the text behind it is cut where the text itself is.
-/
import RegexText.Proofs.Conversion.Tokens

namespace RegexText

open Text

/-! ### Category escapes -/

namespace CategoryEscape

theorem ne_backslash_of_isCategoryChar {c : Char} (h : Source.isCategoryChar c = true) :
    c ≠ '\\' := Source.ne_of_apply h (by decide)

theorem ne_backslash_of_named? {name : List Char} {categories : List Unicode.Category}
    (h : Unicode.Category.named? (String.ofList name) = some categories) :
    ∀ c ∈ name, c ≠ '\\' := by
  have hall := (Source.name_of_named? h).2
  rw [String.toList_ofList] at hall
  exact fun c hc => ne_backslash_of_isCategoryChar (List.all_eq_true.1 hall c hc)

/-- What holds of a name and of the signs around it holds of an escape behind its letter. -/
theorem append_of_readName {P : Char → Prop} (hsigns : P '{' ∧ P '}' ∧ P '^')
    {whole cs name spelling rest : List Char} {caret : Bool}
    (h : readName whole cs = .ok (caret, name, spelling, rest)) (hname : ∀ c ∈ name, P c) :
    cs = spelling ++ rest ∧ ∀ c ∈ spelling, P c := by
  obtain ⟨hopen, hclose, hcircumflex⟩ := hsigns
  unfold readName at h
  split at h
  · cases h
  · rename_i cs
    split at h
    · cases h
    · rename_i d behind hdrop
      simp only [Except.ok.injEq, Prod.mk.injEq] at h
      obtain ⟨_, hcaret, rfl, rfl⟩ := h
      have hd : d = '}' := by
        simpa [hdrop] using List.head?_dropWhile_not (· != '}') cs
      have hsplit := List.takeWhile_append_dropWhile (p := (· != '}')) (l := cs)
      have hinner : ∀ c ∈ cs.takeWhile (· != '}'), P c := by
        unfold splitCaret at hcaret
        split at hcaret
        · rename_i inner heq
          cases hcaret
          rw [heq]
          exact List.forall_mem_cons.2 ⟨hcircumflex, hname⟩
        · cases hcaret
          exact hname
      rw [hdrop, hd] at hsplit
      refine ⟨by simp [hsplit], ?_⟩
      exact List.forall_mem_append.2 ⟨List.forall_mem_cons.2 ⟨hopen, hinner⟩,
        List.forall_mem_singleton.2 hclose⟩
  · simp only [Except.ok.injEq, Prod.mk.injEq] at h
    obtain ⟨_, rfl, rfl, rfl⟩ := h
    exact ⟨rfl, hname⟩

/-- An escape has the characters of category names behind its letter, and signs around them. -/
theorem exists_spelled_of_read {P : Char → Prop} (hsigns : P '{' ∧ P '}' ∧ P '^')
    (hname : ∀ c, Source.isCategoryChar c = true → P c) {letter : Char} {cs rest : List Char}
    {escape : Escape} (h : read letter cs = .ok (escape, rest)) :
    ∃ spelling, cs = spelling ++ rest ∧ ∀ c ∈ spelling, P c := by
  unfold read at h
  split at h
  · cases h
  · rename_i caret name spelling after hread
    split at h
    · cases h
    · rename_i categories hcategories
      obtain ⟨_, rfl⟩ := Prod.mk.inj (Except.ok.inj h)
      have hall := (Source.name_of_named? hcategories).2
      rw [String.toList_ofList] at hall
      exact ⟨spelling, append_of_readName hsigns hread
        fun c hc => hname c (List.all_eq_true.1 hall c hc)⟩

/-- The spelling of an escape behind its letter holds no backslash. -/
theorem exists_spelling_of_read {letter : Char} {cs rest : List Char} {escape : Escape}
    (h : read letter cs = .ok (escape, rest)) :
    ∃ spelling, cs = spelling ++ rest ∧ ∀ c ∈ spelling, c ≠ '\\' :=
  exists_spelled_of_read (by decide) (fun _ => ne_backslash_of_isCategoryChar) h

/-- The ways in which a text can be expanded. -/
inductive Expansion (inClass dotAll : Bool) : List Char → List Char → Prop where
  | nil : Expansion inClass dotAll [] []
  | lone : Expansion inClass dotAll ['\\'] ['\\']
  | category {letter : Char} {cs rest y : List Char} {escape : Escape}
      (hread : read letter cs = .ok (escape, rest)) (h : Expansion inClass dotAll rest y) :
      Expansion inClass dotAll ('\\' :: letter :: cs) (escape.expanded inClass ++ y)
  | pair {c : Char} {cs y : List Char} (h : Expansion inClass dotAll cs y) :
      Expansion inClass dotAll ('\\' :: c :: cs) ('\\' :: c :: y)
  | single {c : Char} {cs y : List Char} (hc : c ≠ '\\') (h : Expansion inClass dotAll cs y) :
      Expansion inClass dotAll (c :: cs) ((if c = '.' then dotText dotAll else [c]) ++ y)

theorem expansion_of_outcome {inClass dotAll : Bool} {cs y : List Char}
    (h : (expand inClass dotAll cs).outcome = .ok y) : Expansion inClass dotAll cs y := by
  fun_induction expand inClass dotAll cs generalizing y with
  | case1 =>
    cases h
    exact .nil
  | case2 =>
    cases h
    exact .lone
  | case3 => cases h
  | case4 c cs hc escape rest hread ih =>
    simp only [Traced.outcome_bind_eq_ok_iff] at h
    obtain ⟨_, _, _, _, later, hlater, hy⟩ := h
    cases hy
    exact .category hread (ih hlater)
  | case5 c cs hc ih =>
    obtain ⟨later, hlater, hy⟩ := Traced.outcome_bind_eq_ok_iff.1 h
    cases hy
    exact .pair (ih hlater)
  | case6 c cs hlone hpair ih =>
    obtain ⟨later, hlater, hy⟩ := Traced.outcome_bind_eq_ok_iff.1 h
    cases hy
    exact .single (ne_backslash_of_not_pair hlone hpair) (ih hlater)

end CategoryEscape

/-! ### References -/

namespace Backreference

variable {letter : Char} {cs rest text : List Char} {reference : Backreference}

/-- A text is cut between two pairs at its first reference. -/
theorem eq_of_splitFirst {before : List Char} {found : Option (Char × List Char)}
    (h : splitFirst cs = (before, found)) :
    cs = before ++ found.elim [] (fun r => '\\' :: r.1 :: r.2) ∧
      (found.isSome = true → Complete before) := by
  fun_induction splitFirst cs generalizing before found with
  | case1 =>
    cases h
    exact ⟨rfl, fun _ => .nil⟩
  | case2 =>
    cases h
    exact ⟨rfl, fun hsome => by cases hsome⟩
  | case3 c cs hc =>
    cases h
    exact ⟨rfl, fun _ => .nil⟩
  | case4 c cs hc front found hsplit ih =>
    cases h
    obtain ⟨heq, hcomplete⟩ := ih hsplit
    exact ⟨congrArg ('\\' :: c :: ·) heq, fun hsome => .pair c (hcomplete hsome)⟩
  | case5 c cs hlone hpair front found hsplit ih =>
    cases h
    obtain ⟨heq, hcomplete⟩ := ih hsplit
    have hc := ne_backslash_of_not_pair hlone hpair
    exact ⟨congrArg (c :: ·) heq, fun hsome => .single hc id (hcomplete hsome)⟩

theorem ne_backslash_of_readDigits? {number : Nat} (h : readDigits? text = some number) :
    ∀ c ∈ text, c ≠ '\\' := fun c hc =>
  Source.ne_of_apply ((Source.all_isDigit_of_readDigits? h).2 c hc) (by decide)

theorem ne_backslash_of_ofText (h : ofText letter text = some reference) :
    ∀ c ∈ text, c ≠ '\\' := by
  unfold ofText at h
  split at h
  · rename_i count
    split at h
    · obtain ⟨number, hnumber, _⟩ := Option.map_eq_some_iff.1 h
      have hcount : ∀ c ∈ count, c ≠ '\\' := by
        unfold readSize? at hnumber
        split at hnumber
        · simpa using ne_backslash_of_readDigits? hnumber
        · exact ne_backslash_of_readDigits? hnumber
      simpa using hcount
    · cases h
  · rename_i c cs _
    split at h
    · split at h
      · obtain ⟨number, hnumber, _⟩ := Option.map_eq_some_iff.1 h
        exact ne_backslash_of_readDigits? hnumber
      · cases h
    · split at h
      · rename_i hall
        exact fun d hd => Source.ne_of_apply (List.all_eq_true.1 hall d hd) (by decide)
      · cases h
  · cases h

theorem eq_of_splitClosed {close : Char} (h : splitClosed close cs = some (text, rest)) :
    cs = text ++ close :: rest := by
  unfold splitClosed at h
  split at h
  · cases h
  · rename_i d behind hdrop
    obtain ⟨rfl, rfl⟩ := Prod.mk.inj (Option.some.inj h)
    have hd : d = close := by
      simpa [hdrop] using List.head?_dropWhile_not (· != close) cs
    conv_lhs => rw [← List.takeWhile_append_dropWhile (p := (· != close)) (l := cs), hdrop, hd]

theorem splitNumber_append (cs : List Char) : (splitNumber cs).1 ++ (splitNumber cs).2 = cs := by
  unfold splitNumber
  split <;> simp

theorem ne_backslash_of_closer? {c close : Char} (h : closer? letter c = some close) :
    c ≠ '\\' ∧ close ≠ '\\' := by
  unfold closer? at h
  split at h
  · rename_i hc
    cases h
    exact ⟨by rw [hc]; decide, by decide⟩
  · split at h
    · rename_i hc
      cases h
      exact ⟨by rw [hc.2]; decide, by decide⟩
    · split at h
      · rename_i hc
        cases h
        exact ⟨by rw [hc.2]; decide, by decide⟩
      · cases h

/-- The spelling of a reference behind its letter holds no backslash. -/
theorem exists_spelling_of_read {spelling : List Char}
    (h : read letter cs = some (reference, spelling, rest)) :
    ∃ tail, cs = tail ++ rest ∧ ∀ c ∈ tail, c ≠ '\\' := by
  unfold read at h
  split at h
  · cases h
  · rename_i c inner
    split at h
    · rename_i close hcloser
      simp only [Option.bind_eq_bind, Option.bind_eq_some_iff, Option.pure_def,
        Option.some.injEq, Prod.mk.injEq] at h
      obtain ⟨⟨text, behind⟩, hsplit, reference, htext, _, _, rfl⟩ := h
      obtain ⟨hc, hclose⟩ := ne_backslash_of_closer? hcloser
      refine ⟨c :: text ++ [close], by simp [eq_of_splitClosed hsplit], ?_⟩
      simpa [hc, hclose, or_imp, forall_and] using ne_backslash_of_ofText htext
    · split at h
      · simp only [Option.bind_eq_bind, Option.bind_eq_some_iff, Option.pure_def,
          Option.some.injEq, Prod.mk.injEq] at h
        obtain ⟨reference, htext, _, _, rfl⟩ := h
        exact ⟨_, (splitNumber_append _).symm, ne_backslash_of_ofText htext⟩
      · cases h

end Backreference

/-! ### Tokens and the literal text between them -/

namespace Conversion

open TokenStream

/-- The ways in which lexemes inside groups of given kinds can be converted: from one token to
    the next, with the literal text in front of each. -/
inductive Converts (dotAll : Bool) :
    Captures → List GroupKind → List Lexeme → List Char → Captures → Prop where
  | literal {captures : Captures} {kinds : List GroupKind} {lits : List Lexeme} {x : List Char}
      (hlits : ∀ l ∈ lits, l.isLiteral = true)
      (hx : (convertLiteral dotAll captures (lits.flatMap Lexeme.text)).outcome = .ok x) :
      Converts dotAll captures kinds lits x captures
  | token {captures final : Captures} {kinds : List GroupKind} {lits ls : List Lexeme}
      {l : Lexeme} {item : TokenItem} {pos : Nat} {x y z : List Char}
      (hlits : ∀ l ∈ lits, l.isLiteral = true)
      (hx : (convertLiteral dotAll captures (lits.flatMap Lexeme.text)).outcome = .ok x)
      (hitem : itemFor? kinds l = some item)
      (hy : (convertToken ⟨pos, byteLength l.text, item⟩).outcome = .ok y)
      (hz : Converts dotAll (opened captures item) (kindsAfter kinds l) ls z final) :
      Converts dotAll captures kinds (lits ++ l :: ls) (x ++ y ++ z) final

theorem exists_literal_front (ls : List Lexeme) :
    ∃ lits later, ls = lits ++ later ∧ (∀ l ∈ lits, l.isLiteral = true) ∧
      ∀ l ∈ later.head?, l.isLiteral = false := by
  induction ls with
  | nil => exact ⟨[], [], rfl, by simp, by simp⟩
  | cons l ls ih =>
    cases hl : l.isLiteral with
    | true =>
      obtain ⟨lits, later, rfl, hlits, hlater⟩ := ih
      exact ⟨l :: lits, later, rfl, List.forall_mem_cons.2 ⟨hl, hlits⟩, hlater⟩
    | false => exact ⟨[], l :: ls, rfl, by simp, by simpa using hl⟩

/-- A lexeme that is read and is not literal text has a token. -/
theorem exists_item_of_moves {limit : Nat} {s s' : State} {l : Lexeme} (h : Moves limit s l s')
    (hl : l.isLiteral = false) : ∃ item, itemFor? s.kinds l = some item := by
  rcases h with hliteral | hitem | hroom | hopen
  · rw [hl] at hliteral
    cases hliteral
  · cases l <;> first | exact ⟨_, rfl⟩ | cases hitem
  · exact ⟨_, rfl⟩
  · simp [itemFor?, State.kinds, hopen]

/-- **A conversion that succeeds goes from token to token.** -/
theorem converts_of_convertTokens {dotAll : Bool} {limit : Nat} {captures final : Captures}
    {s s' : State} {ls : List Lexeme} {y : List Char} (hreads : Reads limit s ls s')
    (h : (convertTokens dotAll captures s.pos (ls.flatMap Lexeme.text)
      (layout s.pos s.kinds ls)).outcome = .ok (y, final)) :
    Converts dotAll captures s.kinds ls y final := by
  induction hn : ls.length using Nat.strong_induction_on generalizing captures s ls y with
  | _ n ih =>
    obtain ⟨lits, later, rfl, hlits, hlater⟩ := exists_literal_front ls
    rw [layout_literal hlits] at h
    cases later with
    | nil =>
      rw [List.append_nil] at h ⊢
      obtain ⟨x, hx, hy⟩ := Traced.outcome_bind_eq_ok_iff.1 h
      cases hy
      exact .literal hlits hx
    | cons l later =>
      obtain ⟨mid, hfront, hbehind⟩ := reads_append.1 hreads
      obtain ⟨mid', hmove, hrest⟩ := reads_cons.1 hbehind
      have hkinds : mid.kinds = s.kinds := by
        rw [State.kinds, State.kinds, (hfront.of_literal hlits).1]
      have hpos : mid.pos = s.pos + byteLength (lits.flatMap Lexeme.text) := hfront.layout.1
      obtain ⟨hpos', hkinds', _⟩ := hmove.layout
      obtain ⟨item, hitem⟩ := exists_item_of_moves hmove (hlater l rfl)
      rw [hkinds] at hitem hkinds'
      rw [← hpos, layout_of_some hitem, ← hpos', ← hkinds', List.flatMap_append] at h
      have hcut := splitBytes_byteLength (lits.flatMap Lexeme.text)
        ((l :: later).flatMap Lexeme.text)
      have hlen : mid.pos - s.pos = byteLength (lits.flatMap Lexeme.text) := by omega
      rw [convertTokens, hlen, hcut] at h
      obtain ⟨x, hx, h⟩ := Traced.outcome_bind_eq_ok_iff.1 h
      obtain ⟨token, htoken, h⟩ := Traced.outcome_bind_eq_ok_iff.1 h
      obtain ⟨⟨z, final'⟩, hz, h⟩ := Traced.outcome_bind_eq_ok_iff.1 h
      cases h
      rw [List.flatMap_cons, splitBytes_byteLength, Token.stop, ← hpos'] at hz
      have hshorter : later.length < n := by
        rw [← hn, List.length_append, List.length_cons]
        omega
      refine .token hlits hx hitem htoken ?_
      rw [← hkinds']
      exact ih _ hshorter hrest hz rfl

end Conversion

end RegexText
