/-
  RegexText/Proofs/WordList/Conversion.lean
  =========================================
  **Synthesized expressions pass through the converter unchanged.**

  Put between slashes, with its own slashes escaped, the expression for a list of
  words is read back as what it is: groups that do not capture, bracket
  expressions, and possibly an assertion in front.  Whatever the converter looks
  for is absent: the escapes are those of punctuation and of the character `00`,
  between brackets as well as outside, and a dot never stands alone.

  Escaping slashes keeps the tree.  A slash outside of brackets becomes an escape,
  and one between brackets a member with a backslash.
-/
import RegexText.Proofs.Conversion.Inert
import RegexText.Proofs.WordList

namespace RegexText

open Text Regular TokenStream

namespace Regular

/-! ### Slashes -/

/-- A unit with its slash, or the slashes between its brackets, escaped. -/
def Matcher.protected : Matcher → Matcher
  | .char c => if c = '/' then .escaped c else .char c
  | .bracket content => .bracket (protect '/' content)
  | u => u

theorem Matcher.text_protected {u : Matcher} (h : u.isValid = true) :
    u.protected.spelling.text = protect '/' u.spelling.text := by
  cases u with
  | char c =>
    have hslash : c ≠ '\\' := ne_of_isValid_char h _ (by decide)
    simp only [Matcher.protected, spelling, Spelling.text]
    rw [protect_single hslash]
    by_cases hc : c = '/'
    · simp [hc, protect]
    · simp [hc, protect]
  | bracket content =>
    have hcontent : FreeOf (· = ']') content := sound_of_isValid h
    simp only [Matcher.protected, spelling, Spelling.text]
    rw [List.cons_append, List.cons_append, protect_single (by decide),
      protect_append hcontent.complete]
    rfl
  | escaped c => rfl
  | nul => rfl
  | dot => rfl
  | shorthand s negated => rfl

/-- Members stand for themselves in the target as well, with a backslash before a slash or
    without one. -/
theorem expands_of_members? {cs : List Char} {ms : List Member} (h : members? cs = some ms) :
    Source.Expands true false (protect '/' cs) (protect '/' cs) := by
  fun_induction members? cs generalizing ms with
  | case1 => exact .nil
  | case2 => cases h
  | case3 rest ih =>
    obtain ⟨later, hlater, _⟩ := Option.map_eq_some_iff.1 h
    have hzero : Source.Expands true false ['0', '0'] ['0', '0'] :=
      (Source.Expands.char (by decide) (by decide)).append (.char (by decide) (by decide))
    exact (Source.Expands.pair (c := 'x') (by decide)).append (hzero.append (ih hlater))
  | case4 d rest _ ih =>
    obtain ⟨m, hm, hrest⟩ := Option.bind_eq_some_iff.1 h
    obtain ⟨later, hlater, _⟩ := Option.map_eq_some_iff.1 hrest
    have hletter : ¬ (d = 'p' ∨ d = 'P') := by
      rintro (rfl | rfl)
      · cases hm
      · cases hm
    exact (Source.Expands.pair hletter).append (ih hlater)
  | case5 => cases h
  | case6 c cs hc _ ih =>
    obtain ⟨later, hlater, _⟩ := Option.map_eq_some_iff.1 h
    rw [protect_single hc]
    refine Source.Expands.append ?_ (ih hlater)
    by_cases hslash : c = '/'
    · rw [if_pos hslash, hslash]
      exact .pair (by decide)
    · rw [if_neg hslash]
      have hsingle : Source.Expands true false [c] (if c = '.' then _ else [c]) := .single hc
      by_cases hdot : c = '.'
      · rw [if_pos hdot] at hsingle
        rwa [hdot] at hsingle ⊢
      · rwa [if_neg hdot] at hsingle

theorem expands_of_read? {content : List Char} {bracket : Bracket}
    (h : Bracket.read? content = some bracket) :
    Source.Expands true false (protect '/' content) (protect '/' content) := by
  have hitems : ∀ {negated cs b}, Bracket.readItems? negated cs = some b →
      Source.Expands true false (protect '/' cs) (protect '/' cs) := by
    intro negated cs b hread
    unfold Bracket.readItems? at hread
    split_ifs at hread
    obtain ⟨ms, hms, _⟩ := Option.bind_eq_some_iff.1 hread
    exact expands_of_members? hms
  unfold Bracket.read? at h
  split at h
  · exact (Source.Expands.char (c := '^') (by decide) (by decide)).append (hitems h)
  · exact hitems h

/-- A unit of the fragment is converted to itself, once its slashes are escaped. -/
theorem inert_protected {u : Matcher} {q : Option Quantifier} (h : Fragment.finite.units u q) :
    u.protected.spelling.Inert := by
  obtain ⟨hvalid, hdot, hshorthand, _⟩ := h
  cases u with
  | char c =>
    by_cases hc : c = '/'
    · rw [Matcher.protected, if_pos hc]
      apply Spelling.inert_escape
      rw [hc]
      decide
    · have hne := Matcher.ne_of_isValid_char hvalid
      rw [Matcher.protected, if_neg hc]
      exact Spelling.inert_char (hne _ (by decide)) (hne _ (by decide))
  | escaped c => exact Spelling.inert_escape hvalid
  | nul =>
    have hdigits : ∀ c ∈ ['0', '0'], c ≠ '\\' ∧ c ≠ '.' := forall_mem_of_all (by decide)
    exact ⟨(Source.Passes.pair (c := 'x') (by decide)).append
        (.chars fun c hc => (hdigits c hc).1),
      fun dotAll => (Source.Expands.pair (c := 'x') (by decide)).append (.chars hdigits)⟩
  | dot => exact absurd rfl hdot
  | shorthand s negated => exact absurd rfl (hshorthand s negated)
  | bracket content =>
    obtain ⟨bracket, hread⟩ := Option.isSome_iff_exists.1 hvalid
    exact expands_of_read? hread

theorem sound_protected {u : Matcher} (h : u.isValid = true) : u.protected.spelling.Sound := by
  cases u with
  | char c =>
    by_cases hc : c = '/'
    · have hslash : Matcher.isValid (.escaped '/') = true := by decide
      simpa [Matcher.protected, hc] using Matcher.sound_of_isValid hslash
    · simpa [Matcher.protected, hc] using Matcher.sound_of_isValid h
  | bracket content =>
    have hcontent : FreeOf (· = ']') content := Matcher.sound_of_isValid h
    exact hcontent.protect.mono fun _ => Or.inl
  | escaped c => exact Matcher.sound_of_isValid h
  | nul => exact Matcher.sound_of_isValid h
  | dot => exact Matcher.sound_of_isValid h
  | shorthand s negated => exact Matcher.sound_of_isValid h

/-! ### Trees -/

/-- A tree in which groups may look ahead. -/
abbrev Protected := Regex Matcher Source.Mark

/-- A tree of the fragment with its slashes escaped. -/
def escapeSlashes (r : Expression) : Protected :=
  r.map Matcher.protected fun _ => Source.Mark.nonCapturing

variable {r : Expression}

theorem absorbed_of_isOptionalOnly {q : Option Quantifier} (h : IsOptionalOnly q) :
    Quantifier.absorbed q = [] := by
  rcases h with rfl | rfl
  · rfl
  · rfl

theorem complete_text_of_within (hr : Within .finite r) : Complete r.text := by
  induction r with
  | done => exact .nil
  | unit u q next ih =>
    have hunit := (Matcher.sound_of_isValid hr.1.1).complete
    exact (hunit.append (complete_quantifier q)).append (ih hr.2)
  | group g body q next ihb ihn =>
    have hopening : Complete (Marks.opening g) := by
      cases g <;> exact complete_of_all (by decide)
    have hclose : Complete (')' :: Quantifier.text q ++ next.text) :=
      .single (by decide) id ((complete_quantifier q).append (ihn hr.2.2))
    rw [Regex.text, List.append_assoc]
    exact (hopening.append (ihb hr.2.1)).append (by simpa using hclose)
  | bar next ih => exact .single (by decide) id (ih hr)

theorem protect_quantifier (q : Option Quantifier) :
    protect '/' (Quantifier.text q) = Quantifier.text q := by
  apply protect_of_freeOf
  apply FreeOf.of_forall
  intro c hc
  rcases Source.mem_quantifier hc with rfl | rfl | rfl <;> decide

/-- **Escaping the slashes of a tree escapes those of its text.** -/
theorem text_escapeSlashes (hr : Within .finite r) :
    (escapeSlashes r).text = protect '/' r.text := by
  induction r with
  | done => rfl
  | unit u q next ih =>
    have htext : (escapeSlashes (.unit u q next)).text =
        u.protected.spelling.text ++ Quantifier.text q ++ (escapeSlashes next).text := rfl
    have horiginal : (Regex.unit u q next : Expression).text =
        u.spelling.text ++ (Quantifier.text q ++ next.text) := List.append_assoc _ _ _
    rw [htext, horiginal, ih hr.2, Matcher.text_protected hr.1.1, List.append_assoc,
      protect_append (Matcher.sound_of_isValid hr.1.1).complete,
      protect_append (complete_quantifier q), protect_quantifier]
  | group g body q next ihb ihn =>
    obtain ⟨⟨rfl, _⟩, hbody, hnext⟩ := hr
    have htext : (escapeSlashes (.group .nonCapturing body q next)).text =
        ['(', '?', ':'] ++ (escapeSlashes body).text ++
          ')' :: Quantifier.text q ++ (escapeSlashes next).text := rfl
    have hopening : Complete (['(', '?', ':'] : List Char) := complete_of_all (by decide)
    have horiginal : (Regex.group Mark.nonCapturing body q next : Expression).text =
        ['(', '?', ':'] ++ (body.text ++ ([')'] ++ (Quantifier.text q ++ next.text))) := by
      simp [Regex.text, Marks.opening, Mark.opening]
    rw [htext, horiginal, ihb hbody, ihn hnext, protect_append hopening,
      protect_append (complete_text_of_within hbody), protect_append (complete_of_all (by decide)),
      protect_append (complete_quantifier q), protect_quantifier]
    simp [protect]
  | bar next ih =>
    have htext : (escapeSlashes (.bar next)).text = '|' :: (escapeSlashes next).text := rfl
    rw [htext, ih hr, Regex.text, protect_single (by decide)]
    rfl

theorem sound_escapeSlashes (hr : Within .finite r) : (escapeSlashes r).Sound :=
  Regex.All.map (fun _ _ hu => sound_protected hu.1)
    (fun _ _ _ => ⟨['?', ':'], rfl, fun _ _ => rfl⟩) hr

theorem inert_escapeSlashes (hr : Within .finite r) : (escapeSlashes r).Inert :=
  Regex.All.map (fun _ _ hu => ⟨inert_protected hu, absorbed_of_isOptionalOnly hu.2.2.2⟩)
    (fun _ _ hg => ⟨.inl ⟨rfl, rfl⟩, absorbed_of_isOptionalOnly hg.2⟩) hr

end Regular

/-! ### Tokens -/

/-- Is a token a bracket expression, or an end of a group that neither captures nor sets
    options, with nothing behind it? -/
def TokenItem.IsPlain : TokenItem → Prop
  | .characterClass _ quantifiers => quantifiers = ""
  | .groupStart opener _ => opener = .nonCapturing ""
  | .groupEnd kind _ quantifiers => kind = .nonCapturing ∧ quantifiers = ""
  | .optionGroup _ => False

/-- Are some tokens those of an assertion of a bracket expression, at the very beginning? -/
def IsLeadingAssertion (tokens : List Token) : Prop :=
  ∃ start content stop, tokens = [start, content, stop] ∧ start.pos = 0 ∧
    start.item = .groupStart (.assertion .ahead false) 2 ∧
    (∃ text, content.item = .characterClass text "") ∧
    stop.item = .groupEnd (.assertion .ahead false) 0 ""

namespace TokenStream

theorem isPlain_unlinkedItem {item : TokenItem} : (unlinkedItem item).IsPlain ↔ item.IsPlain := by
  cases item <;> exact Iff.rfl

/-- The tokens of a tree are plain if its groups are and no quantifier is taken up. -/
theorem isPlain_of_mem_layout {U G : Type} [Written U] [Marks G] {r : Regex U G}
    (hr : r.All (fun _ q => Quantifier.absorbed q = [])
      (fun g q => Marks.opener g = .nonCapturing "" ∧ Quantifier.absorbed q = []))
    {ls : List Lexeme} {kinds : List GroupKind}
    (hls : ∀ pos, ∀ t ∈ layout pos kinds ls, t.item.IsPlain) (pos : Nat) :
    ∀ t ∈ layout pos kinds (r.lexemes ++ ls), t.item.IsPlain := by
  have hremaining : ∀ {q : Option Quantifier} {kinds : List GroupKind} {ms : List Lexeme},
      (∀ pos, ∀ t ∈ layout pos kinds ms, t.item.IsPlain) →
      ∀ pos, ∀ t ∈ layout pos kinds ((Quantifier.remaining q).map Lexeme.plain ++ ms),
        t.item.IsPlain := by
    intro q kinds ms hms pos t ht
    rw [layout_literal (fun l hl => isLiteral_of_mem_plain hl)] at ht
    exact hms _ t ht
  induction r generalizing kinds ls pos with
  | done => exact hls pos
  | unit u q next ih =>
    obtain ⟨hq, hnext⟩ := hr
    have hrest := ih hnext hls
    intro t ht
    rw [Regex.lexemes, List.append_assoc] at ht
    cases hspelling : Written.spelling u with
    | run text =>
      rw [hspelling, Spelling.lexemes,
        layout_literal (fun l hl => Source.isLiteral_of_mem_run hl)] at ht
      exact hrest _ t ht
    | bracket content =>
      rw [hspelling, Spelling.lexemes, hq, List.cons_append, layout_of_some rfl] at ht
      rcases List.mem_cons.1 ht with rfl | hlater
      · exact String.ofList_nil
      · exact hremaining hrest _ t hlater
  | group g body q next ihb ihn =>
    obtain ⟨⟨hopener, hq⟩, hbody, hnext⟩ := hr
    intro t ht
    have hkind : (Marks.opener g).kind = .nonCapturing := by rw [hopener]; rfl
    have hclose : ∀ pos, ∀ t ∈ layout pos ((Marks.opener g).kind :: kinds)
        (.closer (Quantifier.absorbed q) ::
          ((Quantifier.remaining q).map Lexeme.plain ++ (next.lexemes ++ ls))),
        t.item.IsPlain := by
      intro pos t ht
      rw [hq, hkind, layout_of_some rfl] at ht
      rcases List.mem_cons.1 ht with rfl | hlater
      · exact ⟨rfl, String.ofList_nil⟩
      · exact hremaining (ihn hnext hls) _ t hlater
    have hinner := ihb hbody hclose
    have hlexemes : (Regex.group g body q next).lexemes ++ ls =
        .opener (Marks.opener g) (Marks.opening g) :: (body.lexemes ++
          (.closer (Quantifier.absorbed q) ::
            ((Quantifier.remaining q).map Lexeme.plain ++ (next.lexemes ++ ls)))) := by
      simp [Regex.lexemes]
    rw [hlexemes, layout_of_some rfl] at ht
    rcases List.mem_cons.1 ht with rfl | hlater
    · exact hopener
    · exact hinner _ t hlater
  | bar next ih =>
    intro t ht
    rw [Regex.lexemes, List.cons_append, layout_of_none rfl] at ht
    exact ih hr hls _ t ht

theorem isPlain_of_escapeSlashes {r : Expression} (hr : Within .finite r) (pos : Nat) :
    ∀ t ∈ layout pos [] (escapeSlashes r).lexemes, t.item.IsPlain := by
  have hplain : (escapeSlashes r).All (fun _ q => Quantifier.absorbed q = [])
      (fun g q => Marks.opener g = .nonCapturing "" ∧ Quantifier.absorbed q = []) :=
    Regex.All.map (fun _ _ hu => absorbed_of_isOptionalOnly hu.2.2.2)
      (fun _ _ hg => ⟨rfl, absorbed_of_isOptionalOnly hg.2⟩) hr
  have hnil : ∀ pos, ∀ t ∈ layout pos [] [], t.item.IsPlain := by
    intro pos t ht
    cases ht
  have hlayout := isPlain_of_mem_layout hplain hnil pos
  rwa [List.append_nil] at hlayout

end TokenStream

/-! ### The assertion in front -/

namespace WordList

/-- The class in front is a bracket expression. -/
theorem exists_content_of_wantsLookahead {options : Options} (hspecials : options.specials = [])
    {words distinct : List String} {whole : String}
    (h : wantsLookahead options distinct (initials (words.map options.chain)) whole = true) :
    ∃ content, (Symbol.characterClass (initials (words.map options.chain))).toList =
        '[' :: content ++ [']'] ∧ (Matcher.bracket content).isValid = true := by
  simp only [wantsLookahead, Bool.and_eq_true, decide_eq_true_eq] at h
  obtain ⟨⟨⟨_, hseveral⟩, _⟩, hsafe⟩ := h
  have hall : ∀ x ∈ initials (words.map options.chain),
      Symbol.isClassSafe x = true ∧ Chain.IsPiece .finite x := by
    intro x hx
    refine ⟨List.all_eq_true.1 hsafe x hx, ?_⟩
    obtain ⟨chain, hchain, hhead⟩ := List.mem_filterMap.1 (List.mem_eraseDups.1 hx)
    obtain ⟨word, _, rfl⟩ := List.mem_map.1 hchain
    rw [chain_of_specials hspecials] at hhead
    obtain ⟨c, _, rfl⟩ := List.mem_map.1 (List.mem_of_mem_head? hhead)
    exact Symbol.isPiece_ofChar c
  have hnodup : (initials (words.map options.chain)).Nodup := nodup_eraseDups _
  rcases hfirst : initials (words.map options.chain) with _ | ⟨a, _ | ⟨b, later⟩⟩
  · rw [hfirst] at hseveral
    simp at hseveral
  · rw [hfirst] at hseveral
    simp at hseveral
  · rw [hfirst] at hall hnodup
    have hab : a ≠ b := by
      rintro rfl
      exact (List.nodup_cons.1 hnodup).1 (List.mem_cons_self ..)
    obtain ⟨content, bracket, htext, hread, _⟩ := Chain.exists_content Fragment.finite_closed hall
      (List.mem_cons_self ..) (List.mem_cons_of_mem _ (List.mem_cons_self ..)) hab
    exact ⟨content, htext, by simp [Matcher.isValid, hread]⟩

/-- What is synthesized, with its slashes escaped, is the text of an inert tree, and its tokens
    are plain but for an assertion in front. -/
theorem exists_protected_tree {options : Options} (hspecials : options.specials = [])
    {words : List String} {pattern : String}
    (h : (synthesize options words).outcome = .ok pattern) :
    ∃ r : Protected, r.Sound ∧ r.Inert ∧ r.text = protect '/' pattern.toList ∧
      Complete pattern.toList ∧
      ((∀ t ∈ layout 0 [] r.lexemes, t.item.IsPlain) ∨
        ∃ start content stop rest, layout 0 [] r.lexemes = start :: content :: stop :: rest ∧
          start.pos = 0 ∧ start.item = .groupStart (.assertion .ahead false) 0 ∧
          (∃ text, content.item = .characterClass text "") ∧
          stop.item = .groupEnd (.assertion .ahead false) 0 "" ∧
          ∀ t ∈ rest, t.item.IsPlain) := by
  obtain ⟨r, whole, hr, htext, _, rfl⟩ := exists_tree_behind_assertion hspecials h
  by_cases hwants : wantsLookahead options (sortDistinct words)
      (initials ((sortDistinct words).map options.chain)) whole = true
  · obtain ⟨content, hclass, hvalid⟩ := exists_content_of_wantsLookahead hspecials hwants
    have hassertion : assertion options words whole =
        "(?=" ++ Symbol.characterClass (initials ((sortDistinct words).map options.chain)) ++
          ")" := by
      simp only [assertion, hwants, if_true]
    have hfree : FreeOf (· = ']') content := Matcher.sound_of_isValid hvalid
    have hunit : Fragment.finite.units (.bracket content) none :=
      Fragment.finite_closed.bracket content hvalid
    have hpattern : (assertion options words whole ++ whole).toList =
        ['(', '?', '=', '['] ++ (content ++ ([']', ')'] ++ r.text)) := by
      rw [hassertion, htext]
      simp [hclass]
    refine ⟨.group (.ahead false) (.unit (.bracket (protect '/' content)) none .done) none
      (escapeSlashes r), ?_, ?_, ?_, ?_, ?_⟩
    · exact ⟨⟨['?', '='], rfl, fun _ _ => rfl⟩,
        ⟨sound_protected (u := .bracket content) hvalid, trivial⟩, sound_escapeSlashes hr⟩
    · exact ⟨⟨.inr ⟨rfl, rfl⟩, rfl⟩,
        ⟨⟨inert_protected (u := .bracket content) hunit, rfl⟩, trivial⟩, inert_escapeSlashes hr⟩
    · rw [hpattern, protect_append (complete_of_all (by decide)), protect_append hfree.complete,
        protect_append (complete_of_all (by decide)), ← text_escapeSlashes hr]
      simp [Regex.text, Marks.opening, Source.Mark.opening, Written.spelling, Matcher.spelling,
        Spelling.text, Quantifier.text, protect]
    · rw [hpattern]
      exact (complete_of_all (by decide)).append (hfree.complete.append
        ((complete_of_all (by decide)).append (complete_text_of_within hr)))
    · refine .inr ⟨_, _, _, _, rfl, rfl, rfl, ⟨_, rfl⟩, rfl, ?_⟩
      exact isPlain_of_escapeSlashes hr _
  · have hnone : assertion options words whole = "" := by
      simp only [assertion, hwants, Bool.false_eq_true, if_false]
    rw [hnone, String.empty_append]
    exact ⟨escapeSlashes r, sound_escapeSlashes hr, inert_escapeSlashes hr,
      by rw [text_escapeSlashes hr, htext], htext ▸ complete_text_of_within hr,
      .inl (isPlain_of_escapeSlashes hr 0)⟩

/-- The first group of a stream that holds a single assertion is that one, and it ends at its
    third token. -/
theorem isLeadingAssertion_of_reads {limit : Nat} {ls : List Lexeme} {s : State}
    (hreads : Reads limit .initial ls s) (hclosed : s.openGroups = []) {a b c : Token}
    {rest : List Token} (htokens : s.tokens.toList = a :: b :: c :: rest) (hpos : a.pos = 0)
    (ha : unlinkedItem a.item = .groupStart (.assertion .ahead false) 0)
    (hb : ∃ text, unlinkedItem b.item = .characterClass text "")
    (hc : unlinkedItem c.item = .groupEnd (.assertion .ahead false) 0 "")
    (hrest : ∀ t ∈ rest, t.item.IsPlain) : IsLeadingAssertion [a, b, c] := by
  have hlinked := linked_of_reads hreads
  have hitem : ∀ i, s.itemAt? i = ((a :: b :: c :: rest)[i]?).map Token.item := by
    intro i
    rw [State.itemAt?, ← Array.getElem?_toList, htokens]
  obtain ⟨e, ha⟩ := eq_groupStart_of_unlinkedItem ha
  obtain ⟨k, hc⟩ := eq_groupEnd_of_unlinkedItem hc
  obtain ⟨text, hb⟩ := hb
  have hb := eq_characterClass_of_unlinkedItem hb
  have hstart : s.itemAt? 0 = some (.groupStart (.assertion .ahead false) e) := by
    rw [hitem]
    simp [ha]
  obtain ⟨hlt, quantifiers, hend⟩ := hlinked.ended_of_start 0 _ e hstart
    (by simp [State.openStarts, hclosed])
  -- no end but the third token is that of an assertion
  have he : e = 2 := by
    rw [hitem] at hend
    rcases e with _ | _ | _ | i
    · exact absurd hlt (Nat.lt_irrefl 0)
    · simp [hb] at hend
    · rfl
    · obtain ⟨t, ht, hitemt⟩ := Option.map_eq_some_iff.1 hend
      have hplain := hrest t (List.mem_of_getElem? (by simpa using ht))
      rw [hitemt] at hplain
      cases hplain.1
  subst he
  rw [hitem] at hend
  have hk : k = 0 := by
    have hcend := hend
    simp only [List.getElem?_cons_succ, List.getElem?_cons_zero, Option.map_some, hc,
      Option.some.injEq, TokenItem.groupEnd.injEq] at hcend
    exact hcend.2.1
  subst hk
  exact ⟨a, b, c, rfl, hpos, ha, ⟨text, hb⟩, hc⟩

/-- **Synthesized expressions pass through the converter unchanged.**  The expression for some
    words, with its slashes escaped, is read back between slashes if as many groups may be open
    as it has bytes.  Its tokens are bracket expressions and groups that do not capture, none of
    them with a quantifier of its own, and in front of them there may be an assertion of a
    bracket expression.  The converter returns the expression as it is, with the flags that the
    target knows, and finds no named group. -/
theorem convert_synthesizeEncoded {options : Options} (hspecials : options.specials = [])
    {encoded : List (List UInt8)} {pattern : String}
    (h : (synthesizeEncoded options encoded).outcome = .ok pattern) {mods : List Char}
    (hmods : ∀ m ∈ mods, m ∈ ['i', 'm', 'D', 'S', 's', 'u']) {limit : Nat}
    (hlimit : byteLength (protect '/' pattern.toList) ≤ limit) :
    ∃ p, (Pattern.parse limit (String.ofList
        ('/' :: protect '/' pattern.toList ++ '/' :: mods))).outcome = .ok p ∧
      p.delimiter = '/' ∧ p.modifiers = String.ofList mods ∧
      p.body = String.ofList (protect '/' pattern.toList) ∧
      (∃ lead rest, p.tokens = lead ++ rest ∧ (lead = [] ∨ IsLeadingAssertion lead) ∧
        ∀ t ∈ rest, t.item.IsPlain) ∧
      p.convert.outcome = .ok ⟨String.ofList ('/' :: protect '/' pattern.toList ++
        '/' :: (mods.filter fun m => m ∈ ['i', 'm']).eraseDups), .empty⟩ := by
  have hknown : ∀ m ∈ mods, m ∈ Source.modifiers := fun m hm =>
    forall_mem_of_all (p := fun m => m ∈ Source.modifiers) (by decide) m (hmods m hm)
  have hflags : Source.flags mods = (mods.filter fun m => m ∈ ['i', 'm']).eraseDups := rfl
  unfold synthesizeEncoded at h
  split at h
  · cases h
  · obtain ⟨r, hsound, hinert, htext, hcomplete, htokens⟩ := exists_protected_tree hspecials h
    have hdepth : r.depth ≤ limit := by
      have hle := Regex.depth_le_length_text hsound
      have hbytes := length_le_byteLength r.text
      rw [← htext] at hlimit
      omega
    have hfree : FreeOf (· = '/') r.text := by
      rw [htext]
      exact freeOf_protect hcomplete
    obtain ⟨s, hreads, hclosed, hparse, hconvert⟩ :=
      Regex.convert_inert hsound hinert hdepth hfree hknown
    rw [htext] at hparse hconvert
    rw [hflags] at hconvert
    have hlayout : s.tokens.toList.map unlinked = layout 0 [] r.lexemes := hreads.layout.2
    refine ⟨_, hparse, rfl, rfl, rfl, ?_, hconvert⟩
    rcases htokens with hplain | ⟨start, content, stop, rest, hlead, hpos, hstart, hcontent,
      hstop, hrest⟩
    · refine ⟨[], s.tokens.toList, rfl, .inl rfl, ?_⟩
      intro t ht
      apply isPlain_unlinkedItem.1
      exact hplain (unlinked t) (hlayout ▸ List.mem_map_of_mem ht)
    · rw [hlead] at hlayout
      obtain ⟨a, later, htokens, ha, hlater⟩ := List.map_eq_cons_iff.1 hlayout
      obtain ⟨b, later, rfl, hb, hlater⟩ := List.map_eq_cons_iff.1 hlater
      obtain ⟨c, later, rfl, hc, hlater⟩ := List.map_eq_cons_iff.1 hlater
      have hplain : ∀ t ∈ later, t.item.IsPlain := by
        intro t ht
        apply isPlain_unlinkedItem.1
        exact hrest (unlinked t) (hlater ▸ List.mem_map_of_mem ht)
      subst ha hb hc
      exact ⟨[a, b, c], later, htokens, .inr (isLeadingAssertion_of_reads hreads hclosed htokens
        hpos hstart hcontent hstop hplain), hplain⟩

/-- The words `a/`, `b\p` and `b.`, with a slash, a backslash before a letter, and a dot. -/
theorem convert_synthesizeEncoded_three_words :
    (synthesizeEncoded ⟨[], true, 256⟩ [[0x61, 0x2F], [0x62, 0x5C, 0x70], [0x62, 0x2E]]).outcome =
      .ok "(?=[ab])(?:a/|b(?:\\.|\\\\p))" ∧
    ∃ p, (Pattern.parse 27 "/(?=[ab])(?:a\\/|b(?:\\.|\\\\p))/smsii").outcome = .ok p ∧
      p.convert.outcome = .ok ⟨"/(?=[ab])(?:a\\/|b(?:\\.|\\\\p))/mi", .empty⟩ := by
  have hrun : (synthesizeEncoded ⟨[], true, 256⟩
      [[0x61, 0x2F], [0x62, 0x5C, 0x70], [0x62, 0x2E]]).outcome =
        .ok "(?=[ab])(?:a/|b(?:\\.|\\\\p))" := by decide +kernel
  have hmods : ∀ m ∈ ['s', 'm', 's', 'i', 'i'], m ∈ ['i', 'm', 'D', 'S', 's', 'u'] :=
    forall_mem_of_all (by decide)
  obtain ⟨p, hparse, _, _, _, _, hconvert⟩ :=
    convert_synthesizeEncoded rfl hrun hmods (show _ ≤ 27 by decide +kernel)
  have hinput : String.ofList ('/' :: protect '/' "(?=[ab])(?:a/|b(?:\\.|\\\\p))".toList ++
      '/' :: ['s', 'm', 's', 'i', 'i']) = "/(?=[ab])(?:a\\/|b(?:\\.|\\\\p))/smsii" := by
    decide +kernel
  have houtput : String.ofList ('/' :: protect '/' "(?=[ab])(?:a/|b(?:\\.|\\\\p))".toList ++
      '/' :: (['s', 'm', 's', 'i', 'i'].filter fun m => m ∈ ['i', 'm']).eraseDups) =
        "/(?=[ab])(?:a\\/|b(?:\\.|\\\\p))/mi" := by decide +kernel
  rw [hinput] at hparse
  rw [houtput] at hconvert
  exact ⟨hrun, p, hparse, hconvert⟩

end WordList

end RegexText
