/-
  RegexText/Proofs/WordList/Lookahead.lean
  ========================================
  **The assertion in front names the first characters of the words.**

  It is put there only if it says something, which takes two different first
  characters, and if it excludes no word: the empty word has no first character,
  and the character `00` has no place in a class.  Nor is it put in front of a
  bracket expression.  Where it is put, it holds of every word, so the expression
  behind it matches what it matches alone.
-/
import RegexText.Proofs.Regular.Lookahead
import RegexText.Proofs.WordList.Depth

namespace RegexText

open Text Regular

/-! ### Symbols and brackets -/

theorem Symbol.isClassSafe_ofChar {c : Char} : isClassSafe (ofChar c) = true ↔ c ≠ '\x00' := by
  unfold ofChar
  split_ifs with hnul hspecial
  · subst hnul
    decide
  · simp [isClassSafe, hnul]
  · have hdot : c ≠ '.' := fun h => hspecial (h ▸ by decide)
    have hbackslash : c ≠ '\\' := fun h => hspecial (h ▸ by decide)
    simp [isClassSafe, hnul, hdot, hbackslash]

namespace Regular

/-- Does the expression begin with a bracket expression? -/
def StartsWithBracket (r : Expression) : Prop :=
  ∃ content q next, r = .unit (.bracket content) q next

/-- An opening bracket that stands at the beginning opens a bracket expression. -/
theorem head_text_eq_bracket_iff {r : Expression} (hr : WellFormed r) :
    r.text.head? = some '[' ↔ StartsWithBracket r := by
  constructor
  · intro h
    cases r with
    | done => cases h
    | bar next => cases h
    | group g body q next => cases g <;> cases h
    | unit u q next =>
      cases u with
      | bracket content => exact ⟨content, q, next, rfl⟩
      | char c =>
        have hc : c = '[' := by
          simpa [Regex.text, Written.spelling, Matcher.spelling, Spelling.text] using h
        exact absurd hc (Matcher.ne_of_isValid_char hr.1.1 '[' (by decide))
      | escaped c => cases h
      | nul => cases h
      | dot => cases h
      | shorthand s negated => cases h
  · rintro ⟨content, q, next, rfl⟩
    rfl

end Regular

namespace WordList

/-! ### First characters -/

/-- The words that come as UTF-8. -/
def wordsOf (encoded : List (List UInt8)) : Language Char :=
  {w | ∃ bytes ∈ encoded, decodeUtf8 bytes = .ok (String.ofList w)}

/-- Does some text of the language begin with this character? -/
def IsInitial (l : Language Char) (c : Char) : Prop := ∃ cs, c :: cs ∈ l

/-- Does an assertion about the first character tell words apart, without excluding one, and
    without repeating what the expression behind it says? -/
structure Discriminates (l : Language Char) (r : Expression) : Prop where
  no_empty : [] ∉ l
  several : ∃ c d, c ≠ d ∧ IsInitial l c ∧ IsInitial l d
  no_nul : ¬ IsInitial l '\x00'
  no_bracket : ¬ StartsWithBracket r

variable {options : Options} {words : List String} {l : Language Char}

theorem nodup_initials (chains : List Chain) : (initials chains).Nodup := nodup_eraseDups _

/-- The first symbols are those of the first characters. -/
theorem mem_initials (hspecials : options.specials = [])
    (hl : ∀ w, w ∈ l ↔ ∃ word ∈ words, word.toList = w) {x : String} :
    x ∈ initials ((sortDistinct words).map options.chain) ↔
      ∃ c, IsInitial l c ∧ x = Symbol.ofChar c := by
  rw [initials, List.mem_eraseDups, List.mem_filterMap]
  constructor
  · rintro ⟨chain, hchain, hhead⟩
    obtain ⟨word, hword, rfl⟩ := List.mem_map.1 hchain
    rw [chain_of_specials hspecials] at hhead
    cases hcs : word.toList with
    | nil =>
      rw [hcs] at hhead
      cases hhead
    | cons c cs =>
      rw [hcs] at hhead
      cases hhead
      exact ⟨c, ⟨cs, (hl _).2 ⟨word, mem_sortDistinct.1 hword, hcs⟩⟩, rfl⟩
  · rintro ⟨c, ⟨cs, hcs⟩, rfl⟩
    obtain ⟨word, hword, hchars⟩ := (hl _).1 hcs
    refine ⟨_, List.mem_map_of_mem (mem_sortDistinct.2 hword), ?_⟩
    rw [chain_of_specials hspecials, hchars]
    rfl

theorem one_lt_length_initials (hspecials : options.specials = [])
    (hl : ∀ w, w ∈ l ↔ ∃ word ∈ words, word.toList = w) :
    1 < (initials ((sortDistinct words).map options.chain)).length ↔
      ∃ c d, c ≠ d ∧ IsInitial l c ∧ IsInitial l d := by
  rw [← List.toFinset_card_of_nodup (nodup_initials _), Finset.one_lt_card]
  simp only [List.mem_toFinset, mem_initials hspecials hl]
  constructor
  · rintro ⟨_, ⟨c, hc, rfl⟩, _, ⟨d, hd, rfl⟩, hne⟩
    exact ⟨c, d, fun h => hne (congrArg Symbol.ofChar h), hc, hd⟩
  · rintro ⟨c, d, hne, hc, hd⟩
    exact ⟨_, ⟨c, hc, rfl⟩, _, ⟨d, hd, rfl⟩, fun h => hne (Symbol.ofChar_injective h)⟩

/-- The assertion is wanted exactly where it tells words apart. -/
theorem wantsLookahead_iff (hspecials : options.specials = [])
    (hlookahead : options.lookahead = true)
    (hl : ∀ w, w ∈ l ↔ ∃ word ∈ words, word.toList = w) {r : Expression} (hr : WellFormed r)
    {whole : String} (htext : r.text = whole.toList) :
    wantsLookahead options (sortDistinct words)
        (initials ((sortDistinct words).map options.chain)) whole = true ↔
      Discriminates l r := by
  have hempty : "" ∉ sortDistinct words ↔ [] ∉ l := by
    rw [mem_sortDistinct, hl]
    simp
  have hbracket : whole.toList.head? ≠ some '[' ↔ ¬ StartsWithBracket r := by
    rw [← htext, ne_eq, head_text_eq_bracket_iff hr]
  have hsafe : (∀ x ∈ initials ((sortDistinct words).map options.chain),
      Symbol.isClassSafe x = true) ↔ ¬ IsInitial l '\x00' := by
    constructor
    · intro h hnul
      have hx := h _ ((mem_initials hspecials hl).2 ⟨_, hnul, rfl⟩)
      exact Symbol.isClassSafe_ofChar.1 hx rfl
    · intro h x hx
      obtain ⟨c, hc, rfl⟩ := (mem_initials hspecials hl).1 hx
      exact Symbol.isClassSafe_ofChar.2 fun heq => h (heq ▸ hc)
  simp only [wantsLookahead, hlookahead, Bool.true_and, Bool.and_eq_true, Bool.not_eq_true',
    List.contains_eq_mem, decide_eq_false_iff_not, decide_eq_true_eq, bne_iff_ne,
    List.all_eq_true, hempty, one_lt_length_initials hspecials hl, hbracket, hsafe]
  constructor
  · rintro ⟨⟨⟨hno, hseveral⟩, hstart⟩, hnul⟩
    exact ⟨hno, hseveral, hnul, hstart⟩
  · rintro ⟨hno, hseveral, hnul, hstart⟩
    exact ⟨⟨⟨hno, hseveral⟩, hstart⟩, hnul⟩

/-- The class of the first symbols is a bracket expression for the first characters. -/
theorem class_initials_spec (hspecials : options.specials = [])
    (hl : ∀ w, w ∈ l ↔ ∃ word ∈ words, word.toList = w)
    (hseveral : ∃ c d, c ≠ d ∧ IsInitial l c ∧ IsInitial l d) (hnul : ¬ IsInitial l '\x00') :
    ∃ content bracket, (Symbol.characterClass
        (initials ((sortDistinct words).map options.chain))).toList = '[' :: content ++ [']'] ∧
      Bracket.read? content = some bracket ∧ ∀ D c, bracket.Matches D c ↔ IsInitial l c := by
  have hall : ∀ x ∈ initials ((sortDistinct words).map options.chain),
      Symbol.isClassSafe x = true ∧ Chain.IsPiece .finite x := by
    intro x hx
    obtain ⟨c, hc, rfl⟩ := (mem_initials hspecials hl).1 hx
    exact ⟨Symbol.isClassSafe_ofChar.2 fun heq => hnul (heq ▸ hc), Symbol.isPiece_ofChar c⟩
  obtain ⟨a, b, hab, ha, hb⟩ := hseveral
  obtain ⟨content, bracket, htext, hread, hmatches⟩ := Chain.exists_content
    Fragment.finite_closed hall ((mem_initials hspecials hl).2 ⟨a, ha, rfl⟩)
    ((mem_initials hspecials hl).2 ⟨b, hb, rfl⟩) fun h => hab (Symbol.ofChar_injective h)
  refine ⟨content, bracket, htext, hread, ?_⟩
  -- the member for the symbol of a character matches that character
  have hmember : ∀ D, ∀ x ∈ initials ((sortDistinct words).map options.chain), ∀ d m,
      x = Symbol.ofChar d → Symbol.member? x = some m → ∀ c, m.Matches D c ↔ c = d := by
    intro D x hx d m hxd hm c
    obtain ⟨m', hm', hlanguage⟩ := Chain.exists_member (D := D) Fragment.finite_closed
      (hall x hx).1 (hall x hx).2
    cases hm.symm.trans hm'
    have hword := hlanguage [c]
    rw [hxd, Symbol.mem_atomLanguage_ofChar] at hword
    simpa [eq_comm] using hword.symm
  intro D c
  rw [hmatches]
  constructor
  · rintro ⟨x, hx, m, hm, hc⟩
    obtain ⟨d, hd, hxd⟩ := (mem_initials hspecials hl).1 hx
    rw [(hmember D x hx d m hxd hm c).1 hc]
    exact hd
  · intro hc
    have hx := (mem_initials hspecials hl).2 ⟨c, hc, rfl⟩
    obtain ⟨m, hm, _⟩ := Chain.exists_member (D := D) Fragment.finite_closed
      (hall _ hx).1 (hall _ hx).2
    exact ⟨_, hx, m, hm, (hmember D _ hx c m rfl hm c).2 rfl⟩

/-! ### Synthesis with an assertion -/

/-- Asking for an assertion changes nothing but what stands in front. -/
theorem synthesize_lookahead {limit : Nat} {pattern : String}
    (h : (synthesize ⟨[], false, limit⟩ words).outcome = .ok pattern) :
    (synthesize ⟨[], true, limit⟩ words).outcome =
      .ok (assertion ⟨[], true, limit⟩ words pattern ++ pattern) := by
  obtain ⟨hwords, merged, whole, hmerged, hwhole, hpattern⟩ := synthesize_eq_ok_iff.1 h
  have hnone : assertion ⟨[], false, limit⟩ words whole = "" := by
    simp [assertion, wantsLookahead]
  rw [hnone, String.empty_append] at hpattern
  rw [hpattern]
  exact synthesize_eq_ok_iff.2 ⟨hwords, merged, whole, hmerged, hwhole, rfl⟩

/-- What the assertion adds to the expression for some words. -/
theorem synthesize_lookahead_spec {limit : Nat} {pattern : String} {r : Expression}
    (h : (synthesize ⟨[], false, limit⟩ words).outcome = .ok pattern) (hr : WellFormed r)
    (htext : r.text = pattern.toList)
    (hl : ∀ w, w ∈ l ↔ ∃ word ∈ words, word.toList = w) (hlanguage : ∀ D, language D r = l) :
    (¬ Discriminates l r → (synthesize ⟨[], true, limit⟩ words).outcome = .ok pattern) ∧
      (Discriminates l r → ∃ content bracket, (synthesize ⟨[], true, limit⟩ words).outcome =
          .ok ("(?=[" ++ String.ofList content ++ "])" ++ pattern) ∧
        Bracket.read? content = some bracket ∧
        (∀ D c, bracket.Matches D c ↔ IsInitial l c) ∧
        (behindClass content r).text =
          ("(?=[" ++ String.ofList content ++ "])" ++ pattern).toList ∧
        ∀ D, lookingLanguage D (behindClass content r) = l) := by
  have hspecials : Options.specials ⟨[], true, limit⟩ = [] := rfl
  have hwants := wantsLookahead_iff hspecials rfl hl hr htext
  have hrun := synthesize_lookahead h
  constructor
  · intro hplain
    rw [assertion, if_neg (fun hw => hplain (hwants.1 hw)), String.empty_append] at hrun
    exact hrun
  · intro htells
    rw [assertion, if_pos (hwants.2 htells)] at hrun
    obtain ⟨content, bracket, hclass, hread, hmatches⟩ :=
      class_initials_spec hspecials hl htells.several htells.no_nul
    have hspelled : "(?=" ++ Symbol.characterClass
        (initials ((sortDistinct words).map (Options.chain ⟨[], true, limit⟩))) ++ ")" =
          "(?=[" ++ String.ofList content ++ "])" := by
      apply String.toList_injective
      simp [hclass]
    rw [hspelled] at hrun
    refine ⟨content, bracket, hrun, hread, hmatches, ?_, ?_⟩
    · simp [text_behindClass, htext]
    · intro D
      rw [lookingLanguage_behindClass, hlanguage]
      intro w hw
      rw [hlanguage] at hw
      cases w with
      | nil => exact absurd hw htells.no_empty
      | cons c cs => exact ⟨c, cs, rfl, bracket, hread, (hmatches D c).2 ⟨cs, hw⟩⟩

/-- **The assertion in front is sound.**  When some words have an expression without an
    assertion, they have one with it, and that is the same unless an assertion about the first
    character tells the words apart.  If it does, then it stands in front of the expression and
    is a bracket expression for exactly the first characters of the words.  In both cases the
    words are matched and nothing else. -/
theorem lookahead_synthesizeEncoded {limit : Nat} {encoded : List (List UInt8)} {pattern : String}
    (h : (synthesizeEncoded ⟨[], false, limit⟩ encoded).outcome = .ok pattern) :
    ∃ r, read pattern.toList = some r ∧ (∀ D, language D r = wordsOf encoded) ∧
      (¬ Discriminates (wordsOf encoded) r →
        (synthesizeEncoded ⟨[], true, limit⟩ encoded).outcome = .ok pattern) ∧
      (Discriminates (wordsOf encoded) r →
        ∃ content bracket, (synthesizeEncoded ⟨[], true, limit⟩ encoded).outcome =
            .ok ("(?=[" ++ String.ofList content ++ "])" ++ pattern) ∧
          Bracket.read? content = some bracket ∧
          (∀ D c, bracket.Matches D c ↔ IsInitial (wordsOf encoded) c) ∧
          (behindClass content r).text =
            ("(?=[" ++ String.ofList content ++ "])" ++ pattern).toList ∧
          ∀ D, lookingLanguage D (behindClass content r) = wordsOf encoded) := by
  unfold synthesizeEncoded at h ⊢
  split at h
  · cases h
  · rename_i words hwords
    have hl : ∀ w, w ∈ wordsOf encoded ↔ ∃ word ∈ words, word.toList = w := by
      intro w
      constructor
      · intro hw
        exact ⟨_, (mem_decodeWords hwords).2 hw, String.toList_ofList⟩
      · rintro ⟨word, hword, rfl⟩
        obtain ⟨bytes, hbytes, hdecoded⟩ := (mem_decodeWords hwords).1 hword
        exact ⟨bytes, hbytes, by rw [hdecoded, String.ofList_toList]⟩
    obtain ⟨r, hr, htext, hlanguage⟩ := exists_tree_of_synthesize rfl rfl h
    have hwf := hr.wellFormed Fragment.finite_closed
    have hwords : ∀ D, language D r = wordsOf encoded := fun D =>
      Language.ext fun w => (hlanguage D w).trans (hl w).symm
    exact ⟨r, read_eq_some_iff.2 ⟨hwf, htext⟩, hwords,
      synthesize_lookahead_spec h hwf htext hl hwords⟩

/-- The words `-a`, `]b` and `^c` begin with all that is special between brackets. -/
theorem lookahead_synthesizeEncoded_three_words :
    (synthesizeEncoded ⟨[], false, 256⟩ [[0x2D, 0x61], [0x5D, 0x62], [0x5E, 0x63]]).outcome =
      .ok "(?:-a|\\]b|\\^c)" ∧
    (synthesizeEncoded ⟨[], true, 256⟩ [[0x2D, 0x61], [0x5D, 0x62], [0x5E, 0x63]]).outcome =
      .ok "(?=[-\\]^])(?:-a|\\]b|\\^c)" ∧
    ∃ r content bracket, read "(?:-a|\\]b|\\^c)".toList = some r ∧
      Bracket.read? content = some bracket ∧
      (∀ D c, bracket.Matches D c ↔
        IsInitial (wordsOf [[0x2D, 0x61], [0x5D, 0x62], [0x5E, 0x63]]) c) ∧
      (behindClass content r).text = "(?=[-\\]^])(?:-a|\\]b|\\^c)".toList ∧
      ∀ D, lookingLanguage D (behindClass content r) =
        wordsOf [[0x2D, 0x61], [0x5D, 0x62], [0x5E, 0x63]] := by
  have hrun : (synthesizeEncoded ⟨[], false, 256⟩
      [[0x2D, 0x61], [0x5D, 0x62], [0x5E, 0x63]]).outcome = .ok "(?:-a|\\]b|\\^c)" := by
    decide +kernel
  have hlooking : (synthesizeEncoded ⟨[], true, 256⟩
      [[0x2D, 0x61], [0x5D, 0x62], [0x5E, 0x63]]).outcome =
        .ok "(?=[-\\]^])(?:-a|\\]b|\\^c)" := by
    decide +kernel
  obtain ⟨r, hread, _, _, hspec⟩ := lookahead_synthesizeEncoded hrun
  have hwords : ∀ w, w ∈ wordsOf [[0x2D, 0x61], [0x5D, 0x62], [0x5E, 0x63]] ↔
      w = ['-', 'a'] ∨ w = [']', 'b'] ∨ w = ['^', 'c'] := by
    have hdecoded : decodeUtf8 [0x2D, 0x61] = .ok "-a" ∧ decodeUtf8 [0x5D, 0x62] = .ok "]b" ∧
        decodeUtf8 [0x5E, 0x63] = .ok "^c" := by decide +kernel
    intro w
    change (∃ bytes ∈ _, decodeUtf8 bytes = .ok (String.ofList w)) ↔ _
    simp [hdecoded, ← String.toList_inj, eq_comm (b := w)]
  have hdiscriminates : Discriminates
      (wordsOf [[0x2D, 0x61], [0x5D, 0x62], [0x5E, 0x63]]) r := by
    refine ⟨by simp [hwords], ⟨'-', '^', by decide, ⟨['a'], by simp [hwords]⟩,
      ⟨['c'], by simp [hwords]⟩⟩, by simp [IsInitial, hwords], ?_⟩
    obtain ⟨hwf, htext⟩ := read_eq_some_iff.1 hread
    rw [← head_text_eq_bracket_iff hwf, htext]
    decide
  obtain ⟨content, bracket, hrun', hbracket, hmatches, htext, hlanguage⟩ := hspec hdiscriminates
  rw [← Except.ok.inj (hlooking.symm.trans hrun')] at htext
  exact ⟨hrun, hlooking, r, content, bracket, hread, hbracket, hmatches, htext, hlanguage⟩

end WordList

end RegexText
