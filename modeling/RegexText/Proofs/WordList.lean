/-
  RegexText/Proofs/WordList.lean
  ==============================
  **The expression for a list of words matches the words and nothing else.**

  A symbol matches its character, so the chain of a word matches the word.
  Merging the chains and writing down the result both preserve what is matched,
  and neither leaves the fragment of characters, escapes, bracket expressions,
  groups and greedy question marks.
-/
import RegexText.Proofs.Chain.Merge
import RegexText.WordList

namespace RegexText

open Text Regular

namespace Regular

/-- No quantifier, or one greedy question mark. -/
def IsOptionalOnly (q : Option Quantifier) : Prop := q = none ∨ q = some ⟨.optional, .greedy⟩

/-- The expressions that words are turned into: characters, escapes and bracket expressions
    in groups that do not capture, with greedy question marks. -/
def Fragment.finite : Fragment where
  units u q := u.isValid = true ∧ u ≠ .dot ∧ (∀ s negated, u ≠ .shorthand s negated) ∧
    IsOptionalOnly q
  groups g q := g = .nonCapturing ∧ IsOptionalOnly q

theorem IsOptionalOnly.mayBacktrack {q : Option Quantifier} (h : IsOptionalOnly q) :
    mayBacktrack q = true := by
  rcases h with rfl | rfl
  · rfl
  · rfl

theorem Fragment.finite_closed : Fragment.finite.Closed where
  valid _ _ h := ⟨h.1, h.2.2.2.mayBacktrack⟩
  backtrack _ _ h := h.2.mayBacktrack
  optional_unit _ h := ⟨h.1, h.2.1, h.2.2.1, .inr rfl⟩
  optional_group _ h := ⟨h.1, .inr rfl⟩
  wrap := ⟨rfl, .inl rfl⟩
  bracket _ h := ⟨h, by simp, by simp, .inl rfl⟩

end Regular

/-! ### Symbols of characters -/

namespace Symbol

/-- The unit that is spelled by the symbol of a character. -/
def unitOf (c : Char) : Matcher :=
  if c = '\x00' then .nul else if c ∈ special then .escaped c else .char c

theorem matches_unitOf {D : Dialect} {c d : Char} : (unitOf c).Matches D d ↔ d = c := by
  unfold unitOf
  split_ifs with hnul hspecial
  · rw [hnul]
    rfl
  · rfl
  · rfl

theorem isValid_unitOf (c : Char) : (unitOf c).isValid = true := by
  have hescape : ∀ c ∈ special, isPunctuation c = true := forall_mem_of_all (by decide)
  have hmeta : ∀ c ∈ metacharacters, c ∈ special := forall_mem_of_all (by decide)
  unfold unitOf
  split_ifs with hnul hspecial
  · rfl
  · exact hescape c hspecial
  · simpa [Matcher.isValid] using fun hc => hspecial (hmeta c hc)

theorem text_unitOf (c : Char) :
    (Regex.unit (unitOf c) none .done : Expression).text = (ofChar c).toList := by
  unfold unitOf ofChar
  split_ifs with hnul hspecial
  · rfl
  · simp [Regex.text, Written.spelling, Matcher.spelling, Spelling.text, Quantifier.text]
  · simp [Regex.text, Written.spelling, Matcher.spelling, Spelling.text, Quantifier.text]

theorem within_unitOf (c : Char) : Within .finite (.unit (unitOf c) none .done) := by
  refine ⟨⟨isValid_unitOf c, ?_, ?_, .inl rfl⟩, trivial⟩
  · unfold unitOf
    split_ifs <;> simp
  · intro s negated
    unfold unitOf
    split_ifs <;> simp

theorem isPiece_ofChar (c : Char) : Chain.IsPiece .finite (ofChar c) :=
  ⟨_, within_unitOf c, trivial, text_unitOf c⟩

theorem mem_atomLanguage_ofChar {D : Dialect} {c : Char} {w : List Char} :
    w ∈ Chain.atomLanguage D (ofChar c) ↔ w = [c] := by
  rw [Chain.atomLanguage_eq Fragment.finite_closed (within_unitOf c) (text_unitOf c),
    language_unit]
  constructor
  · rintro ⟨d, hd, rfl⟩
    rw [matches_unitOf.1 hd]
  · rintro rfl
    exact ⟨c, matches_unitOf.2 rfl, rfl⟩

/-- The chain of symbols of some characters matches these characters only. -/
theorem mem_language_map_ofChar {D : Dialect} {cs w : List Char} :
    w ∈ Chain.language D (cs.map ofChar) ↔ w = cs := by
  induction cs generalizing w with
  | nil => exact Language.mem_one w
  | cons c cs ih =>
    rw [List.map_cons, Chain.language_cons, Language.mem_mul]
    constructor
    · rintro ⟨as, has, bs, hbs, rfl⟩
      rw [mem_atomLanguage_ofChar.1 has, ih.1 hbs]
      rfl
    · rintro rfl
      exact ⟨[c], mem_atomLanguage_ofChar.2 rfl, cs, ih.2 rfl, rfl⟩

end Symbol

/-! ### Lists of words -/

namespace WordList

theorem chain_of_specials {options : Options} (h : options.specials = []) (word : String) :
    options.chain word = word.toList.map Symbol.ofChar := by
  have hsymbol : options.symbol = Symbol.ofChar := by
    funext c
    simp [Options.symbol, h]
  rw [Options.chain, hsymbol]

/-- Decoded words are those that some bytes of the list are decoded to. -/
theorem mem_decodeWords {index : Nat} {encoded : List (List UInt8)} {words : List String}
    (h : decodeWords index encoded = .ok words) {word : String} :
    word ∈ words ↔ ∃ bytes ∈ encoded, decodeUtf8 bytes = .ok word := by
  induction encoded generalizing index words with
  | nil =>
    cases h
    simp
  | cons bytes later ih =>
    unfold decodeWords at h
    split at h
    · cases h
    · rename_i first hfirst
      cases hlater : decodeWords (index + 1) later with
      | error e =>
        rw [hlater] at h
        cases h
      | ok rest =>
        rw [hlater] at h
        cases h
        rw [List.mem_cons, ih hlater, List.exists_mem_cons_iff, hfirst, Except.ok.injEq, eq_comm]

/-- The assertion that stands in front of what `words` are merged into, if it belongs there. -/
def assertion (options : Options) (words : List String) (whole : String) : String :=
  let first := initials ((sortDistinct words).map options.chain)
  if wantsLookahead options (sortDistinct words) first whole then
    "(?=" ++ Symbol.characterClass first ++ ")"
  else ""

/-- Synthesis merges the chains, makes one expression of the result, and puts the assertion in
    front. -/
theorem synthesize_eq_ok_iff {options : Options} {words : List String} {pattern : String} :
    (synthesize options words).outcome = .ok pattern ↔
      words ≠ [] ∧ ∃ merged whole,
        (Chain.merge options.depthLimit ((sortDistinct words).map options.chain)).outcome =
          .ok merged ∧
        (Chain.alternation [merged] false).outcome = .ok whole ∧
        pattern = assertion options words whole ++ whole := by
  have hfront : ∀ whole, (if wantsLookahead options (sortDistinct words)
      (initials ((sortDistinct words).map options.chain)) whole then
        "(?=" ++ Symbol.characterClass (initials ((sortDistinct words).map options.chain)) ++
          ")" ++ whole
      else whole) = assertion options words whole ++ whole := by
    intro whole
    rw [assertion]
    split
    · rfl
    · rw [String.empty_append]
  unfold synthesize
  split
  · rename_i hwords
    simp [List.isEmpty_iff.1 hwords]
  · rename_i hwords
    simp only [Traced.outcome_bind_eq_ok_iff, hfront]
    constructor
    · rintro ⟨merged, hmerged, whole, hwhole, _, _, hpattern⟩
      cases hpattern
      exact ⟨fun h => hwords (List.isEmpty_iff.2 h), merged, whole, hmerged, hwhole, rfl⟩
    · rintro ⟨_, merged, whole, hmerged, hwhole, rfl⟩
      exact ⟨merged, hmerged, whole, hwhole, (), rfl, rfl⟩

/-- What is synthesized without special texts: an expression for the words behind the
    assertion. -/
theorem exists_tree_behind_assertion {options : Options} (hspecials : options.specials = [])
    {words : List String} {pattern : String}
    (h : (synthesize options words).outcome = .ok pattern) :
    ∃ r whole, Within .finite r ∧ r.text = whole.toList ∧
      (∀ D w, w ∈ language D r ↔ ∃ word ∈ words, word.toList = w) ∧
      pattern = assertion options words whole ++ whole := by
  obtain ⟨hwords, merged, whole, hmerged, hwhole, hpattern⟩ := synthesize_eq_ok_iff.1 h
  have hne : (sortDistinct words).map options.chain ≠ [] := by
    obtain ⟨word, hword⟩ := List.exists_mem_of_ne_nil words hwords
    exact List.ne_nil_of_mem (List.mem_map_of_mem (mem_sortDistinct.2 hword))
  have hpieces : ∀ c ∈ (sortDistinct words).map options.chain, Chain.AllPieces .finite c := by
    intro c hc a ha
    obtain ⟨word, _, rfl⟩ := List.mem_map.1 hc
    rw [chain_of_specials hspecials] at ha
    obtain ⟨d, _, rfl⟩ := List.mem_map.1 ha
    exact Symbol.isPiece_ofChar d
  have hfaithful : ∀ D, Chain.AllPieces .finite merged ∧ Chain.language D merged =
      Chain.union D ((sortDistinct words).map options.chain) := fun D =>
    Chain.faithful_mergeWithin Fragment.finite_closed _ _ _ _ hne hpieces hmerged
  have halternation : ∀ D, Chain.IsPiece .finite whole ∧ ∀ w,
      w ∈ Chain.atomLanguage D whole ↔ w ∈ Chain.language D merged := by
    intro D
    obtain ⟨e, he, hpiece, hlanguage⟩ := Chain.alternation_spec (D := D)
      Fragment.finite_closed (List.cons_ne_nil merged [])
      (by simpa using (hfaithful D).1) false
    cases he.symm.trans hwhole
    refine ⟨hpiece, ?_⟩
    intro w
    rw [hlanguage, Chain.union_singleton]
    simp
  obtain ⟨r, hr, _, htext⟩ := (halternation ⟨fun _ => True, fun _ _ => True⟩).1
  refine ⟨r, whole, hr, htext, ?_, hpattern⟩
  intro D w
  rw [← Chain.atomLanguage_eq Fragment.finite_closed hr htext, (halternation D).2,
    (hfaithful D).2, Chain.mem_union]
  constructor
  · rintro ⟨c, hc, hw⟩
    obtain ⟨word, hword, rfl⟩ := List.mem_map.1 hc
    rw [chain_of_specials hspecials, Symbol.mem_language_map_ofChar] at hw
    exact ⟨word, mem_sortDistinct.1 hword, hw.symm⟩
  · rintro ⟨word, hword, rfl⟩
    refine ⟨_, List.mem_map_of_mem (mem_sortDistinct.2 hword), ?_⟩
    rw [chain_of_specials hspecials, Symbol.mem_language_map_ofChar]

/-- What is synthesized without special texts and without an assertion. -/
theorem exists_tree_of_synthesize {options : Options} (hspecials : options.specials = [])
    (hlookahead : options.lookahead = false) {words : List String} {pattern : String}
    (h : (synthesize options words).outcome = .ok pattern) :
    ∃ r, Within .finite r ∧ r.text = pattern.toList ∧
      ∀ D w, w ∈ language D r ↔ ∃ word ∈ words, word.toList = w := by
  obtain ⟨r, whole, hr, htext, hlanguage, hpattern⟩ := exists_tree_behind_assertion hspecials h
  have hnone : assertion options words whole = "" := by
    simp [assertion, wantsLookahead, hlookahead]
  rw [hnone, String.empty_append] at hpattern
  exact ⟨r, hr, by rw [htext, hpattern], hlanguage⟩

/-- **The synthesized expression matches exactly the words.**  Whatever the depth limit, when
    words that come as UTF-8 have an expression at all, it spells one expression made of
    characters, escapes, bracket expressions, groups and greedy question marks, and the texts
    that this matches from end to end are the words. -/
theorem language_synthesizeEncoded {options : Options} (hspecials : options.specials = [])
    (hlookahead : options.lookahead = false) {encoded : List (List UInt8)} {pattern : String}
    (h : (synthesizeEncoded options encoded).outcome = .ok pattern) :
    ∃ r, read pattern.toList = some r ∧ Within .finite r ∧
      ∀ D w, w ∈ language D r ↔ ∃ bytes ∈ encoded, decodeUtf8 bytes = .ok (String.ofList w) := by
  unfold synthesizeEncoded at h
  split at h
  · cases h
  · rename_i words hwords
    obtain ⟨r, hr, htext, hlanguage⟩ := exists_tree_of_synthesize hspecials hlookahead h
    refine ⟨r, read_eq_some_iff.2 ⟨hr.wellFormed Fragment.finite_closed, htext⟩, hr, ?_⟩
    intro D w
    rw [hlanguage]
    constructor
    · rintro ⟨word, hword, rfl⟩
      rw [String.ofList_toList]
      exact (mem_decodeWords hwords).1 hword
    · intro hbytes
      exact ⟨_, (mem_decodeWords hwords).2 hbytes, String.toList_ofList⟩

/-- The words `a*b`, `a`, `é`, `-` and `a-b`, with metacharacters and an accent. -/
theorem language_synthesizeEncoded_five_words :
    (synthesizeEncoded .default
        [[0x61, 0x2A, 0x62], [0x61], [0xC3, 0xA9], [0x2D], [0x61, 0x2D, 0x62]]).outcome =
      .ok "(?:[-é]|a(?:\\*b|-b)?)" ∧
    ∃ r, read "(?:[-é]|a(?:\\*b|-b)?)".toList = some r ∧ Within .finite r ∧
      ∀ D w, w ∈ language D r ↔
        ∃ bytes ∈ [[0x61, 0x2A, 0x62], [0x61], [0xC3, 0xA9], [0x2D], [0x61, 0x2D, 0x62]],
          decodeUtf8 bytes = .ok (String.ofList w) := by
  have hrun : (synthesizeEncoded .default
      [[0x61, 0x2A, 0x62], [0x61], [0xC3, 0xA9], [0x2D], [0x61, 0x2D, 0x62]]).outcome =
        .ok "(?:[-é]|a(?:\\*b|-b)?)" := by decide +kernel
  exact ⟨hrun, language_synthesizeEncoded rfl rfl hrun⟩

end WordList

end RegexText
