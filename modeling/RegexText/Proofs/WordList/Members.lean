/-
  RegexText/Proofs/WordList/Members.lean
  ======================================
  **The expression depends on which words there are, and on nothing else.**

  Merging looks at its chains in the order in which they come, and so does the
  assertion in front.  That order is settled before: words are sorted and freed of
  duplicates, and of the special texts only what they say of each character is
  used.  So neither the order of the words, nor how often one comes, nor the order
  in which special texts were given can be seen in the result.

  Only a word that is not UTF-8 is told by its place, and of several the first.
-/
import RegexText.Proofs.WordList.Depth

namespace RegexText.WordList

open Text

/-! ### Options -/

/-- Do two sets of options say the same? -/
structure Options.Agrees (options options' : Options) : Prop where
  specials : ∀ c, options.specials.lookup c = options'.specials.lookup c
  lookahead : options.lookahead = options'.lookahead
  depthLimit : options.depthLimit = options'.depthLimit

namespace Options.Agrees

variable {options options' : Options}

theorem chain_eq (h : options.Agrees options') : options.chain = options'.chain := by
  have hsymbol : options.symbol = options'.symbol := by
    funext c
    rw [symbol, symbol, h.specials]
  funext word
  rw [chain, chain, hsymbol]

theorem wantsLookahead_eq (h : options.Agrees options') (words first : List String)
    (pattern : String) :
    wantsLookahead options words first pattern = wantsLookahead options' words first pattern := by
  rw [wantsLookahead, wantsLookahead, h.lookahead]

/-- Special texts of different characters may be given in either order. -/
theorem withSpecial_comm (options : Options) {c d : Char} (hne : c ≠ d) (s t : String) :
    ((options.withSpecial c s).withSpecial d t).Agrees
      ((options.withSpecial d t).withSpecial c s) where
  specials e := by
    by_cases hc : e = c
    · subst hc
      simp [withSpecial, List.lookup_cons, beq_false_of_ne hne]
    · simp [withSpecial, List.lookup_cons, beq_false_of_ne hc]
  lookahead := rfl
  depthLimit := rfl

end Options.Agrees

/-! ### Words -/

variable {options options' : Options} {words words' : List String}

theorem synthesize_congr (hoptions : options.Agrees options')
    (hwords : ∀ word, word ∈ words ↔ word ∈ words') :
    synthesize options words = synthesize options' words' := by
  have hempty : words.isEmpty = words'.isEmpty := by
    rw [Bool.eq_iff_iff, List.isEmpty_iff, List.isEmpty_iff, List.eq_nil_iff_forall_not_mem,
      List.eq_nil_iff_forall_not_mem]
    simp only [hwords]
  simp only [synthesize, hempty, sortDistinct_congr hwords, hoptions.chain_eq,
    hoptions.depthLimit, hoptions.wantsLookahead_eq]

/-- Where there is a word, the only failure is that merging exceeds its limit. -/
theorem failsOnly_synthesize (options : Options) (hne : words ≠ []) :
    (synthesize options words).FailsOnly (· = .recursionLimit options.depthLimit) := by
  unfold synthesize
  rw [if_neg (by simpa using hne)]
  refine .bind (Chain.failsOnly_merge _ _) fun merged => ?_
  refine .bind (.of_succeeds (Chain.succeeds_alternation [merged] false)) fun whole => ?_
  exact .bind (.note _) fun _ => .pure _

/-! ### Words as bytes -/

/-- Is a word UTF-8? -/
def IsUtf8 (bytes : List UInt8) : Prop := ∃ word, decodeUtf8 bytes = .ok word

instance (bytes : List UInt8) : Decidable (IsUtf8 bytes) :=
  match h : decodeUtf8 bytes with
  | .ok word => isTrue ⟨word, h⟩
  | .error _ => isFalse fun ⟨_, hword⟩ => by simp [h] at hword

/-- Is the word at `index` the first one that is not UTF-8, and is that what is wrong with it? -/
def FirstRefused (encoded : List (List UInt8)) (index : Nat) (refusal : Utf8Refusal) : Prop :=
  ∃ front bytes later, encoded = front ++ bytes :: later ∧ front.length = index ∧
    (∀ word ∈ front, IsUtf8 word) ∧ decodeUtf8 bytes = .error refusal

variable {encoded encoded' : List (List UInt8)}

theorem exists_firstRefused (h : ∃ bytes ∈ encoded, ¬ IsUtf8 bytes) :
    ∃ index refusal, FirstRefused encoded index refusal := by
  induction encoded with
  | nil => simp at h
  | cons bytes later ih =>
    cases hdecoded : decodeUtf8 bytes with
    | error refusal => exact ⟨0, refusal, [], bytes, later, rfl, rfl, by simp, hdecoded⟩
    | ok word =>
      have hbytes : IsUtf8 bytes := ⟨word, hdecoded⟩
      obtain ⟨other, hother, hno⟩ := h
      have hlater : other ∈ later := (List.mem_cons.1 hother).resolve_left fun h => hno (h ▸ hbytes)
      obtain ⟨index, refusal, front, refused, behind, rfl, rfl, hfront, hrefused⟩ :=
        ih ⟨other, hlater, hno⟩
      exact ⟨front.length + 1, refusal, bytes :: front, refused, behind, rfl, rfl,
        List.forall_mem_cons.2 ⟨hbytes, hfront⟩, hrefused⟩

/-- Decoding stops at the first word that is not UTF-8 and tells its place. -/
theorem decodeWords_of_firstRefused {index : Nat} {refusal : Utf8Refusal} (start : Nat)
    (h : FirstRefused encoded index refusal) :
    decodeWords start encoded = .error (.encoding (start + index) refusal) := by
  obtain ⟨front, bytes, later, rfl, rfl, hfront, hrefused⟩ := h
  induction front generalizing start with
  | nil => simp [decodeWords, hrefused]
  | cons first front ih =>
    obtain ⟨⟨word, hword⟩, hfront⟩ := List.forall_mem_cons.1 hfront
    rw [List.cons_append, decodeWords, hword, ih (start + 1) hfront, List.length_cons,
      Nat.add_right_comm, Nat.add_assoc]
    rfl

/-- **The expression depends on which words there are, and on nothing else.**  Words that are UTF-8
    have the same result as any others with the same members, in whatever order and however often,
    under all options that say the same, and the result is an expression, unless merging exceeds
    its limit.  Otherwise what is reported is the place of the first word that is not UTF-8. -/
theorem synthesizeEncoded_by_members (options : Options) (encoded : List (List UInt8)) :
    ((∀ bytes ∈ encoded, IsUtf8 bytes) →
      (∀ options' encoded', options.Agrees options' →
        (∀ bytes, bytes ∈ encoded ↔ bytes ∈ encoded') →
          synthesizeEncoded options encoded = synthesizeEncoded options' encoded') ∧
      (encoded ≠ [] → (∃ pattern, (synthesizeEncoded options encoded).outcome = .ok pattern) ∨
        (synthesizeEncoded options encoded).outcome =
          .error (.recursionLimit options.depthLimit))) ∧
    ((∃ bytes ∈ encoded, ¬ IsUtf8 bytes) → ∃ index refusal, FirstRefused encoded index refusal ∧
      (synthesizeEncoded options encoded).outcome = .error (.encoding index refusal)) := by
  refine ⟨fun hvalid => ?_, fun hinvalid => ?_⟩
  · obtain ⟨words, hwords⟩ := exists_decodeWords 0 hvalid
    have hrun : synthesizeEncoded options encoded = synthesize options words := by
      rw [synthesizeEncoded, hwords]
    refine ⟨fun options' encoded' hoptions hmem => ?_, fun hne => ?_⟩
    · obtain ⟨words', hwords'⟩ := exists_decodeWords 0 fun bytes hbytes =>
        hvalid bytes ((hmem bytes).2 hbytes)
      rw [hrun, synthesizeEncoded, hwords']
      apply synthesize_congr hoptions
      intro word
      simp only [mem_decodeWords hwords, mem_decodeWords hwords', hmem]
    · have hwordsne : words ≠ [] := by
        obtain ⟨bytes, hbytes⟩ := List.exists_mem_of_ne_nil encoded hne
        obtain ⟨word, hword⟩ := hvalid bytes hbytes
        exact List.ne_nil_of_mem ((mem_decodeWords hwords).2 ⟨bytes, hbytes, hword⟩)
      rw [hrun]
      cases houtcome : (synthesize options words).outcome with
      | ok pattern => exact .inl ⟨pattern, rfl⟩
      | error e => exact .inr (congrArg _ (failsOnly_synthesize options hwordsne e houtcome))
  · obtain ⟨index, refusal, hrefused⟩ := exists_firstRefused hinvalid
    refine ⟨index, refusal, hrefused, ?_⟩
    rw [synthesizeEncoded, decodeWords_of_firstRefused 0 hrefused, Nat.zero_add]
    rfl

/-- `b`, `ax` and `c`, where `b` comes twice the second time and the special texts were given the
    other way round; and four words of which the third and the fourth are not UTF-8. -/
theorem synthesizeEncoded_by_members_special_texts :
    let options := (Options.default.withSpecial 'a' "\\d").withSpecial 'b' "\\s"
    synthesizeEncoded options [[0x62], [0x61, 0x78], [0x63]] =
        synthesizeEncoded ((Options.default.withSpecial 'b' "\\s").withSpecial 'a' "\\d")
          [[0x63], [0x62], [0x61, 0x78], [0x62]] ∧
      (synthesizeEncoded options [[0x62], [0x61, 0x78], [0x63]]).outcome =
        .ok "(?:[\\sc]|\\dx)" ∧
      ∃ index refusal, FirstRefused [[0x62], [0x63], [0xc3], [0xff]] index refusal ∧
        (synthesizeEncoded options [[0x62], [0x63], [0xc3], [0xff]]).outcome =
          .error (.encoding index refusal) := by
  intro options
  obtain ⟨hsame, -⟩ := (synthesizeEncoded_by_members options [[0x62], [0x61, 0x78], [0x63]]).1
    (by decide +kernel)
  refine ⟨hsame _ _ (.withSpecial_comm _ (by decide) _ _) fun bytes => ?_, by decide +kernel,
    (synthesizeEncoded_by_members options [[0x62], [0x63], [0xc3], [0xff]]).2 (by decide +kernel)⟩
  simp only [List.mem_cons, List.not_mem_nil]
  tauto

end RegexText.WordList
