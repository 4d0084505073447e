/-
  RegexText/Proofs/Conversion/Backreferences.lean
  ===============================================
  **Which references a pattern may hold.**

  Whether a pattern is converted is decided, once nothing but its references is in
  question, by each reference on its own: it must be spelled in one of eight ways
  and mean a group that has been opened before it.  The statements speak of the
  text of the body and of the places where its capturing groups open, and not of
  tokens.

  A ninth spelling passes as well.  A count between braces is read as a size, and a
  size may have a plus sign; so a hyphen may be followed by one.
-/
import RegexText.Proofs.Conversion.Places

namespace RegexText

open Text Source TokenStream

/-! ### References and what comes behind them -/

namespace Source

variable {groups : Groups} {letter : Char} {after tail text rest : List Char}

/-- Behind a text that holds no character with which a token begins, a text that ends there goes
    on. -/
theorem exists_append_of_atToken (htext : ∀ c ∈ text, c ≠ '(' ∧ c ≠ '[' ∧ c ≠ ')')
    (htail : AtToken tail) (h : text ++ rest = after ++ tail) :
    ∃ between, after = text ++ between ∧ rest = between ++ tail := by
  have hafter : ∃ between, after = text ++ between := by
    cases tail with
    | nil => exact ⟨rest, by simpa using h.symm⟩
    | cons d ds =>
      refine exists_append_of_forall_ne (fun c hc => ?_) h
      obtain ⟨hgroup, hbracket, hcloser⟩ := htext c hc
      rcases htail d rfl with rfl | rfl | rfl
      · exact hgroup
      · exact hbracket
      · exact hcloser
  obtain ⟨between, rfl⟩ := hafter
  rw [List.append_assoc] at h
  exact ⟨between, rfl, List.append_cancel_left h⟩

theorem digitAhead_append (htail : AtToken tail) (cs : List Char) :
    digitAhead (cs ++ tail) = digitAhead cs := by
  cases cs with
  | cons c cs => rfl
  | nil =>
    cases tail with
    | nil => rfl
    | cons d ds => rcases htail d rfl with rfl | rfl | rfl <;> rfl

/-- A legal reference holds no character with which a token begins. -/
theorem ne_of_mem_reference {r : Reference} (h : r.isLegal groups = true) :
    ∀ c ∈ r.text, c ≠ '(' ∧ c ≠ '[' ∧ c ≠ ')' := by
  have hfree : FreeOf (fun c => c = '(' ∨ c = '[' ∨ c = ')') r.text := by
    refine freeOf_reference h ?_ (by decide)
    rintro c hc (rfl | rfl | rfl) <;> cases hc
  have hend : r.isOpen = true → digitAhead [] = false := fun _ => rfl
  obtain ⟨spelling, hread⟩ := read_reference h hend
  obtain ⟨found, hfound, hplain⟩ := Backreference.exists_spelling_of_read hread
  rw [← List.append_cancel_right hfound] at hplain
  rw [Reference.text_eq] at hfree ⊢
  have hletter : r.letter ≠ '(' ∧ r.letter ≠ '[' ∧ r.letter ≠ ')' := by
    rcases r.letter_eq with hr | hr <;> (rw [hr]; decide)
  refine List.forall_mem_cons.2 ⟨by decide, List.forall_mem_cons.2 ⟨hletter, fun c hc => ?_⟩⟩
  simpa using hfree.of_pair.forall_not hplain c hc

theorem ne_of_mem_digits {digits : List Char} {number : Nat}
    (h : readDigits? digits = some number) : ∀ c ∈ digits, c ≠ '(' ∧ c ≠ '[' ∧ c ≠ ')' := by
  intro c hc
  have hdigit := (all_isDigit_of_readDigits? h).2 c hc
  exact ⟨ne_of_apply hdigit (by decide), ne_of_apply hdigit (by decide),
    ne_of_apply hdigit (by decide)⟩

/-- No reference reaches beyond the beginning of a token. -/
theorem referenceAt_append_iff (htail : AtToken tail) :
    ReferenceAt groups letter (after ++ tail) ↔ ReferenceAt groups letter after := by
  constructor
  · rintro ⟨r, rest, hlegal, hdigit, htext⟩
    have hcut : r.text ++ rest = ('\\' :: letter :: after) ++ tail := htext.symm
    obtain ⟨between, hafter, rfl⟩ :=
      exists_append_of_atToken (ne_of_mem_reference hlegal) htail hcut
    rw [digitAhead_append htail] at hdigit
    exact ⟨r, between, hlegal, hdigit, hafter⟩
  · rintro ⟨r, rest, hlegal, hdigit, htext⟩
    refine ⟨r, rest ++ tail, hlegal, ?_, ?_⟩
    · rwa [digitAhead_append htail]
    · rw [← List.append_assoc, ← htext]
      rfl

theorem signedAt_append_iff (htail : AtToken tail) :
    SignedAt groups letter (after ++ tail) ↔ SignedAt groups letter after := by
  constructor
  · rintro ⟨digits, rest, count, hletter, htext, hcount, hbounds⟩
    have hplain : ∀ c ∈ '{' :: '-' :: '+' :: digits ++ ['}'], c ≠ '(' ∧ c ≠ '[' ∧ c ≠ ')' := by
      intro c hc
      simp only [List.cons_append, List.mem_cons, List.mem_append, List.not_mem_nil,
        or_false] at hc
      rcases hc with rfl | rfl | rfl | hc | rfl
      · decide
      · decide
      · decide
      · exact ne_of_mem_digits hcount c hc
      · decide
    have hcut : '{' :: '-' :: '+' :: digits ++ ['}'] ++ rest = after ++ tail := by
      rw [htext]
      simp
    obtain ⟨between, rfl, rfl⟩ := exists_append_of_atToken hplain htail hcut
    exact ⟨digits, between, count, hletter, by simp, hcount, hbounds⟩
  · rintro ⟨digits, rest, count, hletter, rfl, hcount, hbounds⟩
    exact ⟨digits, rest ++ tail, count, hletter, by simp, hcount, hbounds⟩

end Source

/-! ### Whole patterns -/

/-- Does something hold of all references of a body, each with the groups that have been opened
    before it? -/
def References (body : List Char) (groups : List (Nat × Option String))
    (P : Groups → Char → List Char → Prop) : Prop :=
  ∀ before letter after, body = before ++ '\\' :: letter :: after → Lexeme.Outside before →
    letter = 'k' ∨ letter = 'g' → P (openedBefore groups (byteLength before)) letter after

namespace Pattern

open Conversion

variable {limit : Nat} {pattern : String} {p : Pattern}

theorem readable_of_parse (h : (parse limit pattern).outcome = .ok p) :
    ∀ l ∈ Lexeme.ofBody p.body.toList, l.Readable (· = p.delimiter) := by
  obtain ⟨s, hreads, _⟩ := tokenize_eq_ok_iff.1 (tokenize_of_parse h)
  intro l hl
  have hclosed := isClosed_of_reads hreads l hl
  exact ⟨Lexeme.safe_of_mem_ofBody (freeOf_of_parse h) hl, hclosed,
    Lexeme.exists_head_of_mem_ofBody hl hclosed⟩

/-- The groups behind which a lexeme stands are those that have been opened before its offset. -/
theorem openedBefore_of_parse (h : (parse limit pattern).outcome = .ok p) {ls ms : List Lexeme}
    (hls : Lexeme.ofBody p.body.toList = ls ++ ms) :
    openedBefore (groupsOf p.tokens) (byteLength (ls.flatMap Lexeme.text)) =
      (ls.filterMap Lexeme.captureName?).reverse := by
  rw [← groupsOf_unlinked, map_unlinked_of_tokenize (tokenize_of_parse h), hls]
  apply openedBefore_groupsOf
  intro l hl
  exact text_ne_nil_of_mem_ofBody (hls ▸ List.mem_append_left ms hl)

/-- The pairs in the literal text of a pattern are the references of its body. -/
theorem forall_spans_iff_references (h : (parse limit pattern).outcome = .ok p)
    {P : Groups → Char → List Char → Prop}
    (hcut : ∀ groups letter after tail, AtToken tail →
      (P groups letter (after ++ tail) ↔ P groups letter after)) :
    (∀ s ∈ p.spans, ∀ letter after, PairAt s.text letter after → letter = 'k' ∨ letter = 'g' →
      P s.groups letter after) ↔
    References p.body.toList (groupsOf p.tokens) P := by
  have hreadable := readable_of_parse h
  have hbody := Lexeme.flatMap_text_ofBody p.body.toList
  have hspans : p.spans = Conversion.spans p.body.toList [] 0
      (layout 0 [] (Lexeme.ofBody p.body.toList)) := by
    rw [Pattern.spans, ← spans_unlinked, map_unlinked_of_tokenize (tokenize_of_parse h)]
  have hpieces := forall_spans_iff [] [] []
    (Q := fun groups letter after => letter = 'k' ∨ letter = 'g' → P groups letter after)
    hbody.symm hreadable
  rw [hspans, References, Lexeme.forall_escaped_iff fun l hl => (hreadable l hl).closed]
  refine hpieces.trans (forall₃_congr fun ls letter ms => forall_congr' fun hls => ?_)
  have hms : ∀ l ∈ ms, l.Readable (· = p.delimiter) :=
    fun l hl => hreadable l (by rw [hls]; simp [hl])
  obtain ⟨tail, htail, hat⟩ := exists_span_append (kindsThrough [] ls) hms
  rw [openedBefore_of_parse h hls, htail, hcut _ _ _ _ hat, List.append_nil]

/-- **Which references are resolved.**  A pattern in which nothing else is amiss is converted
    exactly if each of its references is legal among the groups that have been opened before it,
    or is a count between braces with a plus sign behind its hyphen.  If it is not converted,
    then for want of a feature. -/
theorem succeeds_convert_iff_references (hparse : (parse limit pattern).outcome = .ok p)
    (hother : p.IsConvertible) :
    ∃ groups, CapturingGroups p.body.toList groups ∧
      (p.convert.Succeeds ↔ References p.body.toList groups fun groups letter after =>
        ReferenceAt groups letter after ∨ SignedAt groups letter after) ∧
      ∀ e, p.convert.outcome = .error e → ∃ feature, e = .unsupportedFeature feature := by
  have htokens := tokenize_of_parse hparse
  refine ⟨groupsOf p.tokens, capturingGroups_of_tokenize htokens, ?_, ?_⟩
  · rw [← forall_spans_iff_references hparse fun _ _ _ _ htail =>
      or_congr (referenceAt_append_iff htail) (signedAt_append_iff htail)]
    have hspans : (∀ s ∈ p.spans,
        (convertLiteral (p.hasModifier 's') (capturesOf s.groups) s.text).Succeeds) ↔
          ∀ s ∈ p.spans, ∀ letter after, PairAt s.text letter after →
            letter = 'k' ∨ letter = 'g' →
              ReferenceAt s.groups letter after ∨ SignedAt s.groups letter after := by
      refine forall₂_congr fun s hs => ?_
      rw [succeeds_convertLiteral_iff (hother.spans s hs)]
      exact forall₂_congr fun _ _ => forall_comm
    rw [succeeds_convert_iff_spans (placed_of_tokenize htokens), hspans]
    exact ⟨fun h => h.2.1, fun h => ⟨hother.modifiers, h, hother.tokens⟩⟩
  · intro e he
    refine failsOnly_convert (P := fun e => ∃ feature, e = .unsupportedFeature feature)
      (fun _ => ⟨_, rfl⟩) (fun t ht => ?_) e he
    exact .of_succeeds ((succeeds_convertToken_iff t).2 (hother.tokens t ht))

/-- Each of the eight spellings once; further backslashes before a `k` stand between brackets or
    behind a backslash. -/
def eightReferences : Pattern :=
  ⟨'/', "", "(?<a>x)(y)\\k<a>\\k'a'\\k{a}\\g{a}\\g1\\g{02}\\g-1\\g{-2}[\\k]\\\\k",
    [⟨0, 5, .groupStart (.capturing (some "a")) 1⟩, ⟨6, 1, .groupEnd .capturing 0 ""⟩,
      ⟨7, 1, .groupStart (.capturing none) 3⟩, ⟨9, 1, .groupEnd .capturing 2 ""⟩,
      ⟨49, 4, .characterClass "\\k" ""⟩]⟩

theorem succeeds_convert_eightReferences :
    (parse 256 ("/" ++ eightReferences.body ++ "/")).outcome = .ok eightReferences ∧
      eightReferences.IsConvertible ∧
      eightReferences.convert.outcome =
        .ok ⟨"/(x)(y)\\1\\1\\1\\1\\1\\2\\2\\1[\\k]\\\\k/", ⟨[("a", 1)]⟩⟩ ∧
      ∃ groups, CapturingGroups eightReferences.body.toList groups ∧
        References eightReferences.body.toList groups fun groups letter after =>
          ReferenceAt groups letter after ∨ SignedAt groups letter after := by
  have hparse : (parse 256 ("/" ++ eightReferences.body ++ "/")).outcome = .ok eightReferences := by
    decide +kernel
  have hother : eightReferences.IsConvertible := by decide +kernel
  have hrun : eightReferences.convert.outcome =
      .ok ⟨"/(x)(y)\\1\\1\\1\\1\\1\\2\\2\\1[\\k]\\\\k/", ⟨[("a", 1)]⟩⟩ := by decide +kernel
  obtain ⟨groups, hgroups, hiff, _⟩ := succeeds_convert_iff_references hparse hother
  exact ⟨hparse, hother, hrun, groups, hgroups, hiff.1 ⟨_, hrun⟩⟩

/-- A pattern whose only reference is a count with a sign. -/
def signedReference : Pattern :=
  ⟨'/', "", "(a)\\g{-+1}",
    [⟨0, 1, .groupStart (.capturing none) 1⟩, ⟨2, 1, .groupEnd .capturing 0 ""⟩]⟩

/-- That is converted although the reference is not legal. -/
theorem succeeds_convert_signedReference :
    (parse 256 "/(a)\\g{-+1}/").outcome = .ok signedReference ∧
      signedReference.IsConvertible ∧
      signedReference.convert.outcome = .ok ⟨"/(a)\\1/", ⟨[]⟩⟩ ∧
      ∃ groups, CapturingGroups signedReference.body.toList groups ∧
        ¬ References signedReference.body.toList groups ReferenceAt := by
  have hparse : (parse 256 "/(a)\\g{-+1}/").outcome = .ok signedReference := by decide +kernel
  refine ⟨hparse, by decide +kernel, by decide +kernel, groupsOf signedReference.tokens,
    capturingGroups_of_tokenize (tokenize_of_parse hparse), fun h => ?_⟩
  have houtside : Lexeme.Outside ['(', 'a', ')'] :=
    .single (by decide) (by decide) (.single (by decide) (by decide)
      (.single (by decide) (by decide) .nil))
  have hsigned : SignedAt [none] 'g' ['{', '-', '+', '1', '}'] :=
    ⟨['1'], [], 1, rfl, rfl, by decide, le_refl 1, le_refl 1⟩
  exact hsigned.not_referenceAt (h ['(', 'a', ')'] 'g' ['{', '-', '+', '1', '}'] rfl houtside
    (.inr rfl))

end Pattern

end RegexText
