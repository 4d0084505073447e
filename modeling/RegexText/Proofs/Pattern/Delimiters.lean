/-
  RegexText/Proofs/Pattern/Delimiters.lean
  ========================================
  **The delimiters of a pattern, said without the reader.**

  A pattern is divided into a delimiter, a body, the delimiter again and
  modifiers.  `Division` says what such a division is, and `Misdelimited` what
  keeps a text from having one.

  The two exclude each other and leave nothing out.  A text has one division at
  most, so the reader finds the division if there is one, and reports what is
  wrong if there is none (`parse_by_division`).
-/
import RegexText.Proofs.Pattern
import RegexText.Proofs.TokenStream.Failure

namespace RegexText.Pattern

open Text TokenStream

/-! ### Divisions -/

/-- Is a character neither alphanumeric nor white space nor a backslash? -/
structure CanDelimit (d : Char) : Prop where
  notAlphanumeric : Unicode.isAlphanumeric d = false
  notWhiteSpace : Unicode.isWhiteSpace d = false
  notBackslash : d ≠ '\\'

/-- A text divided into a delimiter, a body, the delimiter again and modifiers. -/
structure Division (cs : List Char) (d : Char) (body mods : List Char) : Prop where
  text : cs = d :: body ++ d :: mods
  delimiter : CanDelimit d
  /-- Every delimiter in the body is escaped. -/
  escaped : ¬ HasUnescaped (· = d) body
  /-- The body does not end inside an escape. -/
  complete : Complete body
  letters : ∀ m ∈ mods, m.isAlpha = true

/-- What keeps a text from being divided. -/
inductive Misdelimited : List Char → DelimiterFault → Prop where
  | missing : Misdelimited [] .missing
  | invalid {d : Char} (cs : List Char) (h : ¬ CanDelimit d) : Misdelimited (d :: cs) (.invalid d)
  | unclosed {d : Char} {cs : List Char} (hd : CanDelimit d) (h : ¬ HasUnescaped (· = d) cs) :
      Misdelimited (d :: cs) (.unclosed d)
  | trailing {d : Char} {body rest : List Char} (hd : CanDelimit d)
      (hescaped : ¬ HasUnescaped (· = d) body) (hcomplete : Complete body)
      (hrest : ∃ c ∈ rest, c.isAlpha = false) :
      Misdelimited (d :: body ++ d :: rest) (.trailing (String.ofList rest))

variable {limit : Nat} {pattern : String} {cs body mods raw : List Char} {d : Char}
  {fault : DelimiterFault}

theorem isDelimiter_iff : isDelimiter d = true ↔ CanDelimit d := by
  simp only [isDelimiter, Bool.and_eq_true, Bool.not_eq_true', bne_iff_ne]
  exact ⟨fun h => ⟨h.1.1, h.1.2, h.2⟩, fun h => ⟨⟨h.1, h.2⟩, h.3⟩⟩

theorem Division.freeOf (h : Division cs d body mods) : FreeOf (· = d) body :=
  (freeOf_iff h.delimiter.notBackslash.symm).2 ⟨h.complete, h.escaped⟩

/-- **The parts that are found are the divisions of a text.** -/
theorem splitDelimiters_eq_ok_iff :
    splitDelimiters cs = .ok (d, body, mods) ↔ Division cs d body mods := by
  constructor
  · intro h
    have hfree := freeOf_of_splitDelimiters h
    unfold splitDelimiters at h
    split at h
    · cases h
    · split at h
      · rename_i hd
        split at h
        · cases h
        · rename_i hsplit
          split at h
          · rename_i hmods
            cases h
            have hcan := isDelimiter_iff.1 hd
            obtain ⟨hcomplete, hescaped⟩ := (freeOf_iff hcan.notBackslash.symm).1 hfree
            refine ⟨?_, hcan, hescaped, hcomplete, List.all_eq_true.1 hmods⟩
            rw [eq_append_of_splitUnescaped hsplit]
            rfl
          · cases h
      · cases h
  · intro h
    rw [h.text]
    exact splitDelimiters_append (isDelimiter_iff.2 h.delimiter) h.freeOf h.letters

theorem Division.unique {d' : Char} {body' mods' : List Char} (h : Division cs d body mods)
    (h' : Division cs d' body' mods') : d = d' ∧ body = body' ∧ mods = mods' := by
  have hsame := (splitDelimiters_eq_ok_iff.2 h).symm.trans (splitDelimiters_eq_ok_iff.2 h')
  simpa using hsame

/-- **The faults that are found are those of a text.** -/
theorem splitDelimiters_eq_error_iff :
    splitDelimiters cs = .error fault ↔ Misdelimited cs fault := by
  constructor
  · intro h
    unfold splitDelimiters at h
    split at h
    · cases h
      exact .missing
    · rename_i delimiter cs
      split at h
      · rename_i hd
        have hcan := isDelimiter_iff.1 hd
        split at h
        · rename_i hsplit
          cases h
          exact .unclosed hcan ((splitUnescaped_eq_none_iff hcan.notBackslash).1 hsplit)
        · rename_i body rest hsplit
          split at h
          · cases h
          · rename_i hrest
            cases h
            obtain ⟨hcomplete, hescaped⟩ :=
              (freeOf_iff hcan.notBackslash.symm).1 (freeOf_of_splitUnescaped hsplit)
            rw [eq_append_of_splitUnescaped hsplit]
            exact .trailing hcan hescaped hcomplete (by simpa using hrest)
      · rename_i hd
        cases h
        exact .invalid cs (mt isDelimiter_iff.2 hd)
  · intro h
    cases h with
    | missing => rfl
    | invalid cs h => rw [splitDelimiters, if_neg (mt isDelimiter_iff.1 h)]
    | unclosed hd h =>
      have hsplit := (splitUnescaped_eq_none_iff hd.notBackslash).2 h
      rw [splitDelimiters, if_pos (isDelimiter_iff.2 hd), hsplit]
    | @trailing d body rest hd hescaped hcomplete hrest =>
      have hfree := (freeOf_iff hd.notBackslash.symm).2 ⟨hcomplete, hescaped⟩
      have hsplit := splitUnescaped_append hd.notBackslash hfree rest
      have hall : rest.all Char.isAlpha ≠ true := by simpa using hrest
      rw [List.cons_append, splitDelimiters, if_pos (isDelimiter_iff.2 hd), hsplit]
      exact if_neg hall

/-- A text that has no division has a fault. -/
theorem not_exists_division_iff :
    (¬ ∃ d body mods, Division cs d body mods) ↔ ∃ fault, Misdelimited cs fault := by
  simp only [← splitDelimiters_eq_ok_iff, ← splitDelimiters_eq_error_iff]
  cases splitDelimiters cs with
  | error fault => simp
  | ok parts =>
    obtain ⟨d, body, mods⟩ := parts
    simp

/-! ### Whole patterns -/

/-- Cutting a body into tokens finds no fault with delimiters. -/
theorem tokenize_ne_malformedDelimiters (limit : Nat) (body : List Char)
    (fault : DelimiterFault) :
    (tokenize limit body).outcome ≠ .error (.malformedDelimiters fault) := by
  intro h
  cases outcome_eq_error_iff.1 h with
  | fault hfirst =>
    obtain ⟨front, l, back, _, _, hfault⟩ := hfirst
    cases hfault

/-- The body that is reported for a body between delimiters. -/
def reported (raw mods : List Char) : List Char :=
  if 'x' ∈ mods then stripExtended .ordinary raw else raw

theorem parse_of_division (h : Division pattern.toList d raw mods) :
    (parse limit pattern).outcome = (tokenize limit (reported raw mods)).outcome.map fun tokens =>
      ⟨d, String.ofList mods, String.ofList (reported raw mods), tokens⟩ := by
  have hreported :
      (if mods.contains 'x' then stripExtended .ordinary raw else raw) = reported raw mods := by
    simp only [reported, List.contains_iff_mem]
  unfold parse
  rw [splitDelimiters_eq_ok_iff.2 h]
  simp only [hreported, Traced.outcome_bind, Traced.outcome_pure]
  cases (tokenize limit (reported raw mods)).outcome <;> rfl

theorem parse_eq_malformedDelimiters_iff :
    (parse limit pattern).outcome = .error (.malformedDelimiters fault) ↔
      Misdelimited pattern.toList fault := by
  by_cases hdivision : ∃ d raw mods, Division pattern.toList d raw mods
  · have hfault : ¬ Misdelimited pattern.toList fault := fun h =>
      not_exists_division_iff.2 ⟨fault, h⟩ hdivision
    obtain ⟨d, raw, mods, h⟩ := hdivision
    refine iff_of_false ?_ hfault
    rw [parse_of_division h]
    cases houtcome : (tokenize limit (reported raw mods)).outcome with
    | error e =>
      intro heq
      cases heq
      exact tokenize_ne_malformedDelimiters _ _ _ houtcome
    | ok tokens => simp [Except.map]
  · obtain ⟨found, hfound⟩ := not_exists_division_iff.1 hdivision
    have hsplit := splitDelimiters_eq_error_iff.2 hfound
    rw [← splitDelimiters_eq_error_iff, hsplit]
    unfold parse
    rw [hsplit]
    simp

/-- **Patterns are taken apart at their delimiters, and only there.**  The parts that are found are
    the divisions of a pattern, of which there is one at most.  With a division, what a pattern is
    depends on the tokens of the reported body, and that is the body itself unless `x` is among the
    modifiers.  Without one, and only then, the delimiters are what is wrong. -/
theorem parse_by_division (limit : Nat) (pattern : String) :
    (∀ d raw mods, splitDelimiters pattern.toList = .ok (d, raw, mods) ↔
      Division pattern.toList d raw mods) ∧
    (∀ d raw mods d' raw' mods', Division pattern.toList d raw mods →
      Division pattern.toList d' raw' mods' → d = d' ∧ raw = raw' ∧ mods = mods') ∧
    (∀ d raw mods, Division pattern.toList d raw mods →
      (parse limit pattern).outcome =
        (tokenize limit (reported raw mods)).outcome.map (fun tokens =>
          ⟨d, String.ofList mods, String.ofList (reported raw mods), tokens⟩) ∧
      ('x' ∉ mods → reported raw mods = raw) ∧
      String.ofList (d :: raw ++ d :: mods) = pattern) ∧
    (∀ fault, (parse limit pattern).outcome = .error (.malformedDelimiters fault) ↔
      Misdelimited pattern.toList fault) ∧
    ((¬ ∃ d raw mods, Division pattern.toList d raw mods) ↔
      ∃ fault, (parse limit pattern).outcome = .error (.malformedDelimiters fault)) := by
  refine ⟨fun d raw mods => splitDelimiters_eq_ok_iff,
    fun d raw mods d' raw' mods' h h' => h.unique h', fun d raw mods h => ⟨parse_of_division h,
      fun hplain => if_neg hplain, ?_⟩, fun fault => parse_eq_malformedDelimiters_iff, ?_⟩
  · rw [← h.text, String.ofList_toList]
  · simp only [parse_eq_malformedDelimiters_iff]
    exact not_exists_division_iff

/-- A parenthesis may delimit a pattern, and an escaped delimiter does not end one. -/
theorem parse_by_division_parenthesis :
    Division "(a\\(b(i".toList '(' "a\\(b".toList ['i'] ∧
      (parse 1 "(a\\(b(i").outcome = .ok ⟨'(', "i", "a\\(b", []⟩ ∧
      Misdelimited "/a\\/".toList (.unclosed '/') := by
  obtain ⟨hsplit, _, hparse, _, _⟩ := parse_by_division 1 "(a\\(b(i"
  obtain ⟨_, _, _, hfault, _⟩ := parse_by_division 1 "/a\\/"
  have hdivision : Division "(a\\(b(i".toList '(' "a\\(b".toList ['i'] :=
    (hsplit _ _ _).1 (by decide +kernel)
  refine ⟨hdivision, ?_, (hfault _).1 (by decide +kernel)⟩
  rw [(hparse _ _ _ hdivision).1]
  decide +kernel

end RegexText.Pattern
