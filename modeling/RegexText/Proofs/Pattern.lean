/-
  RegexText/Proofs/Pattern.lean
  =============================
  **Taking delimited patterns apart.**

  A body without unescaped delimiters, put between two of them and followed by
  letters, is found again.  A pattern is taken apart in three steps that do not
  depend on each other: the delimiters are found, ignorable text is dropped if
  the modifiers say so, and the body is cut into tokens.
-/
import RegexText.Pattern
import RegexText.Proofs.Text.Unescaped
import RegexText.Proofs.Traced

namespace RegexText.Pattern

open Text

theorem isDelimiter_slash : isDelimiter '/' = true := by decide +kernel

theorem ne_backslash_of_isDelimiter {d : Char} (h : isDelimiter d = true) : d ≠ '\\' := by
  rintro rfl
  simp [isDelimiter] at h

/-- A body that is free of a delimiter is found between two of them. -/
theorem splitDelimiters_append {d : Char} {body mods : List Char} (hd : isDelimiter d = true)
    (hbody : FreeOf (· = d) body) (hmods : ∀ m ∈ mods, m.isAlpha = true) :
    splitDelimiters (d :: body ++ d :: mods) = .ok (d, body, mods) := by
  have hsplit := splitUnescaped_append (ne_backslash_of_isDelimiter hd) hbody mods
  rw [List.cons_append, splitDelimiters, if_pos hd, hsplit]
  simp only [List.all_eq_true.2 hmods, if_true]

/-- The body between two delimiters is free of them. -/
theorem freeOf_of_splitDelimiters {cs body mods : List Char} {d : Char}
    (h : splitDelimiters cs = .ok (d, body, mods)) : FreeOf (· = d) body := by
  unfold splitDelimiters at h
  split at h
  · cases h
  · split at h
    · split at h
      · cases h
      · rename_i hsplit
        split at h
        · cases h
          exact freeOf_of_splitUnescaped hsplit
        · cases h
    · cases h

theorem stripExtended_bracket {c : Char} (hc : c ≠ '\\') (cs : List Char) :
    stripExtended .bracket (c :: cs) =
      c :: stripExtended (if c = ']' then .ordinary else .bracket) cs := by
  rw [stripExtended]
  · rintro rfl
    exact absurd rfl hc
  · rintro _ _ rfl
    exact absurd rfl hc

theorem stripExtended_ordinary {c : Char} (hc : c ≠ '\\') (cs : List Char) :
    stripExtended .ordinary (c :: cs) =
      if c = '[' then c :: stripExtended .bracket cs
      else if c = '#' then stripExtended .comment cs
      else if isIgnorable c then stripExtended .ordinary cs
      else c :: stripExtended .ordinary cs := by
  rw [stripExtended]
  · rintro rfl
    exact absurd rfl hc
  · rintro _ _ rfl
    exact absurd rfl hc

/-- Dropping white space and comments splits no pair.  A comment is left behind a line break, be
    that break escaped or not. -/
theorem freeOf_stripExtended {bad : Char → Prop} {cs : List Char} (h : FreeOf bad cs)
    (region : Region) : FreeOf bad (stripExtended region cs) := by
  induction h generalizing region with
  | nil => cases region <;> exact .nil
  | pair c _ ih =>
    cases region with
    | comment =>
      rw [stripExtended, if_neg (by decide), stripExtended]
      exact ih _
    | ordinary => exact .pair c (ih _)
    | bracket => exact .pair c (ih _)
  | single hc hbad _ ih =>
    cases region with
    | comment =>
      rw [stripExtended]
      exact ih _
    | bracket =>
      rw [stripExtended_bracket hc]
      exact .single hc hbad (ih _)
    | ordinary =>
      rw [stripExtended_ordinary hc]
      split
      · exact .single hc hbad (ih _)
      · split
        · exact ih _
        · split
          · exact ih _
          · exact .single hc hbad (ih _)

theorem parse_eq_ok_iff {limit : Nat} {pattern : String} {p : Pattern} :
    (parse limit pattern).outcome = .ok p ↔
      ∃ raw mods body tokens, splitDelimiters pattern.toList = .ok (p.delimiter, raw, mods) ∧
        (if mods.contains 'x' then stripExtended .ordinary raw else raw) = body ∧
        (tokenize limit body).outcome = .ok tokens ∧
        p = ⟨p.delimiter, String.ofList mods, String.ofList body, tokens⟩ := by
  unfold parse
  cases hsplit : splitDelimiters pattern.toList with
  | error fault => simp
  | ok parts =>
    obtain ⟨d, raw, mods⟩ := parts
    simp only [Traced.outcome_bind_eq_ok_iff, Traced.outcome_pure, Except.ok.injEq,
      Prod.mk.injEq]
    constructor
    · rintro ⟨tokens, htokens, rfl⟩
      exact ⟨raw, mods, _, tokens, ⟨rfl, rfl, rfl⟩, rfl, htokens, rfl⟩
    · rintro ⟨_, _, _, tokens, ⟨hd, rfl, rfl⟩, rfl, htokens, hp⟩
      exact ⟨tokens, htokens, by rw [hp, ← hd]⟩

/-- A body that is free of a delimiter is taken apart between two of them. -/
theorem parse_append {limit : Nat} {d : Char} {body mods : List Char} {tokens : List Token}
    (hd : isDelimiter d = true) (hbody : FreeOf (· = d) body)
    (hmods : ∀ m ∈ mods, m.isAlpha = true) (hplain : 'x' ∉ mods)
    (htokens : (tokenize limit body).outcome = .ok tokens) :
    (parse limit (String.ofList (d :: body ++ d :: mods))).outcome =
      .ok ⟨d, String.ofList mods, String.ofList body, tokens⟩ := by
  refine parse_eq_ok_iff.2 ⟨body, mods, body, tokens, ?_, ?_, htokens, rfl⟩
  · rw [String.toList_ofList]
    exact splitDelimiters_append hd hbody hmods
  · rw [if_neg (mt List.contains_iff_mem.1 hplain)]

theorem tokenize_of_parse {limit : Nat} {pattern : String} {p : Pattern}
    (h : (parse limit pattern).outcome = .ok p) :
    (tokenize limit p.body.toList).outcome = .ok p.tokens := by
  obtain ⟨raw, mods, body, tokens, _, _, htokens, hp⟩ := parse_eq_ok_iff.1 h
  rw [hp]
  change (tokenize limit (String.ofList body).toList).outcome = .ok tokens
  rwa [String.toList_ofList]

/-- The body of a pattern is free of unescaped delimiters, also when white space and comments
    have been dropped. -/
theorem freeOf_of_parse {limit : Nat} {pattern : String} {p : Pattern}
    (h : (parse limit pattern).outcome = .ok p) : FreeOf (· = p.delimiter) p.body.toList := by
  obtain ⟨raw, mods, body, tokens, hsplit, hbody, _, hp⟩ := parse_eq_ok_iff.1 h
  have hraw := freeOf_of_splitDelimiters hsplit
  have hbodyeq : p.body.toList = body := by
    rw [hp]
    exact String.toList_ofList
  rw [hbodyeq, ← hbody]
  split
  · exact freeOf_stripExtended hraw .ordinary
  · exact hraw

end RegexText.Pattern
