/-
  RegexText/Proofs/Conversion/Resolution.lean
  ===========================================
  **Which references are resolved.**

  The converter reads a reference by its delimiters first and looks at the text
  between them afterwards.  `TextOf` lists what that text can be.  Nearly every
  reference that is read and resolved is a legal one as it is spelled; the one
  exception is a count between braces that has a plus sign behind its hyphen.
-/
import RegexText.Proofs.Conversion.Acceptance

namespace RegexText

open Text Source

/-! ### Reading -/

namespace Backreference

variable {letter c close : Char} {cs text rest spelling : List Char} {reference : Backreference}

/-- What the text of a reference means. -/
inductive TextOf (letter : Char) : List Char → Backreference → Prop where
  | name {text : List Char} (h : isIdentifier text = true) :
      TextOf letter text (.named (String.ofList text))
  | number {digits : List Char} {number : Nat} (hletter : letter = 'g')
      (h : readDigits? digits = some number) : TextOf letter digits (.absolute number)
  | count {digits : List Char} {count : Nat} (hletter : letter = 'g')
      (h : readDigits? digits = some count) : TextOf letter ('-' :: digits) (.relative count)
  | signed {digits : List Char} {count : Nat} (hletter : letter = 'g')
      (h : readDigits? digits = some count) : TextOf letter ('-' :: '+' :: digits) (.relative count)

theorem textOf_of_ofText (h : ofText letter text = some reference) :
    TextOf letter text reference := by
  unfold ofText at h
  split at h
  · rename_i digits
    split at h
    · rename_i hletter
      obtain ⟨count, hcount, rfl⟩ := Option.map_eq_some_iff.1 h
      unfold readSize? at hcount
      split at hcount
      · exact .signed hletter hcount
      · exact .count hletter hcount
    · cases h
  · rename_i c cs _
    split at h
    · split at h
      · rename_i hletter
        obtain ⟨number, hnumber, rfl⟩ := Option.map_eq_some_iff.1 h
        exact .number hletter hnumber
      · cases h
    · rename_i hdigit
      split at h
      · rename_i hall
        cases h
        exact .name (by simp [isIdentifier, hdigit, hall])
      · cases h
  · cases h

theorem ofText_signed {digits : List Char} {count : Nat} (h : readDigits? digits = some count) :
    ofText 'g' ('-' :: '+' :: digits) = some (.relative count) := by
  rw [ofText, if_pos rfl, readSize?, h]
  rfl

/-- A reference is read up to its closing character, or up to the last digit. -/
theorem read_eq_some (h : read letter cs = some (reference, spelling, rest)) :
    (∃ c close text, closer? letter c = some close ∧ cs = c :: text ++ close :: rest ∧
      TextOf letter text reference) ∨
    (letter = 'g' ∧ ∃ text, cs = text ++ rest ∧ splitNumber cs = (text, rest) ∧
      TextOf letter text reference) := by
  unfold read at h
  split at h
  · cases h
  · rename_i c inner
    split at h
    · rename_i close hcloser
      simp only [Option.bind_eq_bind, Option.bind_eq_some_iff, Option.pure_def,
        Option.some.injEq, Prod.mk.injEq] at h
      obtain ⟨⟨text, behind⟩, hsplit, found, htext, rfl, _, rfl⟩ := h
      refine .inl ⟨c, close, text, hcloser, ?_, textOf_of_ofText htext⟩
      rw [eq_of_splitClosed hsplit, List.cons_append]
    · split at h
      · rename_i hletter
        simp only [Option.bind_eq_bind, Option.bind_eq_some_iff, Option.pure_def,
          Option.some.injEq, Prod.mk.injEq] at h
        obtain ⟨found, htext, rfl, _, rfl⟩ := h
        exact .inr ⟨hletter, _, (splitNumber_append _).symm, rfl, textOf_of_ofText htext⟩
      · cases h

/-- Without braces there are digits only, with a hyphen in front or not, and as many as there
    are. -/
theorem digits_of_splitNumber (h : splitNumber cs = (text, rest)) :
    (∃ digits, (text = digits ∨ text = '-' :: digits) ∧ ∀ c ∈ digits, c.isDigit = true) ∧
      digitAhead rest = false := by
  have hstop : ∀ cs : List Char, digitAhead (cs.dropWhile Char.isDigit) = false := by
    intro cs
    have hhead := stop_of_dropWhile Char.isDigit cs
    unfold digitAhead
    cases hrest : (cs.dropWhile Char.isDigit).head? with
    | none => rfl
    | some c => exact hhead c hrest
  unfold splitNumber at h
  split at h
  · rename_i cs
    cases h
    exact ⟨⟨_, .inr rfl, fun c hc => List.all_eq_true.1 List.all_takeWhile c hc⟩, hstop cs⟩
  · cases h
    exact ⟨⟨_, .inl rfl, fun c hc => List.all_eq_true.1 List.all_takeWhile c hc⟩, hstop cs⟩

end Backreference

/-! ### References in a text -/

namespace Source

/-- Is a reference spelled as it should be, whatever groups there are? -/
def Reference.isSpelled : Reference → Bool
  | .named _ name => isIdentifier name
  | .numbered _ digits => (readDigits? digits).isSome
  | .relative _ digits => (readDigits? digits).isSome

theorem Reference.isLegal_iff {groups : Groups} {r : Reference} :
    r.isLegal groups = true ↔ r.isSpelled = true ∧
      ((capturesOf groups).resolve? r.meaning).isSome = true := by
  constructor
  · intro h
    have hresolve := resolve?_meaning h
    have htarget : (r.target? groups).isSome = true := by
      simp only [Reference.isLegal, Bool.and_eq_true] at h
      exact h.1
    refine ⟨?_, by rwa [hresolve]⟩
    cases r with
    | named form name =>
      simp only [Reference.isLegal, Bool.and_eq_true] at h
      exact h.2
    | numbered braced digits =>
      obtain ⟨number, hread, _⟩ := readDigits?_of_isLegal_numbered h
      rw [isSpelled, hread]
      rfl
    | relative braced digits =>
      obtain ⟨count, hread, _⟩ := readDigits?_of_isLegal_relative h
      rw [isSpelled, hread]
      rfl
  · rintro ⟨hspelled, hresolve⟩
    obtain ⟨number, hresolve⟩ := Option.isSome_iff_exists.1 hresolve
    obtain ⟨hnumber, hbounds⟩ := Option.filter_eq_some_iff.1 hresolve
    simp only [capturesOf_opened, Bool.and_eq_true, decide_eq_true_eq] at hbounds
    cases r with
    | named form name =>
      rw [isSpelled] at hspelled
      have hknown : groupNumber? groups (String.ofList name) = some number := by
        rw [← get?_capturesOf]
        exact hnumber
      simp [isLegal, target?, hknown, hspelled]
    | numbered braced digits =>
      obtain ⟨found, hfound⟩ := Option.isSome_iff_exists.1 hspelled
      cases hnumber
      rw [eq_digitsValue hfound] at hbounds
      simp [isLegal, target?, hfound, filter_bounds hbounds.1 hbounds.2]
    | relative braced digits =>
      obtain ⟨found, hfound⟩ := Option.isSome_iff_exists.1 hspelled
      have heq := Option.some.inj hnumber
      simp only [capturesOf_opened, eq_digitsValue hfound] at heq
      have hlower : 1 ≤ found := by omega
      have hupper : found ≤ groups.length := by omega
      simp [isLegal, target?, hfound, filter_bounds hlower hupper]

/-- Does a legal reference begin with a backslash and `letter`, if `after` comes behind them?  A
    reference without braces takes up all digits that there are. -/
def ReferenceAt (groups : Groups) (letter : Char) (after : List Char) : Prop :=
  ∃ (r : Reference) (rest : List Char), r.isLegal groups = true ∧
    (r.isOpen = true → digitAhead rest = false) ∧ '\\' :: letter :: after = r.text ++ rest

/-- Is there a count between braces that has a plus sign behind its hyphen, and is it the count of
    a group?  This is read like the same count without the sign. -/
def SignedAt (groups : Groups) (letter : Char) (after : List Char) : Prop :=
  ∃ digits rest count, letter = 'g' ∧ after = '{' :: '-' :: '+' :: digits ++ '}' :: rest ∧
    readDigits? digits = some count ∧ 1 ≤ count ∧ count ≤ groups.length

variable {groups : Groups} {letter : Char} {after rest spelling : List Char}
  {reference : Backreference} {number : Nat}

theorem isSome_of_readDigits? {digits : List Char} (h : readDigits? digits = some number) :
    (readDigits? digits).isSome = true := by
  rw [h]
  rfl

theorem referenceAt_of_text {r : Reference} (hspelled : r.isSpelled = true)
    (hmeaning : r.meaning = reference)
    (hresolve : (capturesOf groups).resolve? reference = some number)
    (hdigit : r.isOpen = true → digitAhead rest = false)
    (htext : '\\' :: letter :: after = r.text ++ rest) : ReferenceAt groups letter after :=
  ⟨r, rest, Reference.isLegal_iff.2 ⟨hspelled, by rw [hmeaning, hresolve]; rfl⟩, hdigit, htext⟩

/-- Behind `k` and behind `g`, the characters around a name are those of one of its forms. -/
theorem exists_form_of_closer? {c close : Char} (hletter : letter = 'k' ∨ letter = 'g')
    (h : Backreference.closer? letter c = some close) :
    ∃ form, Reference.NameForm.opening form = ['\\', letter, c] ∧
      Reference.NameForm.closing form = close := by
  unfold Backreference.closer? at h
  split_ifs at h with hbrace hangle hquote
  · cases h
    rcases hletter with rfl | rfl
    · exact ⟨.brace, by rw [hbrace]; rfl, rfl⟩
    · exact ⟨.gBrace, by rw [hbrace]; rfl, rfl⟩
  · cases h
    exact ⟨.angle, by rw [hangle.1, hangle.2]; rfl, rfl⟩
  · cases h
    exact ⟨.quote, by rw [hquote.1, hquote.2]; rfl, rfl⟩

/-- Numbers stand between braces, if between anything. -/
theorem eq_of_closer?_g {c close : Char} (h : Backreference.closer? 'g' c = some close) :
    c = '{' ∧ close = '}' := by
  unfold Backreference.closer? at h
  split_ifs at h with hbrace hangle hquote
  · exact ⟨hbrace, (Option.some.inj h).symm⟩
  · exact absurd hangle.1 (by decide)
  · exact absurd hquote.1 (by decide)

/-- The count of a group that has been opened. -/
theorem bounds_of_resolve?_relative {count : Nat}
    (h : (capturesOf groups).resolve? (.relative count) = some number) :
    1 ≤ count ∧ count ≤ groups.length := by
  rw [resolve?_relative] at h
  obtain ⟨hnumber, hbounds⟩ := Option.filter_eq_some_iff.1 h
  have heq := Option.some.inj hnumber
  simp only [Bool.and_eq_true, decide_eq_true_eq] at hbounds
  omega

/-- What is read and resolved is a legal reference, or a count with a sign. -/
theorem referenceAt_of_read (hletter : letter = 'k' ∨ letter = 'g')
    (hread : Backreference.read letter after = some (reference, spelling, rest))
    (hresolve : (capturesOf groups).resolve? reference = some number) :
    ReferenceAt groups letter after ∨ SignedAt groups letter after := by
  rcases Backreference.read_eq_some hread with
    ⟨c, close, text, hcloser, rfl, htext⟩ | ⟨rfl, text, rfl, hsplit, htext⟩
  · cases htext with
    | name hname =>
      obtain ⟨form, hopening, hclosing⟩ := exists_form_of_closer? hletter hcloser
      have htext : '\\' :: letter :: (c :: text ++ close :: rest) =
          Reference.text (.named form text) ++ rest := by
        simp [Reference.text, hopening, hclosing]
      exact .inl (referenceAt_of_text (r := .named form text) hname rfl hresolve nofun htext)
    | number hg hdigits =>
      subst hg
      obtain ⟨rfl, rfl⟩ := eq_of_closer?_g hcloser
      have htext : '\\' :: 'g' :: ('{' :: text ++ '}' :: rest) =
          Reference.text (.numbered true text) ++ rest := by
        simp [Reference.text]
      exact .inl (referenceAt_of_text (r := .numbered true text) (isSome_of_readDigits? hdigits)
        (congrArg Backreference.absolute (eq_digitsValue hdigits)) hresolve nofun htext)
    | @count digits _ hg hdigits =>
      subst hg
      obtain ⟨rfl, rfl⟩ := eq_of_closer?_g hcloser
      have htext : '\\' :: 'g' :: ('{' :: '-' :: digits ++ '}' :: rest) =
          Reference.text (.relative true digits) ++ rest := by
        simp [Reference.text]
      exact .inl (referenceAt_of_text (r := .relative true digits) (isSome_of_readDigits? hdigits)
        (congrArg Backreference.relative (eq_digitsValue hdigits)) hresolve nofun htext)
    | @signed digits count hg hdigits =>
      subst hg
      obtain ⟨rfl, rfl⟩ := eq_of_closer?_g hcloser
      obtain ⟨hlower, hupper⟩ := bounds_of_resolve?_relative hresolve
      exact .inr ⟨digits, rest, count, rfl, rfl, hdigits, hlower, hupper⟩
  · obtain ⟨⟨found, hfound, hall⟩, hdigit⟩ := Backreference.digits_of_splitNumber hsplit
    left
    cases htext with
    | name hname =>
      -- no name begins with a digit or a hyphen
      rcases hfound with rfl | rfl
      · cases text with
        | nil => cases hname
        | cons d ds => simp [isIdentifier, hall d (List.mem_cons_self ..)] at hname
      · cases hname
    | number _ hdigits =>
      exact referenceAt_of_text (r := .numbered false text) (isSome_of_readDigits? hdigits)
        (congrArg Backreference.absolute (eq_digitsValue hdigits)) hresolve (fun _ => hdigit) rfl
    | @count digits _ _ hdigits =>
      exact referenceAt_of_text (r := .relative false digits) (isSome_of_readDigits? hdigits)
        (congrArg Backreference.relative (eq_digitsValue hdigits)) hresolve (fun _ => hdigit) rfl
    | @signed digits _ _ hdigits =>
      -- a plus sign is no digit, and neither is a hyphen
      rcases hfound with rfl | hfound
      · exact absurd (hall '-' (List.mem_cons_self ..)) (by decide)
      · obtain ⟨_, rfl⟩ := List.cons.inj hfound
        exact absurd (hall '+' (List.mem_cons_self ..)) (by decide)

/-- Legal references and counts with a sign are read and resolved. -/
theorem exists_read_of_referenceAt
    (h : ReferenceAt groups letter after ∨ SignedAt groups letter after) :
    ∃ reference spelling rest number,
      Backreference.read letter after = some (reference, spelling, rest) ∧
      (capturesOf groups).resolve? reference = some number := by
  rcases h with ⟨r, rest, hlegal, hdigit, htext⟩ |
    ⟨digits, rest, count, rfl, rfl, hdigits, hle, hge⟩
  · rw [Reference.text_eq] at htext
    cases htext
    obtain ⟨spelling, hread⟩ := read_reference hlegal hdigit
    obtain ⟨number, hresolve⟩ := Option.isSome_iff_exists.1 (Reference.isLegal_iff.1 hlegal).2
    exact ⟨_, spelling, rest, number, hread, hresolve⟩
  · have hbrace : '}' ∉ '-' :: '+' :: digits := by simp [not_mem_digits hdigits]
    obtain ⟨spelling, hread⟩ := read_closed 'g' '{' '}' (by decide) hbrace
      (Backreference.ofText_signed hdigits) rest
    refine ⟨_, spelling, rest, groups.length + 1 - count, by simpa using hread, ?_⟩
    rw [resolve?_relative, filter_bounds (by omega) (by omega)]

/-- No legal reference is spelled with a sign. -/
theorem SignedAt.not_referenceAt (h : SignedAt groups letter after) :
    ¬ ReferenceAt groups letter after := by
  obtain ⟨digits, rest, count, rfl, rfl, _⟩ := h
  rintro ⟨r, behind, hlegal, _, htext⟩
  have hspelled := (Reference.isLegal_iff.1 hlegal).1
  cases r with
  | named form name =>
    cases name with
    | nil => cases hspelled
    | cons c cs =>
      rw [Reference.isSpelled, isIdentifier, Bool.and_eq_true] at hspelled
      have hc : c ≠ '-' :=
        ne_of_apply (List.all_eq_true.1 hspelled.2 c (List.mem_cons_self ..)) (by decide)
      cases form <;> simp [Reference.text, Reference.NameForm.opening, hc.symm] at htext
  | numbered braced digits =>
    obtain ⟨number, hread⟩ := Option.isSome_iff_exists.1 hspelled
    obtain ⟨d, ds, rfl, hd⟩ := exists_digit_of_readDigits? hread
    have hhyphen : d ≠ '-' := ne_of_apply hd (by decide)
    have hbrace : d ≠ '{' := ne_of_apply hd (by decide)
    cases braced <;> simp [Reference.text, hhyphen.symm, hbrace.symm] at htext
  | relative braced digits =>
    obtain ⟨number, hread⟩ := Option.isSome_iff_exists.1 hspelled
    obtain ⟨d, ds, rfl, hd⟩ := exists_digit_of_readDigits? hread
    have hplus : d ≠ '+' := ne_of_apply hd (by decide)
    cases braced <;> simp [Reference.text, hplus.symm] at htext

end Source

/-! ### Literal text -/

namespace Source.KnownCategories

variable {as bs : List Char}

theorem ne_backslash_of_tail {spelling : CategorySpelling}
    (h : spelling.categories?.isSome = true) : ∀ c ∈ spelling.tail, c ≠ '\\' := by
  obtain ⟨categories, hcategories⟩ := Option.isSome_iff_exists.1 h
  cases spelling with
  | short capital name =>
    exact CategoryEscape.ne_backslash_of_named? hcategories
  | braced capital caret name =>
    have hname := CategoryEscape.ne_backslash_of_named? hcategories
    have hcaret : ∀ c ∈ if caret then ['^'] else [], c ≠ '\\' := by
      cases caret <;> exact forall_mem_of_all (by decide)
    intro c hc
    rw [CategorySpelling.tail] at hc
    rcases List.mem_append.1 hc with hfront | hclose
    · rcases List.mem_append.1 hfront with hopen | hinner
      · rcases List.mem_cons.1 hopen with rfl | hsign
        · decide
        · exact hcaret c hsign
      · exact hname c hinner
    · rw [List.mem_singleton.1 hclose]
      decide

/-- No escape reaches across a backslash. -/
theorem of_append (has : Complete as) (h : KnownCategories (as ++ '\\' :: bs)) :
    KnownCategories as ∧ KnownCategories ('\\' :: bs) := by
  constructor
  · intro letter inner hletter hpair
    obtain ⟨spelling, rest, hknown, heq⟩ := h letter _ hletter
      ((pairAt_append_iff has).2 (.inl ⟨inner, hpair, rfl⟩))
    have htext := spelling.text_eq
    rw [htext] at heq
    obtain ⟨hcapital, htail⟩ := List.cons.inj (List.cons.inj heq).2
    obtain ⟨between, rfl⟩ :=
      exists_append_of_forall_ne (ne_backslash_of_tail hknown) htail.symm
    exact ⟨spelling, between, hknown, by rw [htext, hcapital]; rfl⟩
  · intro letter after hletter hpair
    exact h letter after hletter ((pairAt_append_iff has).2 (.inr hpair))

end Source.KnownCategories

namespace Conversion

variable {dotAll : Bool} {groups : Groups} {cs : List Char}

theorem succeeds_convertLiteral_of_some {text before after : List Char} {letter : Char}
    {captures : Captures}
    (h : Backreference.splitFirst text = (before, some (letter, after))) :
    (convertLiteral dotAll captures text).Succeeds ↔ ∃ reference spelling rest number,
      Backreference.read letter after = some (reference, spelling, rest) ∧
      captures.resolve? reference = some number ∧
      (CategoryEscape.expand false dotAll before).Succeeds ∧
      (convertLiteral dotAll captures rest).Succeeds := by
  constructor
  · rintro ⟨z, hz⟩
    obtain ⟨reference, spelling, rest, number, front, back, hread, hresolve, hfront, hback, _⟩ :=
      (convertLiteral_of_some h z).1 hz
    exact ⟨reference, spelling, rest, number, hread, hresolve, ⟨front, hfront⟩, back, hback⟩
  · rintro ⟨reference, spelling, rest, number, hread, hresolve, ⟨front, hfront⟩, back, hback⟩
    exact ⟨_, (convertLiteral_of_some h _).2
      ⟨reference, spelling, rest, number, front, back, hread, hresolve, hfront, hback, rfl⟩⟩

/-- The pairs of a text are its first reference and those behind it. -/
theorem pairAt_iff_of_splitFirst {before after : List Char} {letter : Char}
    (h : Backreference.splitFirst cs = (before, some (letter, after))) {l : Char}
    (hl : l = 'k' ∨ l = 'g') {inner : List Char} :
    PairAt cs l inner ↔ (letter = l ∧ after = inner) ∨ PairAt after l inner := by
  obtain ⟨hfree, _⟩ := noReferences_of_splitFirst h
  obtain ⟨hcs, hcomplete⟩ := Backreference.eq_of_splitFirst h
  change cs = before ++ '\\' :: letter :: after at hcs
  rw [hcs, pairAt_append_iff_of_not (hcomplete rfl) fun inner => hfree l inner hl, pairAt_pair_iff]

/-- **Literal text is converted exactly if its references can be resolved**, once its category
    escapes are known. -/
theorem succeeds_convertLiteral_iff (hknown : KnownCategories cs) :
    (convertLiteral dotAll (capturesOf groups) cs).Succeeds ↔
      ∀ letter after, letter = 'k' ∨ letter = 'g' → PairAt cs letter after →
        ReferenceAt groups letter after ∨ SignedAt groups letter after := by
  induction hn : cs.length using Nat.strong_induction_on generalizing cs with
  | _ n ih =>
    cases hsplit : Backreference.splitFirst cs with
    | mk before found =>
      obtain ⟨hfree, hfound⟩ := noReferences_of_splitFirst hsplit
      obtain ⟨hcs, hcomplete⟩ := Backreference.eq_of_splitFirst hsplit
      cases found with
      | none =>
        have hwhole : cs = before := by simpa using hcs
        rw [convertLiteral_of_none hsplit, succeeds_expand_iff, ← hwhole]
        refine iff_of_true hknown ?_
        intro letter after hletter hpair
        exact absurd (hwhole ▸ hpair) (hfree letter after hletter)
      | some r =>
        obtain ⟨letter, after⟩ := r
        have hletter := hfound _ rfl
        change cs = before ++ '\\' :: letter :: after at hcs
        obtain ⟨hfront, hbehind⟩ := KnownCategories.of_append (hcomplete rfl) (hcs ▸ hknown)
        have hafter := (KnownCategories.pair_iff.1 hbehind).2
        -- what is read holds no pair, so the pairs behind it are those behind the letter
        have hrest : ∀ {reference spelling rest},
            Backreference.read letter after = some (reference, spelling, rest) →
            ((convertLiteral dotAll (capturesOf groups) rest).Succeeds ↔
              ∀ l inner, l = 'k' ∨ l = 'g' → PairAt after l inner →
                ReferenceAt groups l inner ∨ SignedAt groups l inner) := by
          intro reference spelling rest hread
          have hshorter : rest.length < n := by
            have hread := Backreference.length_le_of_read hread
            have hafter := Backreference.length_lt_of_splitFirst hsplit
            omega
          obtain ⟨tail, rfl, htail⟩ := Backreference.exists_spelling_of_read hread
          rw [ih _ hshorter ((KnownCategories.append_iff_of_forall htail).1 hafter) rfl]
          simp only [pairAt_append_iff_of_forall htail]
        rw [succeeds_convertLiteral_of_some hsplit]
        constructor
        · rintro ⟨reference, spelling, rest, number, hread, hresolve, _, hback⟩ l inner hl hpair
          rcases (pairAt_iff_of_splitFirst hsplit hl).1 hpair with ⟨rfl, rfl⟩ | hlater
          · exact referenceAt_of_read hl hread hresolve
          · exact (hrest hread).1 hback l inner hl hlater
        · intro h
          obtain ⟨reference, spelling, rest, number, hread, hresolve⟩ :=
            exists_read_of_referenceAt (h letter after hletter
              ((pairAt_iff_of_splitFirst hsplit hletter).2 (.inl ⟨rfl, rfl⟩)))
          refine ⟨reference, spelling, rest, number, hread, hresolve,
            succeeds_expand_iff.2 hfront, (hrest hread).2 ?_⟩
          intro l inner hl hpair
          exact h l inner hl ((pairAt_iff_of_splitFirst hsplit hl).2 (.inr hpair))

end Conversion

end RegexText
