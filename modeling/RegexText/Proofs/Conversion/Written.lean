/-
  RegexText/Proofs/Conversion/Written.lean
  ========================================
  **Literal text and what is written for it, side by side.**

  The converter goes over literal text with two scanners, one for references and
  one for category escapes, and each reads as far as it likes.  `Written` sets
  the text and its conversion side by side, piece by piece, and forgets the
  scanners: of an escape it keeps which characters it is spelled with, of a
  reference that some number is written for it.  So it can be put together, and
  what a conversion does to a text is proved by induction along the text.

  Whole bodies are converted part by part.  What holds of every rendered part,
  and of two texts put together, holds of a converted body.
-/
import RegexText.Proofs.Conversion.Resolution
import RegexText.Proofs.Lexeme.Outside

namespace RegexText

open Text

/-! ### Spelling -/

namespace Conversion

/-- The characters behind the letter of a category escape or of a reference, apart from a sign
    that some counts have. -/
def isSpellingChar (c : Char) : Bool :=
  c.isAlphanum || ['_', '&', '^', '-', '{', '}', '<', '>', '\''].contains c

/-- What can stand behind the letter of an escape: characters that spell it, and at most one plus
    sign, which is not the last of them. -/
structure Spelled (tail : List Char) : Prop where
  chars : ∀ c ∈ tail, c = '+' ∨ isSpellingChar c = true
  once : tail.count '+' ≤ 1
  last : ∀ c ∈ tail.getLast?, c ≠ '+'

theorem isSpellingChar_of_isCategoryChar {c : Char} (h : Source.isCategoryChar c = true) :
    isSpellingChar c = true := by
  simp only [Source.isCategoryChar, Bool.or_eq_true, beq_iff_eq] at h
  rcases h with h | rfl
  · simp [isSpellingChar, h]
  · rfl

theorem isSpellingChar_of_isNameChar {c : Char} (h : Lexeme.isNameChar c = true) :
    isSpellingChar c = true := by
  simp only [Lexeme.isNameChar, Bool.or_eq_true, beq_iff_eq] at h
  rcases h with h | rfl
  · simp [isSpellingChar, h]
  · rfl

theorem isSpellingChar_of_isDigit {c : Char} (h : c.isDigit = true) :
    isSpellingChar c = true := by
  simp [isSpellingChar, Char.isAlphanum, h]

theorem count_plus_of_isSpellingChar {cs : List Char} (h : ∀ c ∈ cs, isSpellingChar c = true) :
    cs.count '+' = 0 :=
  List.count_eq_zero.2 (Source.not_mem_of_all h (by decide))

namespace Spelled

variable {tail : List Char}

theorem of_forall (h : ∀ c ∈ tail, isSpellingChar c = true) : Spelled tail where
  chars := fun c hc => .inr (h c hc)
  once := by rw [count_plus_of_isSpellingChar h]; exact Nat.zero_le 1
  last := fun c hc => Source.ne_of_apply (h c (List.mem_of_getLast? hc)) (by decide)

/-- A text that spells something, and one sign at most, stands between two characters that are no
    signs. -/
theorem enclosed {c close : Char} {text : List Char} (hc : isSpellingChar c = true)
    (hclose : isSpellingChar close = true)
    (htext : ∀ d ∈ text, d = '+' ∨ isSpellingChar d = true) (honce : text.count '+' ≤ 1) :
    Spelled (c :: text ++ [close]) where
  chars := List.forall_mem_append.2 ⟨List.forall_mem_cons.2 ⟨.inr hc, htext⟩,
    List.forall_mem_singleton.2 (.inr hclose)⟩
  once := by
    have hne : c ≠ '+' := Source.ne_of_apply hc (by decide)
    have hne' : close ≠ '+' := Source.ne_of_apply hclose (by decide)
    simpa [List.count_cons, hne, hne'] using honce
  last := by
    intro d hd
    rw [List.getLast?_concat, Option.mem_some_iff] at hd
    exact hd ▸ Source.ne_of_apply hclose (by decide)

theorem ne_backslash (h : Spelled tail) : ∀ c ∈ tail, c ≠ '\\' := by
  intro c hc
  rcases h.chars c hc with rfl | hspelling
  · decide
  · exact Source.ne_of_apply hspelling (by decide)

end Spelled

end Conversion

namespace Backreference

open Conversion

variable {letter : Char} {cs before after rest text spelling : List Char}
  {reference : Backreference}

theorem letter_of_splitFirst (h : splitFirst cs = (before, some (letter, after))) :
    letter = 'k' ∨ letter = 'g' := by
  fun_induction splitFirst cs generalizing before with
  | case1 => cases h
  | case2 => cases h
  | case3 c cs hc =>
    cases h
    exact hc
  | case4 c cs hc front found hsplit ih =>
    cases h
    exact ih hsplit
  | case5 c cs _ _ front found hsplit ih =>
    cases h
    exact ih hsplit

theorem TextOf.spelled (h : TextOf letter text reference) :
    (∀ c ∈ text, c = '+' ∨ isSpellingChar c = true) ∧ text.count '+' ≤ 1 := by
  have hdigits : ∀ {digits : List Char} {number : Nat}, readDigits? digits = some number →
      (∀ c ∈ digits, isSpellingChar c = true) ∧ digits.count '+' = 0 := by
    intro digits number hread
    have hall : ∀ c ∈ digits, isSpellingChar c = true := fun c hc =>
      isSpellingChar_of_isDigit ((Source.all_isDigit_of_readDigits? hread).2 c hc)
    exact ⟨hall, count_plus_of_isSpellingChar hall⟩
  cases h with
  | name hname =>
    have hall : ∀ c ∈ text, isSpellingChar c = true := fun c hc =>
      isSpellingChar_of_isNameChar (Source.all_isNameChar_of_isIdentifier hname c hc)
    exact ⟨fun c hc => .inr (hall c hc), by simp [count_plus_of_isSpellingChar hall]⟩
  | number _ hread =>
    obtain ⟨hall, hcount⟩ := hdigits hread
    exact ⟨fun c hc => .inr (hall c hc), by simp [hcount]⟩
  | count _ hread =>
    obtain ⟨hall, hcount⟩ := hdigits hread
    exact ⟨List.forall_mem_cons.2 ⟨.inr rfl, fun c hc => .inr (hall c hc)⟩, by simp [hcount]⟩
  | signed _ hread =>
    obtain ⟨hall, hcount⟩ := hdigits hread
    exact ⟨List.forall_mem_cons.2 ⟨.inr rfl, List.forall_mem_cons.2
      ⟨.inl rfl, fun c hc => .inr (hall c hc)⟩⟩, by simp [hcount]⟩

theorem isSpellingChar_of_closer? {c close : Char} (h : closer? letter c = some close) :
    isSpellingChar c = true ∧ isSpellingChar close = true := by
  unfold closer? at h
  split_ifs at h with hbrace hangle hquote
  · cases h
    exact ⟨by rw [hbrace]; rfl, rfl⟩
  · cases h
    exact ⟨by rw [hangle.2]; rfl, rfl⟩
  · cases h
    exact ⟨by rw [hquote.2]; rfl, rfl⟩

/-- A reference is spelled out behind its letter. -/
theorem exists_spelled_of_read (h : read letter cs = some (reference, spelling, rest)) :
    ∃ tail, cs = tail ++ rest ∧ Spelled tail := by
  rcases read_eq_some h with ⟨c, close, text, hcloser, rfl, htext⟩ | ⟨_, text, rfl, hsplit, _⟩
  · obtain ⟨hc, hclose⟩ := isSpellingChar_of_closer? hcloser
    obtain ⟨hchars, honce⟩ := htext.spelled
    exact ⟨c :: text ++ [close], by simp, .enclosed hc hclose hchars honce⟩
  · refine ⟨text, rfl, .of_forall ?_⟩
    obtain ⟨⟨digits, hdigits, hall⟩, _⟩ := digits_of_splitNumber hsplit
    have hspelling : ∀ c ∈ digits, isSpellingChar c = true := fun c hc =>
      isSpellingChar_of_isDigit (hall c hc)
    rcases hdigits with rfl | rfl
    · exact hspelling
    · exact List.forall_mem_cons.2 ⟨rfl, hspelling⟩

end Backreference

/-! ### Literal text -/

namespace Conversion

open CategoryEscape Lexeme TokenStream

variable {inClass dotAll : Bool} {captures : Captures} {a a' b b' x y : List Char}

/-- A text, and what can be written for it.  `inClass` says that the text stands between
    brackets. -/
inductive Written (inClass dotAll : Bool) : List Char → List Char → Prop where
  | nil : Written inClass dotAll [] []
  | lone : Written inClass dotAll ['\\'] ['\\']
  | char {c : Char} {x y : List Char} (hc : c ≠ '\\') (h : Written inClass dotAll x y) :
      Written inClass dotAll (c :: x) ((if c = '.' then dotText dotAll else [c]) ++ y)
  | pair (c : Char) {x y : List Char} (h : Written inClass dotAll x y) :
      Written inClass dotAll ('\\' :: c :: x) ('\\' :: c :: y)
  | category {letter : Char} {tail x y : List Char} (escape : Escape)
      (hletter : letter = 'p' ∨ letter = 'P') (htail : Spelled tail)
      (h : Written inClass dotAll x y) :
      Written inClass dotAll ('\\' :: letter :: tail ++ x) (escape.expanded inClass ++ y)
  /-- The number of a reference, which is set apart if what comes behind it begins with a
      digit. -/
  | reference {letter : Char} {tail x y : List Char} (number : Nat) (behind : List Char)
      (hletter : letter = 'k' ∨ letter = 'g') (htail : Spelled tail)
      (h : Written inClass dotAll x y) :
      Written inClass dotAll ('\\' :: letter :: tail ++ x)
        (Backreference.numbered number behind ++ y)

theorem Written.append (ha : Written inClass dotAll a a') (hcomplete : Complete a)
    (hb : Written inClass dotAll b b') : Written inClass dotAll (a ++ b) (a' ++ b') := by
  induction ha with
  | nil => exact hb
  | lone =>
    rcases hcomplete with _ | _ | ⟨hc, _, _⟩
    exact absurd rfl hc
  | char hc _ ih =>
    rw [List.append_assoc]
    exact .char hc (ih (hcomplete.of_single hc).2)
  | pair c _ ih => exact .pair c (ih hcomplete.of_pair)
  | category escape hletter htail _ ih =>
    have hrest := FreeOf.of_append (complete_of_forall htail.ne_backslash) hcomplete.of_pair
    simpa using Written.category escape hletter htail (ih hrest.2)
  | reference number behind hletter htail _ ih =>
    have hrest := FreeOf.of_append (complete_of_forall htail.ne_backslash) hcomplete.of_pair
    simpa using Written.reference number behind hletter htail (ih hrest.2)

theorem written_of_expand (h : (expand inClass dotAll x).outcome = .ok y) :
    Written inClass dotAll x y := by
  fun_induction expand inClass dotAll x generalizing y with
  | case1 =>
    cases h
    exact .nil
  | case2 =>
    cases h
    exact .lone
  | case3 => cases h
  | case4 c cs hc escape rest hread ih =>
    simp only [Traced.outcome_bind_eq_ok_iff] at h
    obtain ⟨_, _, _, _, later, hlater, hy⟩ := h
    cases hy
    obtain ⟨tail, rfl, htail⟩ := exists_spelled_of_read (by decide)
      (fun _ => isSpellingChar_of_isCategoryChar) hread
    exact .category escape hc (.of_forall htail) (ih hlater)
  | case5 c cs hc ih =>
    obtain ⟨later, hlater, hy⟩ := Traced.outcome_bind_eq_ok_iff.1 h
    cases hy
    exact .pair c (ih hlater)
  | case6 c cs hlone hpair ih =>
    obtain ⟨later, hlater, hy⟩ := Traced.outcome_bind_eq_ok_iff.1 h
    cases hy
    exact .char (ne_backslash_of_not_pair hlone hpair) (ih hlater)

/-- **A conversion of literal text sets something beside each of its pieces.** -/
theorem written_of_convertLiteral (h : (convertLiteral dotAll captures x).outcome = .ok y) :
    Written false dotAll x y := by
  induction hn : x.length using Nat.strong_induction_on generalizing x y with
  | _ n ih =>
    obtain ⟨before, found, hsplit⟩ : ∃ before found,
        Backreference.splitFirst x = (before, found) := ⟨_, _, rfl⟩
    obtain ⟨htext, hcomplete⟩ := Backreference.eq_of_splitFirst hsplit
    cases found with
    | none =>
      rw [Source.convertLiteral_of_none hsplit] at h
      have hbefore : x = before := by simpa using htext
      rw [hbefore]
      exact written_of_expand h
    | some found =>
      obtain ⟨letter, after⟩ := found
      obtain ⟨reference, spelling, rest, number, front, back, hread, _, hfront, hback, rfl⟩ :=
        (Source.convertLiteral_of_some hsplit y).1 h
      have hshorter : rest.length < n := by
        have hafter := Backreference.length_lt_of_splitFirst hsplit
        have hrest := Backreference.length_le_of_read hread
        omega
      obtain ⟨tail, hafter, htail⟩ := Backreference.exists_spelled_of_read hread
      have hletter := Backreference.letter_of_splitFirst hsplit
      change x = before ++ '\\' :: letter :: after at htext
      rw [htext, hafter, List.append_assoc]
      exact (written_of_expand hfront).append (hcomplete rfl)
        (.reference number rest hletter htail (ih _ hshorter hback rfl))

/-! ### Whole bodies -/

variable {bad : Char → Prop} {kinds : List GroupKind} {ls : List Lexeme} {final : Captures}

/-- **What holds of rendered texts, and of such texts put together, holds of a converted body.**
    A seam may turn a plain parenthesis into the start of another group, so that the whole need
    not be rendered. -/
theorem Converts.of_rendered {P : List Char → Prop} (hbad : ∀ c, bad c → c = '/')
    (hrendered : ∀ ps cs, Rendered bad ps cs → P cs)
    (happend : ∀ as bs, P as → P bs → P (as ++ bs))
    (h : Converts dotAll captures kinds ls y final) (hsafe : ∀ l ∈ ls, l.Safe bad) : P y := by
  have hliteral : ∀ {captures : Captures} {lits : List Lexeme} {x : List Char},
      (∀ l ∈ lits, l.isLiteral = true) → (∀ l ∈ lits, l.Safe bad) →
      (convertLiteral dotAll captures (lits.flatMap Lexeme.text)).outcome = .ok x → P x := by
    intro captures lits x hlits hsafe hx
    obtain ⟨ps, _, hps⟩ :=
      rendered_of_convertLiteral hbad (plain_of_literal hlits hsafe) hx .nil .nil
    rw [List.append_nil] at hps
    exact hrendered ps x hps
  induction h with
  | literal hlits hx => exact hliteral hlits hsafe hx
  | @token _ _ _ lits ls l item pos x y z hlits hx hitem hy hz ih =>
    obtain ⟨hsafelits, hsafelater⟩ := List.forall_mem_append.1 hsafe
    obtain ⟨hsafel, hsafels⟩ := List.forall_mem_cons.1 hsafelater
    obtain ⟨ps, _, hps⟩ :=
      rendered_of_convertToken (z := []) hbad hitem hsafel hy (by simp) .nil .nil
    rw [List.append_nil] at hps
    exact happend _ z (happend x y (hliteral hlits hsafelits hx) (hrendered ps y hps))
      (ih hsafels)

theorem Rendered.outside {ps : List Parenthesis} (h : Rendered bad ps x) : Outside x := by
  induction h with
  | nil => exact .nil
  | char hc _ _ ih => exact .single hc.1 hc.2.1 ih
  | pair c _ ih => exact .pair c ih
  | bracket hcontent _ ih => exact .bracket (hcontent.mono fun _ => Or.inr) ih
  | capturing _ _ ih => exact .single (by decide) (by decide) ih
  | nonCapturing _ ih =>
    have hmarks : ∀ c ∈ ['(', '?', ':'], c ≠ '\\' ∧ c ≠ '[' := forall_mem_of_all (by decide)
    exact .append_of_forall hmarks ih
  | ahead negated _ ih =>
    have hmarks : ∀ c ∈ ['(', '?', if negated then '!' else '='], c ≠ '\\' ∧ c ≠ '[' := by
      cases negated <;> exact forall_mem_of_all (by decide)
    exact .append_of_forall hmarks ih
  | closer _ ih => exact .single (by decide) (by decide) ih

theorem Converts.freeOf (hbad : ∀ c, bad c → c = '/')
    (h : Converts dotAll captures kinds ls y final) (hsafe : ∀ l ∈ ls, l.Safe bad) :
    FreeOf bad y :=
  h.of_rendered hbad (fun _ _ hps => hps.freeOf hbad) (fun _ _ => FreeOf.append) hsafe

theorem Converts.outside (hbad : ∀ c, bad c → c = '/')
    (h : Converts dotAll captures kinds ls y final) (hsafe : ∀ l ∈ ls, l.Safe bad) :
    Outside y :=
  h.of_rendered hbad (fun _ _ => Rendered.outside) (fun _ _ => Outside.append) hsafe

end Conversion

/-! ### Whole patterns -/

open Conversion in
/-- What is written for a pattern: the conversion of its body between two slashes, with slashes of
    its own escaped where they could not have stood in the pattern, and some modifiers. -/
theorem Pattern.exists_written {limit : Nat} {pattern : String} {p : Pattern} {t : Converted}
    (hparse : (parse limit pattern).outcome = .ok p) (hconvert : p.convert.outcome = .ok t) :
    ∃ flags text body captures, t.pattern = String.ofList ('/' :: body ++ '/' :: flags) ∧
      convertModifiers [] p.modifiers.toList = .ok flags ∧
      Converts (p.hasModifier 's') .none [] (Lexeme.ofBody p.body.toList) text captures ∧
      (body = text ∨ body = protect '/' text) ∧ FreeOf (· = '/') body ∧ Complete text ∧
      Lexeme.Outside text := by
  obtain ⟨flags, text, body, captures, hflags, htext, hbody, rfl⟩ := convert_eq_ok hconvert
  have hfree := freeOf_of_parse hparse
  have hconverts := converts hparse htext
  have hsafe : ∀ l ∈ Lexeme.ofBody p.body.toList, l.Safe fun _ => False := fun _ =>
    Lexeme.safe_of_mem_ofBody hfree.complete
  have hcomplete : Complete text := hconverts.freeOf (fun _ => False.elim) hsafe
  have houtside := hconverts.outside (fun _ => False.elim) hsafe
  refine ⟨flags, text, body, captures, rfl, hflags, hconverts, ?_, ?_, hcomplete, houtside⟩
  · rw [← hbody]
    split
    · exact .inl rfl
    · exact .inr rfl
  · rw [← hbody]
    split
    · rename_i hslash
      rw [hslash] at hfree
      exact hconverts.freeOf (fun _ => id) fun _ => Lexeme.safe_of_mem_ofBody hfree
    · exact freeOf_protect hcomplete

end RegexText
