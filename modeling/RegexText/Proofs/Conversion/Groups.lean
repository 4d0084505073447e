/-
  RegexText/Proofs/Conversion/Groups.lean
  =======================================
  **A converted pattern can be read again, and it has the groups of the pattern.**

  The converter hands out group numbers: those of references, and those of the
  named groups.  They are right only if the groups of the text that it writes are
  the groups of the pattern, in the same order and nested in the same way.
  `parse_converted` says so for every pattern that is converted, with one
  exception: behind the name of a capturing group, which is not written, a
  question mark would turn the group into something else.
-/
import RegexText.Proofs.Conversion.Parentheses
import RegexText.Proofs.Pattern

namespace RegexText

open Text TokenStream

/-! ### Patterns of the target -/

namespace TokenItem

def isStart : TokenItem → Bool
  | .groupStart _ _ => true
  | .characterClass _ _ | .optionGroup _ | .groupEnd _ _ _ => false

/-- Does the target dialect have items of this kind? -/
def isTarget : TokenItem → Bool
  | .characterClass _ _ => true
  | .optionGroup _ => false
  | .groupStart opener _ => opener.isTarget
  | .groupEnd (.assertion .behind _) _ _ => false
  | .groupEnd _ _ _ => true

end TokenItem

namespace Pattern

def items (p : Pattern) : List TokenItem := p.tokens.map Token.item

/-- Is no start of a group followed by a question mark? -/
def Unquestioned (p : Pattern) : Prop :=
  ∀ t ∈ p.tokens, t.item.isStart = true → (splitBytes t.stop p.body.toList).2.head? ≠ some '?'

instance (p : Pattern) : Decidable p.Unquestioned :=
  inferInstanceAs (Decidable (∀ t ∈ p.tokens, t.item.isStart = true → _ ≠ _))

/-- Is `q` a pattern of the target dialect with the groups of `p`?  The ends of groups that
    capture or look ahead are the same, in the same order, and are linked in the same way. -/
structure Mirrors (p q : Pattern) : Prop where
  delimiter : q.delimiter = '/'
  distinct : q.modifiers.toList.Nodup
  kept : ∀ m ∈ q.modifiers.toList, m ∈ ['i', 'm']
  landmarks : landmarks q.items = landmarks p.items
  unnamed : captureNames q.items = (captureNames p.items).map fun _ => none
  target : ∀ item ∈ q.items, item.isTarget = true

end Pattern

/-! ### Items of a body -/

namespace TokenStream

theorem parenthesis?_of_groupStart {kinds : List GroupKind} {l : Lexeme} {opener : Opener}
    (h : itemFor? kinds l = some (.groupStart opener 0)) :
    l.parenthesis? = some (.opens opener) := by
  cases l with
  | opener o text =>
    cases h
    rfl
  | closer quantifiers =>
    obtain ⟨_, _, heq⟩ := Option.map_eq_some_iff.1 h
    cases heq
  | _ => cases h

theorem parenthesis?_of_optionGroup {kinds : List GroupKind} {l : Lexeme} {options : String}
    (h : itemFor? kinds l = some (.optionGroup options)) : l.parenthesis? = some .other := by
  cases l with
  | optionSetting letters => rfl
  | closer quantifiers =>
    obtain ⟨_, _, heq⟩ := Option.map_eq_some_iff.1 h
    cases heq
  | _ => cases h

variable {limit : Nat} {body : List Char} {tokens : List Token}

theorem exists_lexeme_of_tokenize (h : (tokenize limit body).outcome = .ok tokens) {t : Token}
    (ht : t ∈ tokens) :
    ∃ l ∈ Lexeme.ofBody body, ∃ kinds, itemFor? kinds l = some (unlinkedItem t.item) := by
  have hmem := List.mem_map_of_mem (f := unlinked) ht
  rw [map_unlinked_of_tokenize h] at hmem
  obtain ⟨before, l, after, hsplit, _, _, kinds, hitem⟩ := mem_layout hmem
  exact ⟨l, by rw [hsplit]; simp, kinds, hitem⟩

/-- A body whose parentheses the target can spell has only items of the target.  What the end of
    a group says is known from its start. -/
theorem isTarget_of_tokenize (h : (tokenize limit body).outcome = .ok tokens)
    (hps : ∀ p ∈ Lexeme.bodyParentheses body,
      p = .closes ∨ ∃ opener, p = .opens opener ∧ opener.isTarget = true) :
    ∀ t ∈ tokens, t.item.isTarget = true := by
  have hstart : ∀ t ∈ tokens, ∀ opener e, t.item = .groupStart opener e →
      opener.isTarget = true := by
    intro t ht opener e hitem
    obtain ⟨l, hl, kinds, hfor⟩ := exists_lexeme_of_tokenize h ht
    rw [hitem] at hfor
    have hmem := Lexeme.mem_parentheses hl (parenthesis?_of_groupStart hfor)
    rcases hps _ hmem with heq | ⟨_, heq, htarget⟩
    · cases heq
    · cases heq
      exact htarget
  intro t ht
  cases hitem : t.item with
  | characterClass content quantifiers => rfl
  | optionGroup options =>
    obtain ⟨l, hl, kinds, hfor⟩ := exists_lexeme_of_tokenize h ht
    rw [hitem] at hfor
    have hmem := Lexeme.mem_parentheses hl (parenthesis?_of_optionGroup hfor)
    rcases hps _ hmem with heq | ⟨_, heq, _⟩ <;> cases heq
  | groupStart opener e => exact hstart t ht opener e hitem
  | groupEnd kind i quantifiers =>
    obtain ⟨e, he⟩ := List.mem_iff_getElem?.1 ht
    have hend : (tokens[e]?).map Token.item = some (.groupEnd kind i quantifiers) := by
      rw [he, Option.map_some, hitem]
    obtain ⟨s, hreads, _, rfl⟩ := tokenize_eq_ok_iff.1 h
    rw [Array.getElem?_toList] at hend
    obtain ⟨_, _, opener, hopener, rfl⟩ :=
      (linked_of_reads hreads).start_of_end e kind i quantifiers hend
    obtain ⟨start, hget, hstartitem⟩ := Option.map_eq_some_iff.1 hopener
    rw [← Array.getElem?_toList] at hget
    have htarget := hstart start (List.mem_of_getElem? hget) opener e hstartitem
    rcases opener with name | options | _ | ⟨_ | _, _ | _⟩ <;> first | rfl | cases htarget

/-- With the landmarks of other items, items of the target have as many capturing groups, and
    no names. -/
theorem captureNames_of_isTarget {items items' : List TokenItem}
    (htarget : ∀ item ∈ items', item.isTarget = true) (hsame : landmarks items' = landmarks items) :
    captureNames items' = (captureNames items).map fun _ => none := by
  have hlength : (captureNames items').length = (captureNames items).length := by
    rw [length_captureNames, length_captureNames, hsame]
  rw [List.map_const', ← hlength]
  apply List.eq_replicate_of_mem
  intro name hname
  obtain ⟨item, hitem, hcapture⟩ := List.mem_filterMap.1 hname
  have hitemtarget := htarget item hitem
  rcases item with _ | _ | ⟨_ | _ | _ | _, e⟩ | _ <;> cases hcapture
  exact Option.isNone_iff_eq_none.1 hitemtarget

end TokenStream

namespace Pattern

/-- Tokens and lexemes agree on what follows the start of a group. -/
theorem Unquestioned.lexemes {p : Pattern} (h : p.Unquestioned) {limit : Nat}
    (htokens : (tokenize limit p.body.toList).outcome = .ok p.tokens) :
    Conversion.Unquestioned (Lexeme.ofBody p.body.toList) := by
  intro before opener text after hsplit
  have hmem := mem_layout_opener 0 [] before opener text after
  rw [← hsplit, ← map_unlinked_of_tokenize htokens] at hmem
  obtain ⟨token, htoken, heq⟩ := List.mem_map.1 hmem
  obtain ⟨e, hstart⟩ := eq_groupStart_of_unlinkedItem (congrArg Token.item heq)
  have hbody : p.body.toList =
      (before.flatMap Lexeme.text ++ text) ++ after.flatMap Lexeme.text := by
    rw [← Lexeme.flatMap_text_ofBody p.body.toList, hsplit]
    simp [Lexeme.text]
  have hnext := h token htoken (by rw [hstart]; rfl)
  have hoffset : token.stop = byteLength (before.flatMap Lexeme.text ++ text) := by
    have hstop := congrArg Token.stop heq
    rw [byteLength_append, ← Nat.zero_add (byteLength (before.flatMap Lexeme.text))]
    exact hstop
  rwa [hoffset, hbody, splitBytes_byteLength] at hnext

end Pattern

/-! ### Names and modifiers -/

namespace Conversion

open Source

theorem opened_capturesOf (groups : Groups) (item : TokenItem) :
    opened (capturesOf groups) item =
      capturesOf ((item.captureName?.toList).reverse ++ groups) := by
  rcases item with _ | _ | ⟨_ | _ | _ | _, e⟩ | _ <;> rfl

/-- The converter knows the groups that the tokens open. -/
theorem captures_of_convertTokens {dotAll : Bool} {groups : Groups} {pos : Nat}
    {rest y : List Char} {ts : List Token} {final : Captures}
    (h : (convertTokens dotAll (capturesOf groups) pos rest ts).outcome = .ok (y, final)) :
    final = capturesOf ((captureNames (ts.map Token.item)).reverse ++ groups) := by
  induction ts generalizing groups pos rest y with
  | nil =>
    obtain ⟨_, _, heq⟩ := Traced.outcome_bind_eq_ok_iff.1 h
    cases heq
    rfl
  | cons t ts ih =>
    obtain ⟨_, _, h⟩ := Traced.outcome_bind_eq_ok_iff.1 h
    obtain ⟨_, _, h⟩ := Traced.outcome_bind_eq_ok_iff.1 h
    obtain ⟨later, hlater, heq⟩ := Traced.outcome_bind_eq_ok_iff.1 h
    cases heq
    rw [opened_capturesOf] at hlater
    rw [ih hlater]
    cases hname : t.item.captureName? <;> simp [captureNames, hname]

theorem getElem?_of_mem_namedGroups {groups : Groups} {name : String} {number : Nat}
    (h : (name, number) ∈ (namedGroups groups).toList) :
    1 ≤ number ∧ groups.reverse[number - 1]? = some (some name) := by
  obtain ⟨i, rfl, hget, _⟩ := groupNumber?_eq_some_iff.1 (mem_namedGroups_iff.1 h)
  exact ⟨Nat.succ_pos i, hget⟩

theorem distinct_of_convertModifiers {flags mods out : List Char}
    (h : convertModifiers flags mods = .ok out) (hflags : flags.Nodup)
    (hkept : ∀ m ∈ flags, m ∈ keptModifiers) : out.Nodup ∧ ∀ m ∈ out, m ∈ keptModifiers := by
  induction mods generalizing flags with
  | nil =>
    cases h
    exact ⟨hflags, hkept⟩
  | cons m ms ih =>
    unfold convertModifiers at h
    split at h
    · rename_i hm
      split at h
      · exact ih h hflags hkept
      · rename_i hnew
        refine ih h (List.nodup_append.2 ⟨hflags, List.nodup_singleton m, ?_⟩)
          (List.forall_mem_append.2 ⟨hkept, List.forall_mem_singleton.2 hm⟩)
        rintro a ha b hb rfl
        exact hnew (List.mem_singleton.1 hb ▸ ha)
    · split at h
      · exact ih h hflags hkept
      · cases h

end Conversion

/-! ### Whole patterns -/

namespace Pattern

open Conversion

theorem convert_eq_ok {p : Pattern} {t : Converted} (h : p.convert.outcome = .ok t) :
    ∃ flags text body captures, convertModifiers [] p.modifiers.toList = .ok flags ∧
      (convertTokens (p.hasModifier 's') .none 0 p.body.toList p.tokens).outcome =
        .ok (text, captures) ∧
      (if p.delimiter = '/' then text else protect '/' text) = body ∧
      t = ⟨String.ofList ('/' :: body ++ '/' :: flags), captures.names⟩ := by
  unfold convert at h
  split at h
  · cases h
  · rename_i flags hflags
    obtain ⟨⟨text, captures⟩, htext, h⟩ := Traced.outcome_bind_eq_ok_iff.1 h
    obtain ⟨_, _, heq⟩ := Traced.outcome_bind_eq_ok_iff.1 h
    cases heq
    exact ⟨flags, text, _, captures, hflags, htext, rfl, rfl⟩

/-- A pattern that is read and converted is converted from token to token. -/
theorem converts {limit : Nat} {pattern : String} {p : Pattern}
    (hparse : (parse limit pattern).outcome = .ok p) {text : List Char} {captures : Captures}
    (htext : (convertTokens (p.hasModifier 's') .none 0 p.body.toList p.tokens).outcome =
      .ok (text, captures)) :
    Converts (p.hasModifier 's') .none [] (Lexeme.ofBody p.body.toList) text captures := by
  have htokens := tokenize_of_parse hparse
  obtain ⟨s, hreads, _, _⟩ := tokenize_eq_ok_iff.1 htokens
  rw [← convertTokens_unlinked, map_unlinked_of_tokenize htokens] at htext
  apply converts_of_convertTokens hreads
  rw [Lexeme.flatMap_text_ofBody]
  exact htext

/-- The body that is written has the parentheses of the pattern's body, and no slash that would
    end it. -/
theorem exists_rendered_body {limit : Nat} {pattern : String} {p : Pattern}
    (hparse : (parse limit pattern).outcome = .ok p) (hopen : p.Unquestioned)
    {text : List Char} {captures : Captures}
    (htext : (convertTokens (p.hasModifier 's') .none 0 p.body.toList p.tokens).outcome =
      .ok (text, captures)) :
    ∃ ys, Padded (Lexeme.bodyParentheses p.body.toList) ys ∧
      Rendered (· = '/') ys (if p.delimiter = '/' then text else protect '/' text) := by
  have htokens := tokenize_of_parse hparse
  have hfree := freeOf_of_parse hparse
  have hconverts := converts hparse htext
  split
  · rename_i hdelimiter
    rw [hdelimiter] at hfree
    exact hconverts.rendered (fun _ => id) (fun _ => Lexeme.safe_of_mem_ofBody hfree)
      (hopen.lexemes htokens)
  · obtain ⟨ys, hpadded, hrendered⟩ := hconverts.rendered (fun _ => False.elim)
      (fun _ => Lexeme.safe_of_mem_ofBody hfree.complete) (hopen.lexemes htokens)
    exact ⟨ys, hpadded, hrendered.protect⟩

/-- **A converted pattern can be read again, with the groups of the pattern.**  One more group
    may be open at a time than in the pattern, since a reference can be put between
    parentheses.  The numbers of the named groups are the places of these names in the pattern,
    and the written pattern has as many capturing groups. -/
theorem parse_converted {limit : Nat} {pattern : String} {p : Pattern} {t : Converted}
    (hparse : (parse limit pattern).outcome = .ok p) (hconvert : p.convert.outcome = .ok t)
    (hopen : p.Unquestioned) :
    ∃ q, (parse (limit + 1) t.pattern).outcome = .ok q ∧ p.Mirrors q ∧
      ∀ name number, (name, number) ∈ t.captures.toList →
        1 ≤ number ∧ number ≤ (captureNames q.items).length ∧
          (captureNames p.items)[number - 1]? = some (some name) := by
  obtain ⟨flags, text, body, captures, hflags, htext, hbody, rfl⟩ := convert_eq_ok hconvert
  obtain ⟨ys, hpadded, hrendered⟩ := exists_rendered_body hparse hopen htext
  rw [hbody] at hrendered
  have hread := hrendered.parentheses
  -- the machine goes through the parentheses of both bodies with the same landmarks
  have hrun := hpadded.run (Nat.zero_le limit)
    (run_of_tokenize (tokenize_of_parse hparse) hpadded.other_not_mem)
  rw [← hread] at hrun
  obtain ⟨tokens, htokens, hlandmarks⟩ := exists_tokenize_of_run hrun
  have htarget : ∀ item ∈ tokens.map Token.item, item.isTarget = true :=
    List.forall_mem_map.2 (isTarget_of_tokenize htokens fun p hp => hpadded.eq_of_mem (hread ▸ hp))
  have hnames := captureNames_of_isTarget htarget hlandmarks
  obtain ⟨hdistinct, hkept⟩ := distinct_of_convertModifiers hflags List.nodup_nil (by simp)
  have halpha : ∀ m ∈ keptModifiers, m.isAlpha = true := forall_mem_of_all (by decide)
  have hagain := parse_append isDelimiter_slash (hrendered.freeOf fun _ => id)
    (fun m hm => halpha m (hkept m hm)) (fun hx => absurd (hkept 'x' hx) (by decide)) htokens
  refine ⟨_, hagain, ?_, ?_⟩
  · exact ⟨rfl, by rwa [String.toList_ofList], by rwa [String.toList_ofList], hlandmarks, hnames,
      htarget⟩
  · intro name number hmem
    have hcaptures : captures = Source.capturesOf ((captureNames p.items).reverse ++ []) :=
      captures_of_convertTokens htext
    rw [hcaptures, List.append_nil, Source.names_capturesOf] at hmem
    obtain ⟨hpos, hget⟩ := getElem?_of_mem_namedGroups hmem
    rw [List.reverse_reverse] at hget
    have hlt := (List.getElem?_eq_some_iff.1 hget).1
    have hlength : (captureNames (tokens.map Token.item)).length =
        (captureNames p.items).length := by
      rw [hnames, List.length_map]
      rfl
    exact ⟨hpos, by change number ≤ (captureNames (tokens.map Token.item)).length; omega, hget⟩

/-- A reference in front of a digit, inside two groups, and an assertion behind them. -/
def referenceBeforeDigit : Pattern :=
  ⟨'~', "xi", "((?<n>a)(?>\\k<n>1))(?=[b/])",
    [⟨0, 1, .groupStart (.capturing none) 5⟩, ⟨1, 5, .groupStart (.capturing (some "n")) 2⟩,
      ⟨7, 1, .groupEnd .capturing 1 ""⟩, ⟨8, 3, .groupStart .atomic 4⟩,
      ⟨17, 1, .groupEnd .nonCapturing 3 ""⟩, ⟨18, 1, .groupEnd .capturing 0 ""⟩,
      ⟨19, 3, .groupStart (.assertion .ahead false) 8⟩, ⟨22, 4, .characterClass "b/" ""⟩,
      ⟨26, 1, .groupEnd (.assertion .ahead false) 6 ""⟩]⟩

/-- The number is put between parentheses, deeper than any group of the pattern. -/
theorem parse_converted_referenceBeforeDigit :
    (parse 2 "~((?<n> a)(?>\\k<n>1)) (?=[b/])~xi").outcome = .ok referenceBeforeDigit ∧
      referenceBeforeDigit.convert.outcome =
        .ok ⟨"/((a)(?:(?:\\2)1))(?=[b\\/])/i", ⟨[("n", 2)]⟩⟩ ∧
      referenceBeforeDigit.Unquestioned ∧
      ∃ q, (parse 3 "/((a)(?:(?:\\2)1))(?=[b\\/])/i").outcome = .ok q ∧
        referenceBeforeDigit.Mirrors q ∧
        ∀ name number, (name, number) ∈ [("n", 2)] →
          1 ≤ number ∧ number ≤ (captureNames q.items).length ∧
            (captureNames referenceBeforeDigit.items)[number - 1]? = some (some name) := by
  have hparse : (parse 2 "~((?<n> a)(?>\\k<n>1)) (?=[b/])~xi").outcome =
      .ok referenceBeforeDigit := by decide +kernel
  have hconvert : referenceBeforeDigit.convert.outcome =
      .ok ⟨"/((a)(?:(?:\\2)1))(?=[b\\/])/i", ⟨[("n", 2)]⟩⟩ := by decide +kernel
  have hopen : referenceBeforeDigit.Unquestioned := by decide +kernel
  obtain ⟨q, hagain, hmirrors, hnames⟩ := parse_converted hparse hconvert hopen
  exact ⟨hparse, hconvert, hopen, q, hagain, hmirrors, hnames⟩

/-- Behind a name, a question mark makes an assertion of the group. -/
example : (convertPattern 1 "/(?<n>?=a)/").outcome = .ok ⟨"/(?=a)/", ⟨[("n", 1)]⟩⟩ := by
  decide +kernel

end Pattern

end RegexText
