/-
  RegexText/Proofs/Conversion/Acceptance.lean
  ===========================================
  **Which patterns are converted.**

  The tokens of a pattern need not be those of its body.  All that the converter
  relies on is where they lie: it cuts the body at their offsets, and converts what
  is between them without knowing what the tokens stand for.  So its success is a
  matter of the modifiers, of each token, and of each piece of literal text, one by
  one.  Pieces without references do not depend on the groups either.

  A failure always names something that the target dialect lacks.
-/
import RegexText.Proofs.Conversion.Categories
import RegexText.Proofs.Conversion.Groups

namespace RegexText

open Text Source

/-! ### Offsets -/

namespace TokenStream

theorem isBoundary_iff {body : List Char} {offset : Nat} :
    IsBoundary body offset ↔ byteLength (splitBytes offset body).1 = offset := by
  constructor
  · rintro ⟨before, after, rfl, rfl⟩
    rw [splitBytes_byteLength]
  · intro h
    exact ⟨_, _, (splitBytes_append offset body).symm, h⟩

instance (body : List Char) (offset : Nat) : Decidable (IsBoundary body offset) :=
  decidable_of_iff _ isBoundary_iff.symm

/-- Do some tokens lie in a body, one behind the other, at the boundaries of characters? -/
structure Placed (body : List Char) (tokens : List Token) : Prop where
  boundary : ∀ t ∈ tokens, IsBoundary body t.pos ∧ IsBoundary body t.stop
  disjoint : tokens.Pairwise fun a b => a.stop ≤ b.pos

/-- A cut behind another one can be made in the whole body. -/
theorem splitBytes_sub {body : List Char} {start stop : Nat} (hstart : IsBoundary body start)
    (hle : start ≤ stop) :
    (splitBytes (stop - start) (splitBytes start body).2).2 = (splitBytes stop body).2 := by
  obtain ⟨before, after, rfl, rfl⟩ := hstart
  have hstop : stop = byteLength before + (stop - byteLength before) := by omega
  conv_rhs => rw [hstop, splitBytes_byteLength_add]
  rw [splitBytes_byteLength]

end TokenStream

/-! ### Pieces of literal text -/

namespace Conversion

open TokenStream

/-- The groups that have been opened behind a token, the latest first. -/
def groupsAfter (groups : Groups) (item : TokenItem) : Groups :=
  item.captureName?.toList ++ groups

theorem opened_eq_groupsAfter (groups : Groups) (item : TokenItem) :
    opened (capturesOf groups) item = capturesOf (groupsAfter groups item) := by
  rcases item with _ | _ | ⟨_ | _ | _ | _, e⟩ | _ <;> rfl

/-- A piece of literal text, and the groups that have been opened before it. -/
structure Span where
  groups : Groups
  text : List Char
deriving DecidableEq, Repr

/-- The literal text between some tokens and behind them, from an offset of a body on. -/
def spans (body : List Char) (groups : Groups) (pos : Nat) : List Token → List Span
  | [] => [⟨groups, (splitBytes pos body).2⟩]
  | t :: ts =>
    ⟨groups, sliceBytes pos t.pos body⟩ :: spans body (groupsAfter groups t.item) t.stop ts

/-- Does a text hold no reference? -/
def NoReferences (cs : List Char) : Prop :=
  ∀ letter after, letter = 'k' ∨ letter = 'g' → ¬ PairAt cs letter after

/-- The text in front of the first reference holds none. -/
theorem noReferences_of_splitFirst {cs before : List Char} {found : Option (Char × List Char)}
    (h : Backreference.splitFirst cs = (before, found)) :
    NoReferences before ∧ ∀ r ∈ found, r.1 = 'k' ∨ r.1 = 'g' := by
  fun_induction Backreference.splitFirst cs generalizing before found with
  | case1 =>
    cases h
    exact ⟨fun _ _ _ => not_pairAt_nil, by simp⟩
  | case2 =>
    cases h
    exact ⟨fun _ _ _ => not_pairAt_lone, by simp⟩
  | case3 c cs hc =>
    cases h
    exact ⟨fun _ _ _ => not_pairAt_nil, by simpa using hc⟩
  | case4 c cs hc front found hsplit ih =>
    cases h
    obtain ⟨hfront, hfound⟩ := ih hsplit
    refine ⟨?_, hfound⟩
    intro letter after hletter hpair
    rcases pairAt_pair_iff.1 hpair with ⟨rfl, _⟩ | hlater
    · exact hc hletter
    · exact hfront letter after hletter hlater
  | case5 c cs hlone hpair front found hsplit ih =>
    cases h
    obtain ⟨hfront, hfound⟩ := ih hsplit
    have hc := ne_backslash_of_not_pair hlone hpair
    exact ⟨fun letter after hletter h => hfront letter after hletter
      ((pairAt_single_iff hc).1 h), hfound⟩

theorem noReferences_iff {cs : List Char} :
    NoReferences cs ↔ Backreference.splitFirst cs = (cs, none) := by
  cases hsplit : Backreference.splitFirst cs with
  | mk before found =>
    obtain ⟨hfront, hletter⟩ := noReferences_of_splitFirst hsplit
    obtain ⟨heq, hcomplete⟩ := Backreference.eq_of_splitFirst hsplit
    cases found with
    | none =>
      have hwhole : cs = before := by simpa using heq
      rw [hwhole]
      exact iff_of_true hfront rfl
    | some r =>
      refine iff_of_false (fun h => ?_) (by simp)
      exact h r.1 r.2 (hletter r rfl) ⟨before, hcomplete rfl, heq⟩

instance (cs : List Char) : Decidable (NoReferences cs) :=
  decidable_of_iff _ noReferences_iff.symm

variable {dotAll : Bool} {body : List Char} {groups : Groups} {pos : Nat} {ts : List Token}

/-- **Literal text and tokens are converted one by one.** -/
theorem succeeds_convertTokens_iff (hpos : IsBoundary body pos) (hplaced : Placed body ts)
    (hbehind : ∀ t ∈ ts, pos ≤ t.pos) :
    (convertTokens dotAll (capturesOf groups) pos (splitBytes pos body).2 ts).Succeeds ↔
      (∀ s ∈ spans body groups pos ts,
        (convertLiteral dotAll (capturesOf s.groups) s.text).Succeeds) ∧
      ∀ t ∈ ts, (convertToken t).Succeeds := by
  induction ts generalizing groups pos with
  | nil =>
    simp only [convertTokens, spans, Traced.succeeds_bind_iff, List.mem_singleton, forall_eq,
      List.not_mem_nil, false_implies, implies_true, and_true]
    constructor
    · rintro ⟨text, htext, _⟩
      exact ⟨text, htext⟩
    · rintro ⟨text, htext⟩
      exact ⟨text, htext, Traced.succeeds_pure _⟩
  | cons t ts ih =>
    obtain ⟨⟨hstart, hstop⟩, hboundary⟩ := List.forall_mem_cons.1 hplaced.boundary
    obtain ⟨hfirst, hdisjoint⟩ := List.pairwise_cons.1 hplaced.disjoint
    have hle : t.pos ≤ t.stop := Nat.le_add_right _ _
    have hrest : (splitBytes t.len (splitBytes (t.pos - pos) (splitBytes pos body).2).2).2 =
        (splitBytes t.stop body).2 := by
      have hlen : t.len = t.stop - t.pos := by
        rw [Token.stop]
        omega
      rw [splitBytes_sub hpos (hbehind t (List.mem_cons_self ..)), hlen, splitBytes_sub hstart hle]
    have hlater : (convertTokens dotAll (capturesOf (groupsAfter groups t.item)) t.stop
        (splitBytes t.stop body).2 ts).Succeeds ↔ _ := ih hstop ⟨hboundary, hdisjoint⟩ hfirst
    simp only [convertTokens, spans, Traced.succeeds_bind_iff, opened_eq_groupsAfter, hrest,
      List.forall_mem_cons]
    rw [and_and_and_comm, ← hlater]
    constructor
    · rintro ⟨text, htext, token, htoken, later, hlater, _⟩
      exact ⟨⟨⟨text, htext⟩, token, htoken⟩, later, hlater⟩
    · rintro ⟨⟨⟨text, htext⟩, token, htoken⟩, later, hlater⟩
      exact ⟨text, htext, token, htoken, later, hlater, Traced.succeeds_pure _⟩

end Conversion

/-! ### Convertible patterns -/

/-- Does a token stand for something that the target dialect has, or that can be written out in
    it? -/
def TokenItem.IsConvertible : TokenItem → Prop
  | .characterClass content _ => KnownCategories content.toList
  | .optionGroup _ => False
  | .groupStart (.nonCapturing options) _ => options = ""
  | .groupStart (.assertion direction _) _ => direction = .ahead
  | .groupStart _ _ => True
  | .groupEnd _ _ _ => True

namespace Pattern

/-- The literal text of a pattern: before, between and behind its tokens. -/
def spans (p : Pattern) : List Conversion.Span := Conversion.spans p.body.toList [] 0 p.tokens

/-- Can everything in a pattern be converted, apart from its references? -/
structure IsConvertible (p : Pattern) : Prop where
  modifiers : ∀ m ∈ p.modifiers.toList, m ∈ ['i', 'm', 'D', 'S', 's', 'u', 'x']
  tokens : ∀ t ∈ p.tokens, t.item.IsConvertible
  spans : ∀ s ∈ p.spans, KnownCategories s.text

end Pattern

/-- Does a failure name a construct that the target dialect lacks? -/
def PatternError.IsUnsupported (e : PatternError) : Prop :=
  (∃ feature, e = .unsupportedFeature feature) ∨ ∃ pos options, e = .unsupportedOptions pos options

theorem PatternError.IsUnsupported.isDialectGap {e : PatternError} (h : e.IsUnsupported) :
    e.isDialectGap = true := by
  rcases h with ⟨feature, rfl⟩ | ⟨pos, options, rfl⟩
  · rfl
  · rfl

namespace Conversion

theorem exists_convertModifiers_iff (flags mods : List Char) :
    (∃ out, convertModifiers flags mods = .ok out) ↔
      ∀ m ∈ mods, m ∈ ['i', 'm', 'D', 'S', 's', 'u', 'x'] := by
  induction mods generalizing flags with
  | nil => simp [convertModifiers]
  | cons m ms ih =>
    have hknown : m ∈ ['i', 'm', 'D', 'S', 's', 'u', 'x'] ↔
        m ∈ keptModifiers ∨ m ∈ absorbedModifiers := by
      rw [← List.mem_append]
      rfl
    rw [List.forall_mem_cons, hknown, convertModifiers]
    split
    · rename_i hkept
      rw [ih]
      exact ⟨fun h => ⟨.inl hkept, h⟩, And.right⟩
    · rename_i hkept
      split
      · rename_i habsorbed
        rw [ih]
        exact ⟨fun h => ⟨.inr habsorbed, h⟩, And.right⟩
      · rename_i habsorbed
        simp [hkept, habsorbed]

theorem succeeds_convertToken_iff (t : Token) :
    (convertToken t).Succeeds ↔ t.item.IsConvertible := by
  obtain ⟨pos, len, item⟩ := t
  have hfail : ∀ e, ¬ (Traced.fail e : Traced (List Char)).Succeeds := by
    rintro e ⟨_, hok⟩
    cases hok
  rcases item with ⟨content, quantifiers⟩ | options | ⟨opener, endToken⟩ | _
  · have hexpand : (CategoryEscape.expand true false content.toList).Succeeds ↔
        KnownCategories content.toList := succeeds_expand_iff
    rw [TokenItem.IsConvertible, ← hexpand]
    simp only [convertToken, Traced.succeeds_bind_iff]
    constructor
    · rintro ⟨inner, hinner, _⟩
      exact ⟨inner, hinner⟩
    · rintro ⟨inner, hinner⟩
      exact ⟨inner, hinner, Traced.succeeds_pure _⟩
  · exact iff_of_false (hfail _) id
  · rcases opener with name | options | _ | ⟨_ | _, _ | _⟩
    · exact iff_of_true (Traced.succeeds_pure _) trivial
    · simp only [convertToken, convertOpener, TokenItem.IsConvertible, String.isEmpty_iff]
      by_cases hoptions : options = ""
      · simp only [hoptions, if_true, iff_true]
        exact Traced.succeeds_pure _
      · simp only [hoptions, if_false, iff_false]
        exact hfail _
    · exact iff_of_true (Traced.succeeds_pure _) trivial
    · exact iff_of_true (Traced.succeeds_pure _) rfl
    · exact iff_of_true (Traced.succeeds_pure _) rfl
    · exact iff_of_false (hfail _) (by rintro ⟨⟩)
    · exact iff_of_false (hfail _) (by rintro ⟨⟩)
  · exact iff_of_true (Traced.succeeds_pure _) trivial

instance (item : TokenItem) : Decidable item.IsConvertible :=
  decidable_of_iff (convertToken ⟨0, 0, item⟩).Succeeds (succeeds_convertToken_iff ⟨0, 0, item⟩)

instance (p : Pattern) : Decidable p.IsConvertible :=
  decidable_of_iff
    ((p.modifiers.toList.all fun m => decide (m ∈ ['i', 'm', 'D', 'S', 's', 'u', 'x'])) = true ∧
      (∀ t ∈ p.tokens, t.item.IsConvertible) ∧ ∀ s ∈ p.spans, KnownCategories s.text)
    ⟨fun ⟨hmods, htokens, hspans⟩ => ⟨forall_mem_of_all hmods, htokens, hspans⟩,
      fun h => ⟨List.all_eq_true.2 fun m hm => decide_eq_true (h.modifiers m hm), h.tokens,
        h.spans⟩⟩

/-! ### Failures -/

section Failures

variable {P : PatternError → Prop} (hfeature : ∀ feature, P (.unsupportedFeature feature))
include hfeature

theorem failsOnly_expand (inClass dotAll : Bool) (cs : List Char) :
    (CategoryEscape.expand inClass dotAll cs).FailsOnly P := by
  fun_induction CategoryEscape.expand inClass dotAll cs with
  | case1 => exact .pure _
  | case2 => exact .pure _
  | case3 => exact .fail (hfeature _)
  | case4 c cs hc escape rest hread ih =>
    exact .bind (.note _) fun _ => .bind (.note _) fun _ => .bind ih fun _ => .pure _
  | case5 c cs hc ih => exact .bind ih fun _ => .pure _
  | case6 c cs hlone hpair ih => exact .bind ih fun _ => .pure _

theorem failsOnly_convertLiteral (dotAll : Bool) (captures : Captures) (cs : List Char) :
    (convertLiteral dotAll captures cs).FailsOnly P := by
  fun_induction convertLiteral dotAll captures cs with
  | case1 => exact failsOnly_expand hfeature _ _ _
  | case2 => exact .fail (hfeature _)
  | case3 => exact .fail (hfeature _)
  | case4 =>
    rename_i ih
    exact .bind (.note _) fun _ => .bind (failsOnly_expand hfeature _ _ _) fun _ =>
      .bind ih fun _ => .pure _

theorem failsOnly_convertToken {t : Token}
    (hoptions : ∀ options, P (.unsupportedOptions t.pos options)) :
    (convertToken t).FailsOnly P := by
  obtain ⟨pos, len, item⟩ := t
  rcases item with ⟨content, quantifiers⟩ | options | ⟨opener, endToken⟩ | _
  · exact .bind (failsOnly_expand hfeature _ _ _) fun _ => .pure _
  · exact .fail (hfeature _)
  · rcases opener with name | options | _ | ⟨_ | _, _ | _⟩
    · exact .pure _
    · by_cases hempty : options.isEmpty = true
      · simp only [convertToken, convertOpener, hempty, if_true]
        exact .pure _
      · simp only [convertToken, convertOpener, hempty]
        exact .fail (hoptions _)
    · exact .pure _
    · exact .pure _
    · exact .pure _
    · exact .fail (hfeature _)
    · exact .fail (hfeature _)
  · exact .pure _

theorem failsOnly_convertTokens (dotAll : Bool) (captures : Captures) (pos : Nat)
    (rest : List Char) {ts : List Token} (hts : ∀ t ∈ ts, (convertToken t).FailsOnly P) :
    (convertTokens dotAll captures pos rest ts).FailsOnly P := by
  induction ts generalizing captures pos rest with
  | nil => exact .bind (failsOnly_convertLiteral hfeature _ _ _) fun _ => .pure _
  | cons t ts ih =>
    obtain ⟨ht, hts⟩ := List.forall_mem_cons.1 hts
    exact .bind (failsOnly_convertLiteral hfeature _ _ _) fun _ => .bind ht
      fun _ => .bind (ih _ _ _ hts) fun _ => .pure _

/-- Conversion fails in the way in which the tokens do, or for want of a feature. -/
theorem failsOnly_convert {p : Pattern} (htokens : ∀ t ∈ p.tokens, (convertToken t).FailsOnly P) :
    p.convert.FailsOnly P := by
  unfold Pattern.convert
  split
  · exact .fail (hfeature _)
  · exact .bind (failsOnly_convertTokens hfeature _ _ _ _ htokens) fun _ =>
      .bind (.note _) fun _ => .pure _

end Failures

end Conversion

/-! ### Whole patterns -/

namespace Pattern

open Conversion TokenStream

variable {p : Pattern}

theorem succeeds_convert_iff_convertTokens :
    p.convert.Succeeds ↔ (∀ m ∈ p.modifiers.toList, m ∈ ['i', 'm', 'D', 'S', 's', 'u', 'x']) ∧
      (convertTokens (p.hasModifier 's') .none 0 p.body.toList p.tokens).Succeeds := by
  rw [← exists_convertModifiers_iff []]
  unfold convert
  cases hflags : convertModifiers [] p.modifiers.toList with
  | error feature =>
    refine iff_of_false ?_ (by simp)
    rintro ⟨_, hok⟩
    cases hok
  | ok flags =>
    simp only [Traced.succeeds_bind_iff]
    constructor
    · rintro ⟨converted, hconverted, _⟩
      exact ⟨⟨flags, rfl⟩, converted, hconverted⟩
    · rintro ⟨_, converted, hconverted⟩
      exact ⟨converted, hconverted, (), rfl, Traced.succeeds_pure _⟩

/-- A pattern is converted exactly if its modifiers, its tokens and the pieces of its literal
    text are. -/
theorem succeeds_convert_iff_spans (hplaced : Placed p.body.toList p.tokens) :
    p.convert.Succeeds ↔
      (∀ m ∈ p.modifiers.toList, m ∈ ['i', 'm', 'D', 'S', 's', 'u', 'x']) ∧
      (∀ s ∈ p.spans,
        (convertLiteral (p.hasModifier 's') (capturesOf s.groups) s.text).Succeeds) ∧
      ∀ t ∈ p.tokens, t.item.IsConvertible := by
  have hwhole : (splitBytes 0 p.body.toList).2 = p.body.toList :=
    congrArg Prod.snd (splitBytes_byteLength [] p.body.toList)
  have htokens : (convertTokens (p.hasModifier 's') (capturesOf []) 0
      (splitBytes 0 p.body.toList).2 p.tokens).Succeeds ↔ _ :=
    succeeds_convertTokens_iff ⟨[], _, rfl, rfl⟩ hplaced fun t _ => Nat.zero_le t.pos
  simp only [hwhole, succeeds_convertToken_iff] at htokens
  rw [succeeds_convert_iff_convertTokens]
  exact and_congr_right fun _ => htokens

/-- **Which patterns are converted.**  The tokens may be any that lie in the body in order, be
    they those of the body or not.  When the literal text holds no reference, the pattern is
    converted exactly if its modifiers are known, no token asks for what the target lacks, and
    all category escapes are known; and whatever fails, fails for want of a counterpart. -/
theorem succeeds_convert_iff (hplaced : Placed p.body.toList p.tokens)
    (hplain : ∀ s ∈ p.spans, NoReferences s.text) :
    (p.convert.Succeeds ↔ p.IsConvertible) ∧
      ∀ e, p.convert.outcome = .error e → e.IsUnsupported ∧ e.isDialectGap = true := by
  constructor
  · have hspans : (∀ s ∈ p.spans,
        (convertLiteral (p.hasModifier 's') (capturesOf s.groups) s.text).Succeeds) ↔
          ∀ s ∈ p.spans, KnownCategories s.text := by
      apply forall₂_congr
      intro s hs
      rw [convertLiteral_of_none (noReferences_iff.1 (hplain s hs)), succeeds_expand_iff]
    rw [succeeds_convert_iff_spans hplaced, hspans]
    exact ⟨fun ⟨hmods, hspans, htokens⟩ => ⟨hmods, htokens, hspans⟩,
      fun h => ⟨h.modifiers, h.spans, h.tokens⟩⟩
  · intro e he
    have hunsupported : e.IsUnsupported :=
      failsOnly_convert (fun _ => .inl ⟨_, rfl⟩)
        (fun t _ => failsOnly_convertToken (fun _ => .inl ⟨_, rfl⟩) fun _ => .inr ⟨_, _, rfl⟩) e he
    exact ⟨hunsupported, hunsupported.isDialectGap⟩

/-- Tokens that are not those of the body: the end of a group where a letter stands, the start of
    one where there is nothing, and a bracket expression in the place of a letter. -/
def strayTokens : Pattern :=
  ⟨'#', "is", "é\\p{^Zl}.b", [⟨0, 2, .groupEnd .capturing 7 "*+"⟩,
    ⟨9, 0, .groupStart .atomic 9⟩, ⟨10, 1, .characterClass "/\\p{Zp}" "+"⟩]⟩

theorem succeeds_convert_strayTokens :
    Placed strayTokens.body.toList strayTokens.tokens ∧
      (∀ s ∈ strayTokens.spans, NoReferences s.text) ∧
      strayTokens.convert.outcome =
        .ok ⟨"/)*[^\\u2028](?:[\\s\\S][\\/\\u2029]+/i", ⟨[]⟩⟩ ∧
      strayTokens.IsConvertible := by
  have hplaced : Placed strayTokens.body.toList strayTokens.tokens :=
    ⟨by decide +kernel, by decide +kernel⟩
  have hplain : ∀ s ∈ strayTokens.spans, NoReferences s.text := by decide +kernel
  have hrun : strayTokens.convert.outcome =
      .ok ⟨"/)*[^\\u2028](?:[\\s\\S][\\/\\u2029]+/i", ⟨[]⟩⟩ := by decide +kernel
  exact ⟨hplaced, hplain, hrun, (succeeds_convert_iff hplaced hplain).1.1 ⟨_, hrun⟩⟩

end Pattern

end RegexText
