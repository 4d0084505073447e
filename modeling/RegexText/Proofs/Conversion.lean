/-
  RegexText/Proofs/Conversion.lean
  ================================
  **Conversion is translation along the tree.**

  The converter knows nothing of trees.  It cuts a body at brackets and
  parentheses, looks for references in what lies between, expands what lies
  between those, and escapes slashes in what comes out.  For the text of a legal
  tree all this comes to the translation of the tree.

  The proof goes along the tree, with the lexemes behind it at hand.  What comes
  behind a tree matters in one point, whether it begins with a digit; behind the
  body of a group comes its end, and behind the whole expression nothing.
-/
import RegexText.Proofs.Conversion.Tokens
import RegexText.Proofs.Pattern

namespace RegexText

open Text TokenStream

namespace Source

open Conversion

variable {dotAll : Bool} {groups : Groups} {kinds : List GroupKind} {ls : List Lexeme}

/-! ### Quantifiers -/

theorem Rewrites.repetition {digitBehind : Bool} {cs : List Char}
    (h : ∀ c ∈ cs, c = '*' ∨ c = '+' ∨ c = '?') :
    Rewrites dotAll groups digitBehind cs cs := by
  have hplain : ∀ c ∈ cs, c ≠ '\\' ∧ c ≠ '.' := by
    intro c hc
    rcases h c hc with rfl | rfl | rfl <;> decide
  exact .of_passes (.chars fun c hc => (hplain c hc).1) (.chars hplain)

theorem mem_quantifier {q : Option Quantifier} {c : Char} (h : c ∈ Quantifier.text q) :
    c = '*' ∨ c = '+' ∨ c = '?' := by
  cases q with
  | none => cases h
  | some q =>
    obtain ⟨r, m⟩ := q
    cases r <;> cases m <;>
      simp [Quantifier.text, Repetition.char, Manner.text] at h <;> tauto

theorem mem_remaining {q : Option Quantifier} {c : Char} (h : c ∈ Quantifier.remaining q) :
    c = '*' ∨ c = '+' ∨ c = '?' := by
  apply mem_quantifier (q := q)
  rw [← Quantifier.absorbed_append_remaining]
  exact List.mem_append_right _ h

theorem withoutPossession_of_run {e : Element} {text : List Char} {q : Option Quantifier}
    (hspelling : e.spelling = .run text) (h : e.takes q = true) : withoutPossession q = q := by
  cases q with
  | none => rfl
  | some q =>
    obtain ⟨r, m⟩ := q
    cases m with
    | greedy => rfl
    | lazy => rfl
    | possessive => cases e <;> first | cases h | cases hspelling

/-- A token keeps the first of the quantifier characters it takes up. -/
theorem take_absorbed_append_remaining {q : Option Quantifier}
    (h : q ≠ some ⟨.optional, .possessive⟩) :
    (Quantifier.absorbed q).take 1 ++ Quantifier.remaining q =
      Quantifier.text (withoutPossession q) := by
  cases q with
  | none => rfl
  | some q =>
    obtain ⟨r, m⟩ := q
    cases r <;> cases m <;> first | rfl | exact absurd rfl h

/-! ### Digits behind a unit -/

theorem digitAhead_run {e : Element} {text : List Char} (hspelling : e.spelling = .run text)
    (q : Option Quantifier) (next : Expression) (rest : List Char) :
    digitAhead (text ++ rest) = startsWithDigit (.unit e q next) := by
  cases e with
  | literal c => cases hspelling; rfl
  | escaped c => cases hspelling; rfl
  | shorthand s negated => cases hspelling; rfl
  | start => cases hspelling; rfl
  | stop => cases hspelling; rfl
  | dot => cases hspelling; rfl
  | category spelling => cases hspelling; cases spelling <;> rfl
  | bracket negated items => cases hspelling
  | reference r =>
    cases hspelling
    rw [Reference.text_eq]
    rfl

theorem isLiteral_of_mem_run {text : List Char} {q : Option Quantifier} {l : Lexeme}
    (h : l ∈ Lexeme.ofRun text ++ (Quantifier.text q).map Lexeme.plain) : l.isLiteral = true := by
  rcases List.mem_append.1 h with hmem | hmem
  · exact isLiteral_of_mem_ofRun hmem
  · exact isLiteral_of_mem_plain hmem

theorem flatMap_text_run (text : List Char) (q : Option Quantifier) :
    (Lexeme.ofRun text ++ (Quantifier.text q).map Lexeme.plain).flatMap Lexeme.text =
      text ++ Quantifier.text q := by
  rw [List.flatMap_append, Lexeme.flatMap_text_ofRun, Lexeme.flatMap_text_plain]

/-- Whether a digit comes first can be seen from the tree. -/
theorem digitAhead_span {r : Expression} (hls : digitAhead (span kinds ls) = false) :
    digitAhead (span kinds (r.lexemes ++ ls)) = startsWithDigit r := by
  cases r with
  | done => exact hls
  | unit e q next =>
    cases hspelling : e.spelling with
    | run text =>
      have hlexemes : (Regex.unit e q next).lexemes ++ ls =
          (Lexeme.ofRun text ++ (Quantifier.text q).map Lexeme.plain) ++ (next.lexemes ++ ls) := by
        simp only [Regex.lexemes, Written.spelling, hspelling, Spelling.lexemes,
          List.append_assoc]
      rw [hlexemes, span_literal fun l hl => isLiteral_of_mem_run hl, flatMap_text_run,
        List.append_assoc]
      exact digitAhead_run hspelling q next _
    | bracket content =>
      cases e <;> cases hspelling
      rfl
  | group g body q next => rfl
  | bar next => rfl

/-! ### Along the tree -/

variable {y : List Char} {final : Captures}

namespace Carries

theorem remaining (q : Option Quantifier) (h : Carries dotAll groups kinds ls y final) :
    Carries dotAll groups kinds ((Quantifier.remaining q).map Lexeme.plain ++ ls)
      (Quantifier.remaining q ++ y) final := by
  refine literal (fun l hl => isLiteral_of_mem_plain hl) ?_ h
  rw [Lexeme.flatMap_text_plain]
  exact Rewrites.repetition fun c hc => mem_remaining hc

theorem bar (h : Carries dotAll groups kinds ls y final) :
    Carries dotAll groups kinds (.plain '|' :: ls) ('|' :: y) final := by
  have hbar : Rewrites dotAll groups (digitAhead (span kinds ls)) ['|'] ['|'] :=
    .of_passes (.single (by decide)) (.char (by decide) (by decide))
  have hlits : ∀ l ∈ [Lexeme.plain '|'], l.isLiteral = true := by simp [Lexeme.isLiteral]
  exact literal hlits hbar h

theorem bracket {negated : Bool} {items : List Item} {q : Option Quantifier}
    (hitems : items.all Item.isLegal = true) (hq : q ≠ some ⟨.optional, .possessive⟩)
    (h : Carries dotAll groups kinds ls y final) :
    Carries dotAll groups kinds
      (.bracket (Element.content negated items) (Quantifier.absorbed q) ::
        ((Quantifier.remaining q).map Lexeme.plain ++ ls))
      (Element.bracketed negated (items.flatMap (Item.translation false)) ++
        Quantifier.text (withoutPossession q) ++ y) final := by
  have htext : Element.bracketed negated (items.flatMap (Item.translation false)) ++
      Quantifier.text (withoutPossession q) ++ y =
      Element.bracketed negated (items.flatMap (Item.translation false)) ++
        (Quantifier.absorbed q).take 1 ++ (Quantifier.remaining q ++ y) := by
    simp [← take_absorbed_append_remaining hq]
  rw [htext]
  refine token rfl ?_ rfl (h.remaining q)
  intro pos
  have hinner : (CategoryEscape.expand true false (Element.content negated items)).outcome = _ :=
    (Expands.content hitems negated).outcome
  rw [← String.toList_ofList (l := Element.content negated items)] at hinner
  refine Traced.outcome_bind_eq_ok_iff.2 ⟨_, hinner, ?_⟩
  simp [Element.bracketed]

theorem unit {e : Element} {q : Option Quantifier} {next : Expression}
    (hlegal : e.isLegal groups = true ∧ e.takes q = true)
    (hopen : ¬ (e.isOpen = true ∧ digitFollows q next = true))
    (hdigit : digitAhead (span kinds ls) = startsWithDigit next)
    (h : Carries dotAll groups kinds ls y final) :
    Carries dotAll groups kinds (e.spelling.lexemes q ++ ls)
      (e.translation dotAll false groups (digitFollows q next) ++
        Quantifier.text (withoutPossession q) ++ y) final := by
  cases hspelling : e.spelling with
  | run text =>
    apply literal fun l hl => isLiteral_of_mem_run hl
    · rw [flatMap_text_run, withoutPossession_of_run hspelling hlegal.2, hdigit]
      apply Rewrites.append (Rewrites.repetition fun c hc => mem_quantifier hc)
      intro rest hrest
      -- a quantifier keeps the unit from whatever comes next
      have hbehind : digitAhead (Quantifier.text q ++ rest) = digitFollows q next := by
        cases q with
        | none => exact hrest
        | some q =>
          obtain ⟨r, m⟩ := q
          cases r <;> rfl
      rw [hbehind]
      apply Rewrites.element hlegal.1 hspelling
      intro hisOpen
      cases hfollows : digitFollows q next with
      | false => rfl
      | true => exact absurd ⟨hisOpen, hfollows⟩ hopen
    · exact h
  | bracket content =>
    cases e <;> cases hspelling
    refine bracket hlegal.1 ?_ h
    rintro rfl
    cases hlegal.2

theorem opener (g : Mark)
    (h : Carries dotAll (g.opens groups) (g.opener.kind :: kinds) ls y final) :
    Carries dotAll groups kinds (.opener g.opener g.opening :: ls) (g.translation ++ y) final := by
  refine token rfl ?_ (capturesOf_opens groups g 0) h
  intro pos
  cases g with
  | ahead negated => cases negated <;> rfl
  | capturing => rfl
  | named form name => rfl
  | nonCapturing => rfl
  | atomic => rfl

/-- The end of a group, which keeps its quantifier, less the possessive mark. -/
theorem closer {g : Mark} {q : Option Quantifier} (hq : g.takes q = true)
    (h : Carries dotAll groups kinds ls y final) :
    Carries dotAll groups (g.opener.kind :: kinds)
      (.closer (Quantifier.absorbed q) :: ((Quantifier.remaining q).map Lexeme.plain ++ ls))
      (')' :: Quantifier.text (withoutPossession q) ++ y) final := by
  have hpossessive : q ≠ some ⟨.optional, .possessive⟩ := by
    rintro rfl
    cases g <;> cases hq
  have htext : ')' :: Quantifier.text (withoutPossession q) ++ y =
      ')' :: (Quantifier.absorbed q).take 1 ++ (Quantifier.remaining q ++ y) := by
    simp [← take_absorbed_append_remaining hpossessive]
  rw [htext]
  refine token rfl ?_ rfl (h.remaining q)
  intro pos
  have hassertion : g.opener.kind.isAssertion = true → q = none := by
    intro hkind
    cases q with
    | none => rfl
    | some q => cases g <;> first | cases hq | cases hkind
  simp only [convertToken]
  cases hkind : g.opener.kind.isAssertion with
  | true =>
    rw [hassertion hkind]
    rfl
  | false => simp

/-- The text of a legal tree becomes its translation, whatever comes behind. -/
theorem tree {r : Expression} (hr : Legal groups r) (hls : digitAhead (span kinds ls) = false)
    (h : Carries dotAll (opened groups r) kinds ls y final) :
    Carries dotAll groups kinds (r.lexemes ++ ls) (translation dotAll false groups r ++ y)
      final := by
  induction r generalizing groups kinds ls y with
  | done => exact h
  | unit e q next ih =>
    obtain ⟨hlegal, hopen, hnext⟩ := hr
    have hrest := ih hnext hls h
    rw [Regex.lexemes, translation, List.append_assoc, List.append_assoc]
    exact unit hlegal hopen (digitAhead_span hls) hrest
  | group g body q next ihb ihn =>
    obtain ⟨hlegal, hbody, hnext⟩ := hr
    -- behind the body comes the end of the group, which is a token and so no digit
    have hend := closer hlegal.2 (ihn hnext hls h)
    have hinner := ihb hbody rfl hend
    have hstart := opener g hinner
    simpa [Regex.lexemes, translation, Marks.opener, Marks.opening] using hstart
  | bar next ih => exact (ih hr hls h).bar

end Carries

/-! ### Modifiers and delimiters -/

/-- The modifiers that a source expression may be given. -/
def modifiers : List Char := ['D', 'S', 's', 'u', 'i', 'm']

/-- Modifiers as the target has them: those that it knows, each one once. -/
def flags (mods : List Char) : List Char :=
  (mods.filter fun m => m ∈ keptModifiers).eraseDups

theorem convertModifiers_eq {mods : List Char} (h : ∀ m ∈ mods, m ∈ modifiers)
    (found : List Char) :
    convertModifiers found mods =
      .ok (found ++ (mods.filter fun m => m ∈ keptModifiers ∧ m ∉ found).eraseDups) := by
  induction mods generalizing found with
  | nil => simp [convertModifiers]
  | cons m mods ih =>
    have hm := h m (List.mem_cons_self ..)
    have hmods : ∀ k ∈ mods, k ∈ modifiers := fun k hk => h k (List.mem_cons_of_mem _ hk)
    rw [convertModifiers]
    by_cases hkept : m ∈ keptModifiers
    · rw [if_pos hkept, ih hmods]
      by_cases hfound : m ∈ found
      · rw [if_pos hfound, List.filter_cons_of_neg (by simp [hfound])]
      · rw [if_neg hfound, List.filter_cons_of_pos (by simp [hkept, hfound]),
          List.eraseDups_cons, List.filter_filter, List.append_assoc, List.singleton_append]
        congr 4
        apply List.filter_congr
        intro k _
        by_cases hk : k = m
        · simp [hk]
        · simp [hk]
    · have habsorbed : m ∈ absorbedModifiers := by
        revert hkept
        exact forall_mem_of_all (p := fun m => m ∉ keptModifiers → m ∈ absorbedModifiers)
          (by decide) m hm
      rw [if_neg hkept, if_pos habsorbed, ih hmods,
        List.filter_cons_of_neg (by simp [hkept])]

theorem tokenize_text {limit : Nat} {r : Expression} (hr : Legal [] r)
    (hdepth : r.depth ≤ limit) :
    ∃ tokens, (tokenize limit r.text).outcome = .ok tokens ∧
      tokens.map unlinked = layout 0 [] r.lexemes := by
  obtain ⟨s, hreads, _, htokens⟩ := Regex.exists_tokenize hr.sound hdepth
  exact ⟨s.tokens.toList, htokens, hreads.layout.2⟩

theorem isAlpha_of_mem_modifiers {m : Char} (hm : m ∈ modifiers) : m.isAlpha = true :=
  forall_mem_of_all (p := fun m => m.isAlpha = true) (by decide) m hm

theorem splitDelimiters_render {d : Char} {mods : List Char} {r : Expression}
    (hd : Pattern.isDelimiter d = true) (hmods : ∀ m ∈ mods, m ∈ modifiers)
    (hr : Legal [] r) (hfree : d ∉ r.text) :
    Pattern.splitDelimiters (d :: r.text ++ d :: mods) = .ok (d, r.text, mods) :=
  Pattern.splitDelimiters_append hd (hr.complete.of_not_mem hfree)
    fun m hm => isAlpha_of_mem_modifiers (hmods m hm)

theorem convertTokens_text {r : Expression} (hr : Legal [] r) (dotAll : Bool)
    {tokens : List Token} (htokens : tokens.map unlinked = layout 0 [] r.lexemes) :
    (convertTokens dotAll .none 0 r.text tokens).outcome =
      .ok (translation dotAll false [] r, capturesOf (opened [] r)) := by
  have hnil : Carries dotAll (opened [] r) [] [] [] (capturesOf (opened [] r)) := Carries.nil
  have hcarries := Carries.tree hr rfl hnil 0
  rw [List.append_nil, List.append_nil, Regex.flatMap_text_lexemes hr.sound, ← htokens,
    convertTokens_unlinked] at hcarries
  exact hcarries

/-- **Converting a rendered expression gives its translation**, the flags that the target
    knows, and the numbers of the named groups. -/
theorem convertPattern_render {limit : Nat} {d : Char} {mods : List Char} {r : Expression}
    (hd : Pattern.isDelimiter d = true) (hmods : ∀ m ∈ mods, m ∈ modifiers)
    (hr : Legal [] r) (hdepth : r.depth ≤ limit) (hfree : d ∉ r.text) :
    (convertPattern limit (String.ofList (d :: r.text ++ d :: mods))).outcome =
      .ok ⟨String.ofList ('/' :: translation (mods.contains 's') true [] r ++ '/' :: flags mods),
        namedGroups (opened [] r)⟩ := by
  obtain ⟨tokens, htokenize, htokens⟩ := tokenize_text hr hdepth
  have hplain : mods.contains 'x' = false := by
    rw [← Bool.not_eq_true, List.contains_iff_mem]
    intro hx
    exact absurd (hmods 'x' hx) (by decide)
  have hparse : (Pattern.parse limit (String.ofList (d :: r.text ++ d :: mods))).outcome =
      .ok ⟨d, String.ofList mods, String.ofList r.text, tokens⟩ := by
    rw [Pattern.parse, String.toList_ofList, splitDelimiters_render hd hmods hr hfree]
    simp only [hplain, Bool.false_eq_true, if_false]
    exact Traced.outcome_bind_eq_ok_iff.2 ⟨tokens, htokenize, rfl⟩
  have hflags : convertModifiers [] mods = .ok (flags mods) := by
    rw [convertModifiers_eq hmods []]
    simp [flags]
  have hbody : (if d = '/' then translation (mods.contains 's') false [] r
      else protect '/' (translation (mods.contains 's') false [] r)) =
      translation (mods.contains 's') true [] r := by
    by_cases hslash : d = '/'
    · -- a slash as delimiter does not occur in the expression
      rw [if_pos hslash]
      exact translation_of_not_mem (hslash ▸ hfree) _ _ _ _
    · rw [if_neg hslash]
      exact (protects_translation hr _).2
  refine Traced.outcome_bind_eq_ok_iff.2 ⟨_, hparse, ?_⟩
  simp only [Pattern.convert, Pattern.hasModifier, String.toList_ofList, hflags]
  refine Traced.outcome_bind_eq_ok_iff.2
    ⟨_, convertTokens_text hr (mods.contains 's') htokens, ?_⟩
  simp only [hbody, names_capturesOf]
  rfl

/-- The expression `(?P<a>x.)*+\P{Zl}(?![^/a-f\p{Zp}])\k<a>1`. -/
def namedGroup : Expression :=
  .group (.named .letter ['a']) (.unit (.literal 'x') none (.unit .dot none .done))
    (some ⟨.star, .possessive⟩)
    (.unit (.category (.braced true false ['Z', 'l'])) none
      (.group (.ahead true)
        (.unit (.bracket true
          [.literal '/', .range 'a' 'f', .category (.braced false false ['Z', 'p'])]) none .done)
        none
        (.unit (.reference (.named .angle ['a'])) none (.unit (.literal '1') none .done))))

/-- The group loses its name and the possessive mark, the dot matches any unit, categories become
    ranges, the slash is escaped, and the reference is kept from the digit. -/
theorem convertPattern_render_namedGroup :
    (convertPattern 256 "#(?P<a>x.)*+\\P{Zl}(?![^/a-f\\p{Zp}])\\k<a>1#is").outcome =
      .ok ⟨"/(x[\\s\\S])*[^\\u2028](?![^\\/a-f\\u2029])(?:\\1)1/i", ⟨[("a", 1)]⟩⟩ := by
  have hmods : ∀ m ∈ ['i', 's'], m ∈ modifiers := forall_mem_of_all (by decide)
  have hinput : String.ofList ('#' :: namedGroup.text ++ '#' :: ['i', 's']) =
      "#(?P<a>x.)*+\\P{Zl}(?![^/a-f\\p{Zp}])\\k<a>1#is" := by decide +kernel
  have houtput : String.ofList ('/' :: translation (['i', 's'].contains 's') true [] namedGroup ++
      '/' :: flags ['i', 's']) = "/(x[\\s\\S])*[^\\u2028](?![^\\/a-f\\u2029])(?:\\1)1/i" := by
    decide +kernel
  have hnames : namedGroups (opened [] namedGroup) = ⟨[("a", 1)]⟩ := by decide +kernel
  have hconvert := convertPattern_render (d := '#') (by decide +kernel) hmods
    (by decide +kernel : Legal [] namedGroup) (by decide : namedGroup.depth ≤ 256) (by decide)
  rw [hinput, houtput, hnames] at hconvert
  exact hconvert

end Source

end RegexText
