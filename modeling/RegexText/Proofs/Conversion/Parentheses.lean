/-
  RegexText/Proofs/Conversion/Parentheses.lean
  ============================================
  **Which parentheses a conversion writes.**

  Each group of a body is converted to a group of the same kind.  The only
  parentheses beyond these are pairs with nothing but a numbered reference
  between them, which keep a digit behind the reference apart from its number.
  `Padded` compares the parentheses of a body with those of its conversion, and
  the machine that finds landmarks does not tell the two apart, given room for
  one more open group.
-/
import RegexText.Proofs.Conversion.Rendered

namespace RegexText

open Text

/-! ### The target's groups -/

/-- Can the target dialect spell the start of a group? -/
def Opener.isTarget : Opener → Bool
  | .capturing name => name.isNone
  | .nonCapturing options => options.isEmpty
  | .atomic => false
  | .assertion direction _ => direction == .ahead

namespace TokenStream

/-- Are the second parentheses those of the first list, in the target's spelling and with pairs
    of plain parentheses between them? -/
inductive Padded : List Parenthesis → List Parenthesis → Prop where
  | nil : Padded [] []
  | opens {opener opener' : Opener} {xs ys : List Parenthesis} (hkind : opener'.kind = opener.kind)
      (htarget : opener'.isTarget = true) (h : Padded xs ys) :
      Padded (.opens opener :: xs) (.opens opener' :: ys)
  | closes {xs ys : List Parenthesis} (h : Padded xs ys) : Padded (.closes :: xs) (.closes :: ys)
  | wrapped {xs ys : List Parenthesis} (h : Padded xs ys) :
      Padded xs (.opens (.nonCapturing "") :: .closes :: ys)

namespace Padded

variable {xs ys : List Parenthesis}

theorem other_not_mem (h : Padded xs ys) : .other ∉ xs := by
  induction h with
  | nil => simp
  | opens _ _ _ ih => simpa using ih
  | closes _ ih => simpa using ih
  | wrapped _ ih => exact ih

theorem eq_of_mem (h : Padded xs ys) {p : Parenthesis} (hp : p ∈ ys) :
    p = .closes ∨ ∃ opener, p = .opens opener ∧ opener.isTarget = true := by
  induction h with
  | nil => cases hp
  | @opens _ opener' _ _ _ htarget _ ih =>
    rcases List.mem_cons.1 hp with rfl | hmem
    · exact Or.inr ⟨opener', rfl, htarget⟩
    · exact ih hmem
  | closes _ ih =>
    rcases List.mem_cons.1 hp with rfl | hmem
    · exact Or.inl rfl
    · exact ih hmem
  | wrapped _ ih =>
    rcases List.mem_cons.1 hp with rfl | hmem
    · exact Or.inr ⟨.nonCapturing "", rfl, rfl⟩
    · rcases List.mem_cons.1 hmem with rfl | hlater
      · exact Or.inl rfl
      · exact ih hlater

/-- A plain group with nothing inside leaves no trace in the outline. -/
theorem closed_opened (o : Outline) :
    (o.opened .nonCapturing).closed .nonCapturing o.marks.length o.stack = o := by
  simp [Outline.opened, Outline.closed, GroupKind.isLandmark]

/-- **Padding is not seen by the machine**, if one more group may be open. -/
theorem run (h : Padded xs ys) {limit : Nat} {o o' : Outline} (hroom : o.stack.length ≤ limit)
    (hrun : o.run limit xs = some o') : o.run (limit + 1) ys = some o' := by
  induction h generalizing o with
  | nil => exact hrun
  | @opens _ opener' _ _ hkind _ _ ih =>
    rw [Outline.run_cons] at hrun ⊢
    obtain ⟨mid, hstep, hrest⟩ := Option.bind_eq_some_iff.1 hrun
    obtain ⟨hopen, rfl⟩ := Outline.step_opens_eq_some.1 hstep
    have hstep' : o.step (limit + 1) (.opens opener') = some (o.opened opener'.kind) :=
      Outline.step_opens_eq_some.2 ⟨Nat.lt_succ_of_lt hopen, rfl⟩
    rw [hstep', hkind]
    exact ih hopen hrest
  | closes _ ih =>
    rw [Outline.run_cons] at hrun ⊢
    obtain ⟨mid, hstep, hrest⟩ := Option.bind_eq_some_iff.1 hrun
    obtain ⟨kind, place, enclosing, hstack, rfl⟩ := Outline.step_closes_eq_some.1 hstep
    have hstep' : o.step (limit + 1) .closes = some (o.closed kind place enclosing) :=
      Outline.step_closes_eq_some.2 ⟨kind, place, enclosing, hstack, rfl⟩
    rw [hstep']
    rw [hstack, List.length_cons] at hroom
    exact ih (Nat.le_of_succ_le hroom) hrest
  | wrapped _ ih =>
    have hopened : o.step (limit + 1) (.opens (.nonCapturing "")) =
        some (o.opened .nonCapturing) := if_pos (by omega)
    have hclosed : (o.opened .nonCapturing).step (limit + 1) .closes = some o :=
      congrArg some (closed_opened o)
    rw [Outline.run_cons, hopened, Option.bind_some, Outline.run_cons, hclosed]
    exact ih hroom hrun

end Padded

end TokenStream

namespace Conversion

open Lexeme TokenStream Source

variable {bad : Char → Prop} {dotAll : Bool} {captures : Captures}

/-! ### Literal text -/

/-- The digits of a reference are literal text. -/
theorem rendered_reference (hbad : ∀ c, bad c → c = '/') (number : Nat) {ps : List Parenthesis}
    {z : List Char} (hz : Rendered bad ps z) :
    Rendered bad ps ('\\' :: Nat.toDigits 10 number ++ z) := by
  cases hdigits : Nat.toDigits 10 number with
  | nil => exact absurd hdigits Nat.toDigits_ne_nil
  | cons d ds =>
    refine .pair d (.chars ?_ hz)
    intro c hc
    have hdigit : c.isDigit = true := Nat.isDigit_of_mem_toDigits (by decide) (by decide)
      (hdigits ▸ List.mem_cons_of_mem _ hc)
    have hne : ∀ {e : Char}, e.isDigit = false → c ≠ e := ne_of_apply hdigit
    exact ⟨⟨hne rfl, hne rfl, hne rfl, hne rfl⟩, mt (hbad c) (hne rfl)⟩

/-- **Literal text writes no parentheses but those around references.** -/
theorem rendered_of_convertLiteral (hbad : ∀ c, bad c → c = '/') {text y : List Char}
    (htext : Plain bad text) (h : (convertLiteral dotAll captures text).outcome = .ok y)
    {xs ys : List Parenthesis} {z : List Char} (hpadded : Padded xs ys)
    (hz : Rendered bad ys z) : ∃ ys', Padded xs ys' ∧ Rendered bad ys' (y ++ z) := by
  induction hn : text.length using Nat.strong_induction_on generalizing text y with
  | _ n ih =>
    obtain ⟨before, found, hsplit⟩ : ∃ before found,
        Backreference.splitFirst text = (before, found) := ⟨_, _, rfl⟩
    obtain ⟨htexteq, hcomplete⟩ := Backreference.eq_of_splitFirst hsplit
    cases found with
    | none =>
      rw [convertLiteral_of_none hsplit] at h
      have hbefore : text = before := by simpa using htexteq
      rw [hbefore] at htext
      exact ⟨ys, hpadded, (CategoryEscape.expansion_of_outcome h).rendered hbad htext hz⟩
    | some found =>
      obtain ⟨letter, after⟩ := found
      obtain ⟨reference, spelling, rest, number, front, back, hread, _, hfront, hback, rfl⟩ :=
        (convertLiteral_of_some hsplit y).1 h
      have hshorter : rest.length < n := by
        have hafter := Backreference.length_lt_of_splitFirst hsplit
        have hrest := Backreference.length_le_of_read hread
        omega
      obtain ⟨tail, hafter, htail⟩ := Backreference.exists_spelling_of_read hread
      change text = before ++ '\\' :: letter :: after at htexteq
      rw [htexteq] at htext
      obtain ⟨hplain, hbehind⟩ := FreeOf.of_append (hcomplete rfl) htext
      have hrest : Plain bad rest :=
        (FreeOf.of_append (complete_of_forall htail) (hafter ▸ hbehind.of_pair)).2
      obtain ⟨ys', hpadded', hbackz⟩ := ih _ hshorter hrest hback rfl
      have hexpansion := CategoryEscape.expansion_of_outcome hfront
      rw [List.append_assoc, List.append_assoc, Source.Rewrites.numbered_eq]
      split
      · -- a digit follows, and the reference is put between parentheses
        have hwrapped := Rendered.nonCapturing
          (rendered_reference hbad number (Rendered.closer hbackz))
        exact ⟨_, .wrapped hpadded', by simpa using hexpansion.rendered hbad hplain hwrapped⟩
      · exact ⟨ys', hpadded', hexpansion.rendered hbad hplain
          (rendered_reference hbad number hbackz)⟩

/-- Converted literal text begins with a question mark only where the text does, and takes up
    some room if the text does. -/
theorem head_convertLiteral {text y : List Char}
    (h : (convertLiteral dotAll captures text).outcome = .ok y) :
    (y = [] → text = []) ∧ (y.head? = some '?' → text.head? = some '?') := by
  obtain ⟨before, found, hsplit⟩ : ∃ before found,
      Backreference.splitFirst text = (before, found) := ⟨_, _, rfl⟩
  obtain ⟨htext, _⟩ := Backreference.eq_of_splitFirst hsplit
  cases found with
  | none =>
    rw [convertLiteral_of_none hsplit] at h
    have hbefore : text = before := by simpa using htext
    rw [hbefore]
    exact (CategoryEscape.expansion_of_outcome h).head
  | some found =>
    obtain ⟨_, _, rest, number, front, back, _, _, hfront, _, rfl⟩ :=
      (convertLiteral_of_some hsplit y).1 h
    obtain ⟨_, hhead⟩ := (CategoryEscape.expansion_of_outcome hfront).head
    rw [Source.Rewrites.numbered_eq]
    cases front with
    | nil => split <;> simp
    | cons c front =>
      refine ⟨by simp, ?_⟩
      intro hc
      have hbefore := hhead hc
      rw [htext, List.head?_append, hbefore]
      rfl

/-! ### Tokens -/

/-- Does no group begin with a question mark? -/
def Unquestioned (ls : List Lexeme) : Prop :=
  ∀ before opener text after, ls = before ++ .opener opener text :: after →
    (after.flatMap Lexeme.text).head? ≠ some '?'

theorem Unquestioned.of_append {ls ms : List Lexeme} (h : Unquestioned (ls ++ ms)) :
    Unquestioned ms := by
  intro before opener text after heq
  exact h (ls ++ before) opener text after (by rw [heq, List.append_assoc])

theorem convertToken_groupStart {t : Token} {opener : Opener} {e : Nat} {y : List Char}
    (hitem : t.item = .groupStart opener e) (h : (convertToken t).outcome = .ok y) :
    convertOpener t.pos opener = .ok y := by
  rw [convertToken, hitem] at h
  simp only at h
  split at h
  · rename_i text htext
    cases h
    exact htext
  · cases h

theorem convertOpener_eq_ok {pos : Nat} {opener : Opener} {y : List Char}
    (h : convertOpener pos opener = .ok y) :
    (opener.kind = .capturing ∧ y = ['(']) ∨
      (opener.kind = .nonCapturing ∧ y = ['(', '?', ':']) ∨
      ∃ negated, opener.kind = .assertion .ahead negated ∧
        y = ['(', '?', if negated then '!' else '='] := by
  rcases opener with name | options | _ | ⟨_ | _, _ | _⟩
  · cases h
    exact Or.inl ⟨rfl, rfl⟩
  · by_cases hoptions : options.isEmpty = true
    · rw [convertOpener, if_pos hoptions] at h
      cases h
      exact Or.inr (Or.inl ⟨rfl, rfl⟩)
    · rw [convertOpener, if_neg hoptions] at h
      cases h
  · cases h
    exact Or.inr (Or.inl ⟨rfl, rfl⟩)
  · cases h
    exact Or.inr (Or.inr ⟨false, rfl, rfl⟩)
  · cases h
    exact Or.inr (Or.inr ⟨true, rfl, rfl⟩)
  · cases h
  · cases h

/-- What is written for the start of a group opens a group of the same kind. -/
theorem rendered_opener {pos : Nat} {opener : Opener} {y : List Char}
    (h : convertOpener pos opener = .ok y) {ps : List Parenthesis} {z : List Char}
    (hfresh : z.head? ≠ some '?') (hz : Rendered bad ps z) :
    ∃ opener', opener'.kind = opener.kind ∧ opener'.isTarget = true ∧
      Rendered bad (.opens opener' :: ps) (y ++ z) := by
  rcases convertOpener_eq_ok h with ⟨hkind, rfl⟩ | ⟨hkind, rfl⟩ | ⟨negated, hkind, rfl⟩
  · exact ⟨.capturing none, hkind.symm, rfl, .capturing hfresh hz⟩
  · exact ⟨.nonCapturing "", hkind.symm, rfl, .nonCapturing hz⟩
  · exact ⟨.assertion .ahead negated, hkind.symm, rfl, .ahead negated hz⟩

theorem rendered_repeats (hbad : ∀ c, bad c → c = '/') {quantifiers : List Char}
    (h : ∀ c ∈ quantifiers, isRepeat c = true) {ps : List Parenthesis} {z : List Char}
    (hz : Rendered bad ps z) : Rendered bad ps (quantifiers ++ z) := by
  apply Rendered.chars _ hz
  intro c hc
  have hne : ∀ {d : Char}, isRepeat d = false → c ≠ d := ne_of_apply (h c hc)
  exact ⟨⟨hne rfl, hne rfl, hne rfl, hne rfl⟩, mt (hbad c) (hne rfl)⟩

/-- **A token writes its own parenthesis.** -/
theorem rendered_of_convertToken (hbad : ∀ c, bad c → c = '/') {kinds : List GroupKind}
    {l : Lexeme} {item : TokenItem} (hitem : itemFor? kinds l = some item) (hsafe : l.Safe bad)
    {pos : Nat} {y : List Char} (h : (convertToken ⟨pos, byteLength l.text, item⟩).outcome = .ok y)
    {xs ys : List Parenthesis} {z : List Char}
    (hfresh : ∀ opener text, l = .opener opener text → z.head? ≠ some '?')
    (hpadded : Padded xs ys) (hz : Rendered bad ys z) :
    ∃ ys', Padded (l.parenthesis?.toList ++ xs) ys' ∧ Rendered bad ys' (y ++ z) := by
  cases l with
  | bracket content quantifiers =>
    cases hitem
    obtain ⟨inner, hinner, hy⟩ := Traced.outcome_bind_eq_ok_iff.1 h
    cases hy
    rw [String.toList_ofList] at hinner ⊢
    have hcontent := (CategoryEscape.expansion_of_outcome hinner).freeOf hbad hsafe.1
    have hrepeats := rendered_repeats hbad
      (fun c (hc : c ∈ quantifiers.take 1) => hsafe.2 c (List.mem_of_mem_take hc)) hz
    exact ⟨ys, hpadded, by simpa using Rendered.bracket hcontent hrepeats⟩
  | opener opener text =>
    cases hitem
    obtain ⟨opener', hkind, htarget, hrendered⟩ :=
      rendered_opener (convertToken_groupStart rfl h) (hfresh opener text rfl) hz
    exact ⟨_, .opens hkind htarget hpadded, hrendered⟩
  | closer quantifiers =>
    obtain ⟨kind, _, rfl⟩ := Option.map_eq_some_iff.1 hitem
    cases h
    rw [String.toList_ofList]
    refine ⟨_, .closes hpadded, .closer ?_⟩
    split
    · exact hz
    · exact rendered_repeats hbad (fun c hc => hsafe c (List.mem_of_mem_take hc)) hz
  | optionSetting options =>
    cases hitem
    cases h
  | plain c => cases hitem
  | escaped c => cases hitem
  | loneBackslash => cases hitem
  | unclosedBracket after => cases hitem
  | unknownGroup after => cases hitem

theorem head_convertToken {t : Token} {y : List Char} (h : (convertToken t).outcome = .ok y) :
    ∃ c ∈ y.head?, c ≠ '?' := by
  obtain ⟨pos, len, item⟩ := t
  cases item with
  | characterClass content quantifiers =>
    obtain ⟨inner, _, hy⟩ := Traced.outcome_bind_eq_ok_iff.1 h
    cases hy
    exact ⟨'[', rfl, by decide⟩
  | optionGroup options => cases h
  | groupStart opener e =>
    rcases convertOpener_eq_ok (convertToken_groupStart rfl h) with
      ⟨_, rfl⟩ | ⟨_, rfl⟩ | ⟨negated, _, rfl⟩
    all_goals exact ⟨'(', rfl, by decide⟩
  | groupEnd kind i quantifiers =>
    cases h
    exact ⟨')', rfl, by decide⟩

/-! ### Whole bodies -/

/-- A converted body begins with a question mark only where the body does. -/
theorem Converts.head {kinds : List GroupKind} {ls : List Lexeme} {y : List Char}
    {final : Captures} (h : Converts dotAll captures kinds ls y final)
    (hy : y.head? = some '?') : (ls.flatMap Lexeme.text).head? = some '?' := by
  cases h with
  | literal _ hx => exact (head_convertLiteral hx).2 hy
  | @token _ _ _ lits later l item pos x token z _ hx _ htoken _ =>
    obtain ⟨_, hhead⟩ := head_convertLiteral hx
    cases x with
    | nil =>
      -- nothing stands before the token, and no token begins with a question mark
      obtain ⟨c, hc, hne⟩ := head_convertToken htoken
      rw [List.nil_append, List.head?_append, hc] at hy
      exact absurd (Option.some.inj hy) hne
    | cons c x =>
      rw [List.flatMap_append, List.head?_append, hhead hy]
      rfl

/-- Literal lexemes make up literal text. -/
theorem plain_of_literal {lits : List Lexeme} (hlits : ∀ l ∈ lits, l.isLiteral = true)
    (hsafe : ∀ l ∈ lits, l.Safe bad) : Plain bad (lits.flatMap Lexeme.text) := by
  induction lits with
  | nil => exact .nil
  | cons l lits ih =>
    obtain ⟨hl, hlits⟩ := List.forall_mem_cons.1 hlits
    obtain ⟨hfirst, hsafe⟩ := List.forall_mem_cons.1 hsafe
    have hlater := ih hlits hsafe
    cases l with
    | plain c =>
      obtain ⟨hc, hbracket, hgroup, hcloser, hno⟩ := hfirst
      exact .single hc (by simp [hno, hbracket, hgroup, hcloser]) hlater
    | escaped c => exact .pair c hlater
    | loneBackslash => exact hfirst.elim
    | _ => cases hl

/-- **A converted body has the parentheses of the body**, up to the pairs around references. -/
theorem Converts.rendered (hbad : ∀ c, bad c → c = '/') {kinds : List GroupKind}
    {ls : List Lexeme} {y : List Char} {final : Captures}
    (h : Converts dotAll captures kinds ls y final) (hsafe : ∀ l ∈ ls, l.Safe bad)
    (hfresh : Unquestioned ls) : ∃ ys, Padded (parentheses ls) ys ∧ Rendered bad ys y := by
  induction h with
  | @literal _ _ lits x hlits hx =>
    rw [parentheses_of_literal hlits, ← List.append_nil x]
    exact rendered_of_convertLiteral hbad (plain_of_literal hlits hsafe) hx .nil .nil
  | @token _ _ _ lits ls l item pos x y z hlits hx hitem hy hz ih =>
    obtain ⟨hsafelits, hsafelater⟩ := List.forall_mem_append.1 hsafe
    obtain ⟨hsafel, hsafels⟩ := List.forall_mem_cons.1 hsafelater
    have hfreshl : Unquestioned ([l] ++ ls) := hfresh.of_append
    obtain ⟨ys, hpadded, hrendered⟩ := ih hsafels hfreshl.of_append
    have hhead : ∀ opener text, l = .opener opener text → z.head? ≠ some '?' := by
      rintro opener text rfl hquestion
      exact hfreshl [] opener text ls rfl (hz.head hquestion)
    obtain ⟨ys', hpadded', hrendered'⟩ :=
      rendered_of_convertToken hbad hitem hsafel hy hhead hpadded hrendered
    rw [parentheses_append, parentheses_of_literal hlits, List.nil_append, parentheses_cons,
      List.append_assoc]
    exact rendered_of_convertLiteral hbad (plain_of_literal hlits hsafelits) hx hpadded' hrendered'

end Conversion

end RegexText
