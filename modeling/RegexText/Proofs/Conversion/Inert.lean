/-
  RegexText/Proofs/Conversion/Inert.lean
  ======================================
  **Expressions that conversion leaves as they are.**

  Conversion changes references, category escapes, dots, possessive marks, names,
  and slashes that need a backslash.  A tree is *inert* if none of these occurs in
  it: its units come out as they went in, its groups do not capture or look ahead,
  and no quantifier is taken up by a token.  An inert tree is converted to its own
  text.

  The condition on units is that of the converter: a run of characters holds no
  reference and expands to itself, and so does the text between brackets.
-/
import RegexText.Proofs.Conversion

namespace RegexText

open Text TokenStream Conversion

/-- Is a unit that is spelled like this converted to itself? -/
def Spelling.Inert : Spelling → Prop
  | .run text => Source.Passes text ∧ ∀ dotAll, Source.Expands false dotAll text text
  | .bracket content => Source.Expands true false content content

theorem Spelling.inert_char {c : Char} (hc : c ≠ '\\') (hdot : c ≠ '.') :
    Spelling.Inert (.run [c]) :=
  ⟨.single hc, fun _ => .char hc hdot⟩

theorem Spelling.inert_escape {c : Char} (hc : Regular.isPunctuation c = true) :
    Spelling.Inert (.run ['\\', c]) := by
  refine ⟨.pair ?_, fun _ => .pair (Source.not_category_of_isPunctuation hc)⟩
  rintro (rfl | rfl)
  · cases hc
  · cases hc

/-- Does a mark open a group without options, or an assertion about what comes next? -/
def Marks.Inert {G : Type} [Marks G] (g : G) : Prop :=
  (Marks.opener g = .nonCapturing "" ∧ Marks.opening g = ['(', '?', ':']) ∨
    (Marks.opener g = .assertion .ahead false ∧ Marks.opening g = ['(', '?', '='])

namespace Regex

variable {U G : Type} [Written U] [Marks G]

/-- Are all units and marks of a tree inert, and no quantifier taken up by a token? -/
def Inert (r : Regex U G) : Prop :=
  r.All (fun u q => (Written.spelling u).Inert ∧ Quantifier.absorbed q = [])
    (fun g q => Marks.Inert g ∧ Quantifier.absorbed q = [])

end Regex

/-! ### Conversion -/

namespace Source.Carries

variable {dotAll : Bool} {groups : Groups} {kinds : List GroupKind} {ls : List Lexeme}
  {y : List Char} {final : Captures} {U G : Type} [Written U] [Marks G]

theorem inert_run {text : List Char} (hrun : (Spelling.run text).Inert) (q : Option Quantifier)
    (h : Carries dotAll groups kinds ls y final) :
    Carries dotAll groups kinds ((Spelling.run text).lexemes q ++ ls)
      (text ++ Quantifier.text q ++ y) final := by
  have hmarks : ∀ c ∈ Quantifier.text q, c ≠ '\\' ∧ c ≠ '.' := by
    intro c hc
    rcases mem_quantifier hc with rfl | rfl | rfl <;> decide
  refine literal (fun l hl => isLiteral_of_mem_run hl) ?_ h
  rw [Spelling.lexemes, flatMap_text_run]
  exact .of_passes (hrun.1.append (.chars fun c hc => (hmarks c hc).1))
    ((hrun.2 dotAll).append (.chars hmarks))

theorem inert_bracket {content : List Char} (hcontent : Expands true false content content)
    (h : Carries dotAll groups kinds ls y final) :
    Carries dotAll groups kinds (.bracket content [] :: ls) ('[' :: content ++ ']' :: y)
      final := by
  have htext : '[' :: content ++ ']' :: y = ('[' :: content ++ [']']) ++ y := by simp
  rw [htext]
  refine token rfl ?_ rfl h
  intro pos
  have hinner := hcontent.outcome
  rw [← String.toList_ofList (l := content)] at hinner
  refine Traced.outcome_bind_eq_ok_iff.2 ⟨_, hinner, ?_⟩
  simp

theorem inert_opener {g : G} (hg : Marks.Inert g)
    (h : Carries dotAll groups ((Marks.opener g).kind :: kinds) ls y final) :
    Carries dotAll groups kinds (.opener (Marks.opener g) (Marks.opening g) :: ls)
      (Marks.opening g ++ y) final := by
  rcases hg with ⟨hopener, hopening⟩ | ⟨hopener, hopening⟩
  · rw [hopener] at h ⊢
    rw [hopening]
    exact token rfl (fun pos => rfl) rfl h
  · rw [hopener] at h ⊢
    rw [hopening]
    exact token rfl (fun pos => rfl) rfl h

theorem inert_closer (kind : GroupKind) (h : Carries dotAll groups kinds ls y final) :
    Carries dotAll groups (kind :: kinds) (.closer [] :: ls) (')' :: y) final := by
  refine token (x := [')']) rfl ?_ rfl h
  intro pos
  cases hkind : kind.isAssertion with
  | true => simp [convertToken, hkind]
  | false => simp [convertToken, hkind]

theorem inert_quantifier {q : Option Quantifier} (hq : Quantifier.absorbed q = [])
    (h : Carries dotAll groups kinds ls y final) :
    Carries dotAll groups kinds ((Quantifier.remaining q).map Lexeme.plain ++ ls)
      (Quantifier.text q ++ y) final := by
  have htext : Quantifier.remaining q = Quantifier.text q := by
    rw [← Quantifier.absorbed_append_remaining, hq, List.nil_append]
  have hremaining := h.remaining q
  rwa [htext] at hremaining ⊢

/-- **An inert tree is converted to its own text.** -/
theorem inert {r : Regex U G} (hr : r.Inert) (h : Carries dotAll groups kinds ls y final) :
    Carries dotAll groups kinds (r.lexemes ++ ls) (r.text ++ y) final := by
  induction r generalizing kinds ls y with
  | done => exact h
  | unit u q next ih =>
    obtain ⟨⟨hunit, hq⟩, hnext⟩ := hr
    have hrest := ih hnext h
    rw [Regex.lexemes, Regex.text, List.append_assoc, List.append_assoc]
    cases hspelling : Written.spelling u with
    | run text =>
      rw [hspelling] at hunit
      exact inert_run hunit q hrest
    | bracket content =>
      rw [hspelling] at hunit
      have hbracket := inert_bracket hunit (inert_quantifier hq hrest)
      simpa [Spelling.lexemes, Spelling.text, hq] using hbracket
  | group g body q next ihb ihn =>
    obtain ⟨⟨hmark, hq⟩, hbody, hnext⟩ := hr
    have hend := inert_closer (Marks.opener g).kind (inert_quantifier hq (ihn hnext h))
    have hstart := inert_opener hmark (ihb hbody hend)
    simpa [Regex.lexemes, Regex.text, hq] using hstart
  | bar next ih => exact (ih hr h).bar

end Source.Carries

/-! ### Whole patterns -/

namespace Regex

variable {U G : Type} [Written U] [Marks G]

/-- Each group has a parenthesis of its own. -/
theorem depth_le_length_text {r : Regex U G} (hr : r.Sound) : r.depth ≤ r.text.length := by
  induction r with
  | done => exact Nat.le_refl 0
  | unit u q next ih =>
    have hle := ih hr.2
    rw [depth, text, List.length_append]
    omega
  | group g body q next ihb ihn =>
    obtain ⟨⟨inner, hopening, _⟩, hbody, hnext⟩ := hr
    have hleb := ihb hbody
    have hlen := ihn hnext
    simp only [depth, text, hopening, List.length_append, List.length_cons]
    omega
  | bar next ih =>
    have hle := ih hr
    rw [depth, text, List.length_cons]
    omega

/-- A tree between slashes is taken apart into tokens, and what its lexemes carry over is what it
    is converted to, with the flags that the target knows. -/
theorem convert_of_carries {limit : Nat} {r : Regex U G} {mods x : List Char} (hsound : r.Sound)
    (hdepth : r.depth ≤ limit) (hfree : FreeOf (· = '/') r.text)
    (hmods : ∀ m ∈ mods, m ∈ Source.modifiers)
    (hcarries : Source.Carries (mods.contains 's') [] [] r.lexemes x .none) :
    ∃ s, Reads limit .initial r.lexemes s ∧ s.openGroups = [] ∧
      (Pattern.parse limit (String.ofList ('/' :: r.text ++ '/' :: mods))).outcome =
        .ok ⟨'/', String.ofList mods, String.ofList r.text, s.tokens.toList⟩ ∧
      (Pattern.convert ⟨'/', String.ofList mods, String.ofList r.text, s.tokens.toList⟩).outcome =
        .ok ⟨String.ofList ('/' :: x ++ '/' :: Source.flags mods), .empty⟩ := by
  obtain ⟨s, hreads, hclosed, htokens⟩ := exists_tokenize hsound hdepth
  refine ⟨s, hreads, hclosed, ?_, ?_⟩
  · exact Pattern.parse_append Pattern.isDelimiter_slash hfree
      (fun m hm => Source.isAlpha_of_mem_modifiers (hmods m hm))
      (fun hx => absurd (hmods 'x' hx) (by decide)) htokens
  · have hflags : convertModifiers [] mods = .ok (Source.flags mods) := by
      rw [Source.convertModifiers_eq hmods []]
      simp [Source.flags]
    have htext : (convertTokens (mods.contains 's') .none 0 r.text s.tokens.toList).outcome =
        .ok (x, .none) := by
      have hconverted := hcarries 0
      rw [flatMap_text_lexemes hsound] at hconverted
      rw [← convertTokens_unlinked, hreads.layout.2]
      exact hconverted
    simp only [Pattern.convert, Pattern.hasModifier, String.toList_ofList, hflags]
    exact Traced.outcome_bind_eq_ok_iff.2 ⟨_, htext, rfl⟩

/-- **An inert tree between slashes is taken apart into tokens and converted to itself**, with
    the flags that the target knows, and no group has a name. -/
theorem convert_inert {limit : Nat} {r : Regex U G} {mods : List Char} (hsound : r.Sound)
    (hinert : r.Inert) (hdepth : r.depth ≤ limit) (hfree : FreeOf (· = '/') r.text)
    (hmods : ∀ m ∈ mods, m ∈ Source.modifiers) :
    ∃ s, Reads limit .initial r.lexemes s ∧ s.openGroups = [] ∧
      (Pattern.parse limit (String.ofList ('/' :: r.text ++ '/' :: mods))).outcome =
        .ok ⟨'/', String.ofList mods, String.ofList r.text, s.tokens.toList⟩ ∧
      (Pattern.convert ⟨'/', String.ofList mods, String.ofList r.text, s.tokens.toList⟩).outcome =
        .ok ⟨String.ofList ('/' :: r.text ++ '/' :: Source.flags mods), .empty⟩ := by
  have hcarries := Source.Carries.inert hinert
    (Source.Carries.nil : Source.Carries (mods.contains 's') [] [] _ _ _)
  rw [List.append_nil, List.append_nil] at hcarries
  exact convert_of_carries hsound hdepth hfree hmods hcarries

end Regex

end RegexText
