/-
  RegexText/Proofs/Chain/Language.lean
  ====================================
  **What chains and lists of chains match.**

  An atom is good if it is a *piece*: the text of an expression without a bar of
  its own, so that it can be put between other texts.  Pieces are closed under
  everything that merging does with them, which is to join them, to write
  alternatives into a group, and to make them optional.

  The language of a list of chains is the union of the languages of its members.
  It does not depend on their order, or on how often each is listed.
-/
import RegexText.Proofs.Regular.Symbols

namespace RegexText.Chain

open Text Regular

variable {F : Fragment} {D : Dialect}

/-! ### Pieces -/

/-- Is a text an expression of a fragment, with a single alternative? -/
def IsPiece (F : Fragment) (a : String) : Prop :=
  ∃ r, Within F r ∧ r.IsSequence ∧ r.text = a.toList

/-- The texts that a text, read as an expression, matches. -/
abbrev atomLanguage (D : Dialect) (a : String) : Language Char := textLanguage D a.toList

theorem ne_bar_of_isSequence {r : Expression} (h : r.IsSequence) : r ≠ .bar .done := by
  rintro rfl
  exact h

theorem atomLanguage_eq (hF : F.Closed) {r : Expression} (hr : Within F r) {a : String}
    (htext : r.text = a.toList) : atomLanguage D a = language D r := by
  rw [atomLanguage, ← htext, textLanguage_text D (hr.wellFormed hF)]

theorem isPiece_empty : IsPiece F "" := ⟨.done, trivial, trivial, rfl⟩

theorem atomLanguage_empty : atomLanguage D "" = 1 := by
  have hempty : Within .full .done := trivial
  rw [atomLanguage_eq Fragment.full_closed hempty rfl, language_done]

theorem exists_trees_of {P : Expression → Prop} {texts : List String}
    (h : ∀ a ∈ texts, ∃ r, P r ∧ r.text = a.toList) :
    ∃ rs : List Expression, rs.map Regex.text = texts.map String.toList ∧ ∀ r ∈ rs, P r := by
  induction texts with
  | nil => exact ⟨[], rfl, by simp⟩
  | cons a texts ih =>
    obtain ⟨⟨r, hr, htext⟩, htexts⟩ := List.forall_mem_cons.1 h
    obtain ⟨rs, hrs, hall⟩ := ih htexts
    exact ⟨r :: rs, by rw [List.map_cons, List.map_cons, htext, hrs],
      List.forall_mem_cons.2 ⟨hr, hall⟩⟩

theorem exists_trees {texts : List String} (h : ∀ a ∈ texts, IsPiece F a) :
    ∃ rs : List Expression, rs.map Regex.text = texts.map String.toList ∧
      ∀ r ∈ rs, Within F r ∧ r.IsSequence := by
  apply exists_trees_of
  intro a ha
  obtain ⟨r, hr, hseq, htext⟩ := h a ha
  exact ⟨r, ⟨hr, hseq⟩, htext⟩

/-! ### Chains -/

/-- The texts that the atoms of a chain match, one behind the other. -/
def language (D : Dialect) (chain : Chain) : Language Char := (chain.map (atomLanguage D)).prod

/-- The texts that one of some chains matches. -/
def union (D : Dialect) (chains : List Chain) : Language Char :=
  {w | ∃ chain ∈ chains, w ∈ language D chain}

def AllPieces (F : Fragment) (chain : Chain) : Prop := ∀ a ∈ chain, IsPiece F a

@[simp] theorem language_nil : language D [] = 1 := rfl

@[simp] theorem language_cons (a : String) (chain : Chain) :
    language D (a :: chain) = atomLanguage D a * language D chain := by
  simp [language]

@[simp] theorem language_append (as bs : Chain) :
    language D (as ++ bs) = language D as * language D bs := by
  simp [language]

theorem mem_union {chains : List Chain} {w : List Char} :
    w ∈ union D chains ↔ ∃ chain ∈ chains, w ∈ language D chain := Iff.rfl

theorem mem_union_iff {chains : List Chain} {w : List Char} :
    w ∈ union D chains ↔ (chains.any List.isEmpty = true ∧ w = []) ∨
      ∃ chain ∈ chains, chain ≠ [] ∧ w ∈ language D chain := by
  rw [mem_union, List.any_eq_true]
  constructor
  · rintro ⟨chain, hchain, hw⟩
    by_cases hempty : chain = []
    · subst hempty
      exact .inl ⟨⟨[], hchain, rfl⟩, (Language.mem_one w).1 hw⟩
    · exact .inr ⟨chain, hchain, hempty, hw⟩
  · rintro (⟨⟨chain, hchain, hempty⟩, rfl⟩ | ⟨chain, hchain, _, hw⟩)
    · rw [List.isEmpty_iff.1 hempty] at hchain
      exact ⟨[], hchain, (Language.mem_one _).2 rfl⟩
    · exact ⟨chain, hchain, hw⟩

theorem union_congr {as bs : List Chain} (h : ∀ chain, chain ∈ as ↔ chain ∈ bs) :
    union D as = union D bs := by
  ext w
  simp only [mem_union, h]

theorem union_eq_one {chains : List Chain} (hne : chains ≠ [])
    (h : ∀ chain ∈ chains, chain = []) : union D chains = 1 := by
  obtain ⟨first, hfirst⟩ := List.exists_mem_of_ne_nil chains hne
  ext w
  rw [mem_union]
  constructor
  · rintro ⟨chain, hchain, hw⟩
    rwa [h chain hchain] at hw
  · intro hw
    exact ⟨first, hfirst, by rwa [h first hfirst]⟩

theorem union_singleton (chain : Chain) : union D [chain] = language D chain := by
  ext w
  simp [mem_union]

theorem union_append (as bs : List Chain) : union D (as ++ bs) = union D as + union D bs := by
  ext w
  rw [Language.mem_add]
  simp only [mem_union, List.mem_append]
  constructor
  · rintro ⟨chain, hchain | hchain, hw⟩
    · exact .inl ⟨chain, hchain, hw⟩
    · exact .inr ⟨chain, hchain, hw⟩
  · rintro (⟨chain, hchain, hw⟩ | ⟨chain, hchain, hw⟩)
    · exact ⟨chain, .inl hchain, hw⟩
    · exact ⟨chain, .inr hchain, hw⟩

/-- What is put around all chains is put around their union. -/
theorem union_map_around (front back : Chain) (chains : List Chain) :
    union D (chains.map fun chain => front ++ chain ++ back) =
      language D front * union D chains * language D back := by
  ext w
  simp only [mem_union, List.mem_map, Language.mem_mul]
  constructor
  · rintro ⟨_, ⟨chain, hchain, rfl⟩, hw⟩
    simp only [language_append, Language.mem_mul] at hw
    obtain ⟨_, ⟨a, ha, b, hb, rfl⟩, c, hc, rfl⟩ := hw
    exact ⟨_, ⟨a, ha, b, ⟨chain, hchain, hb⟩, rfl⟩, c, hc, rfl⟩
  · rintro ⟨_, ⟨a, ha, b, ⟨chain, hchain, hb⟩, rfl⟩, c, hc, rfl⟩
    refine ⟨_, ⟨chain, hchain, rfl⟩, ?_⟩
    simp only [language_append, Language.mem_mul]
    exact ⟨_, ⟨a, ha, b, hb, rfl⟩, c, hc, rfl⟩

theorem join_cons (a : String) (chain : Chain) : join (a :: chain) = a ++ join chain :=
  String.join_cons

/-- The text of a chain of pieces is a piece, and it matches what the chain matches. -/
theorem join_spec (hF : F.Closed) {chain : Chain} (h : AllPieces F chain) :
    IsPiece F (join chain) ∧ atomLanguage D (join chain) = language D chain := by
  have htree : ∃ r, Within F r ∧ r.IsSequence ∧ r.text = (join chain).toList ∧
      Regular.language D r = language D chain := by
    induction chain with
    | nil => exact ⟨.done, trivial, trivial, rfl, language_done⟩
    | cons a chain ih =>
      obtain ⟨ha, hchain⟩ := List.forall_mem_cons.1 h
      obtain ⟨r, hr, hseq, htext⟩ := ha
      obtain ⟨s, hs, hseq', htext', hlanguage⟩ := ih hchain
      refine ⟨r.append s, hr.append hs, hseq.append hseq', ?_, ?_⟩
      · rw [Regex.text_append, htext, htext', join_cons, String.toList_append]
      · rw [Regular.language_append hseq hseq', hlanguage, language_cons,
          atomLanguage_eq hF hr htext]
  obtain ⟨r, hr, hseq, htext, hlanguage⟩ := htree
  exact ⟨⟨r, hr, hseq, htext⟩, (atomLanguage_eq hF hr htext).trans hlanguage⟩

/-! ### Classes of symbols -/

/-- A class-safe text that is a piece is a member of a bracket expression, and it matches
    what that member matches. -/
theorem exists_member (hF : F.Closed) {x : String} (hsafe : Symbol.isClassSafe x = true)
    (hx : IsPiece F x) :
    ∃ m, Symbol.member? x = some m ∧
      ∀ w, w ∈ atomLanguage D x ↔ ∃ c, m.Matches D c ∧ w = [c] := by
  obtain ⟨r, hr, hseq, htext⟩ := hx
  obtain ⟨u, m, rfl, hm, hsame⟩ := Symbol.exists_member?_of_isClassSafe hsafe
    (hr.wellFormed hF) (ne_bar_of_isSequence hseq) htext
  refine ⟨m, hm, ?_⟩
  intro w
  rw [atomLanguage_eq hF hr htext, language_unit]
  simp only [← hsame]
  rfl

/-- A class of at least two symbols is one bracket expression for what its symbols match. -/
theorem exists_content (hF : F.Closed) {symbols : List String}
    (hsafe : ∀ x ∈ symbols, Symbol.isClassSafe x = true ∧ IsPiece F x) {a b : String}
    (ha : a ∈ symbols) (hb : b ∈ symbols) (hab : a ≠ b) :
    ∃ content bracket, (Symbol.characterClass symbols).toList = '[' :: content ++ [']'] ∧
      Bracket.read? content = some bracket ∧ ∀ D c, bracket.Matches D c ↔
        ∃ x ∈ symbols, ∃ m, Symbol.member? x = some m ∧ m.Matches D c := by
  have hmember : ∀ x ∈ symbols, (Symbol.member? x).isSome = true := by
    intro x hx
    obtain ⟨m, hm, _⟩ := exists_member (D := ⟨fun _ => True, fun _ _ => True⟩) hF
      (hsafe x hx).1 (hsafe x hx).2
    exact Option.isSome_iff_exists.2 ⟨m, hm⟩
  have hbare : ∀ c ∈ Symbol.literalInClass, String.singleton c ∉ symbols := by
    intro c hc hin
    obtain ⟨hcsafe, r, hr, hseq, htext⟩ := hsafe _ hin
    exact Symbol.ne_singleton_of_isClassSafe hcsafe (hr.wellFormed hF)
      (ne_bar_of_isSequence hseq) htext c hc rfl
  exact Symbol.characterClass_spec hmember hbare ha hb hab

/-- A class of at least two symbols is one unit of the fragment. -/
theorem exists_classTree (hF : F.Closed) {symbols : List String}
    (hsafe : ∀ x ∈ symbols, Symbol.isClassSafe x = true ∧ IsPiece F x) {a b : String}
    (ha : a ∈ symbols) (hb : b ∈ symbols) (hab : a ≠ b) :
    ∃ content bracket, Within F (.unit (.bracket content) none .done) ∧
      (Regex.unit (Matcher.bracket content) none .done : Expression).text =
        (Symbol.characterClass symbols).toList ∧
      Bracket.read? content = some bracket ∧ ∀ D c, bracket.Matches D c ↔
        ∃ x ∈ symbols, ∃ m, Symbol.member? x = some m ∧ m.Matches D c := by
  obtain ⟨content, bracket, htext, hread, hmatches⟩ := exists_content hF hsafe ha hb hab
  have hvalid : (Matcher.bracket content).isValid = true := by simp [Matcher.isValid, hread]
  refine ⟨content, bracket, ⟨hF.bracket content hvalid, trivial⟩, ?_, hread, hmatches⟩
  rw [htext]
  simp [Regex.text, Written.spelling, Matcher.spelling, Spelling.text, Quantifier.text]

/-- A class of at least two symbols is a piece, and it matches what one of them matches. -/
theorem characterClass_spec (hF : F.Closed) {symbols : List String}
    (hsafe : ∀ x ∈ symbols, Symbol.isClassSafe x = true ∧ IsPiece F x) {a b : String}
    (ha : a ∈ symbols) (hb : b ∈ symbols) (hab : a ≠ b) :
    IsPiece F (Symbol.characterClass symbols) ∧
      ∀ w, w ∈ atomLanguage D (Symbol.characterClass symbols) ↔
        ∃ x ∈ symbols, w ∈ atomLanguage D x := by
  obtain ⟨content, bracket, hwithin, hspelling, hread, hmatches⟩ :=
    exists_classTree hF hsafe ha hb hab
  refine ⟨⟨_, hwithin, trivial, hspelling⟩, ?_⟩
  intro w
  rw [atomLanguage_eq hF hwithin hspelling, language_unit]
  constructor
  · rintro ⟨c, ⟨bracket', hread', hc⟩, rfl⟩
    cases hread.symm.trans hread'
    obtain ⟨x, hx, m, hm, hmc⟩ := (hmatches D c).1 hc
    obtain ⟨m', hm', hlanguage⟩ := exists_member (D := D) hF (hsafe x hx).1 (hsafe x hx).2
    cases hm.symm.trans hm'
    exact ⟨x, hx, (hlanguage _).2 ⟨c, hmc, rfl⟩⟩
  · rintro ⟨x, hx, hw⟩
    obtain ⟨m, hm, hlanguage⟩ := exists_member (D := D) hF (hsafe x hx).1 (hsafe x hx).2
    obtain ⟨c, hmc, rfl⟩ := (hlanguage w).1 hw
    exact ⟨c, ⟨bracket, hread, (hmatches D c).2 ⟨x, hx, m, hm, hmc⟩⟩, rfl⟩

end RegexText.Chain
