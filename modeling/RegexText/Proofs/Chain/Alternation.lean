/-
  RegexText/Proofs/Chain/Alternation.lean
  =======================================
  **An alternation of chains matches what one of the chains matches.**

  The chains of one class-safe symbol go into a class; the others become
  branches of their own.  Both parts together match what the non-empty chains
  match, and the empty chains are accounted for by making the whole optional.
-/
import RegexText.Proofs.Chain.Language

namespace RegexText.Chain

open Text Regular

variable {F : Fragment} {D : Dialect}

/-! ### Optional pieces and groups of alternatives -/

theorem makeOptional_spec (hF : F.Closed) {e : String} (he : IsPiece F e) :
    ∃ e', (makeOptional e).outcome = .ok e' ∧ IsPiece F e' ∧
      atomLanguage D e' = 1 + atomLanguage D e := by
  obtain ⟨r, hr, hseq, htext⟩ := he
  obtain ⟨s, e', houtcome, hoptional, htext'⟩ :=
    exists_makesOptional (hr.wellFormed hF).sound (ne_bar_of_isSequence hseq) htext
  have hs := hoptional.within hF hr
  refine ⟨e', houtcome, ⟨s, hs, hoptional.isSequence, htext'⟩, ?_⟩
  rw [atomLanguage_eq hF hs htext', hoptional.language_eq, atomLanguage_eq hF hr htext]

theorem group_spec (hF : F.Closed) {branches : List String} (hne : branches ≠ [])
    (h : ∀ b ∈ branches, IsPiece F b) :
    IsPiece F ("(?:" ++ "|".intercalate branches ++ ")") ∧
      ∀ w, w ∈ atomLanguage D ("(?:" ++ "|".intercalate branches ++ ")") ↔
        ∃ b ∈ branches, w ∈ atomLanguage D b := by
  obtain ⟨rs, hrs, hall⟩ := exists_trees h
  have hbody : Within F (Regex.alternatives rs) := Regex.all_alternatives fun r hr => (hall r hr).1
  have hwithin : Within F (.group .nonCapturing (Regex.alternatives rs) none .done) :=
    ⟨hF.wrap, hbody, trivial⟩
  have htext : (Regex.group Mark.nonCapturing (Regex.alternatives rs) none .done :
      Expression).text = ("(?:" ++ "|".intercalate branches ++ ")").toList := by
    simp [Regex.text, Marks.opening, Mark.opening, Regex.text_alternatives, hrs,
      Quantifier.text]
  have hrsne : rs ≠ [] := by
    rintro rfl
    exact hne (List.map_eq_nil_iff.1 hrs.symm)
  refine ⟨⟨_, hwithin, trivial, htext⟩, ?_⟩
  intro w
  have htexts : (∃ r ∈ rs, w ∈ textLanguage D r.text) ↔ ∃ b ∈ branches, w ∈ atomLanguage D b := by
    have hmem : (∃ cs ∈ rs.map Regex.text, w ∈ textLanguage D cs) ↔
        ∃ cs ∈ branches.map String.toList, w ∈ textLanguage D cs := by rw [hrs]
    simpa using hmem
  rw [atomLanguage_eq hF hwithin htext, language_group, repeated,
    mem_language_alternatives hrsne, ← htexts]
  constructor
  · rintro ⟨r, hr, hw⟩
    exact ⟨r, hr, by rwa [textLanguage_text D ((hall r hr).1.wellFormed hF)]⟩
  · rintro ⟨r, hr, hw⟩
    exact ⟨r, hr, by rwa [textLanguage_text D ((hall r hr).1.wellFormed hF)] at hw⟩

/-! ### Branches -/

theorem mem_classSymbols {chains : List Chain} {x : String} :
    x ∈ classSymbols chains ↔ [x] ∈ chains ∧ Symbol.isClassSafe x = true := by
  rw [classSymbols, List.mem_eraseDups, List.mem_filterMap]
  constructor
  · rintro ⟨chain, hchain, hx⟩
    split at hx
    · split_ifs at hx with hsafe
      cases hx
      exact ⟨hchain, hsafe⟩
    · cases hx
  · rintro ⟨hchain, hsafe⟩
    exact ⟨[x], hchain, if_pos hsafe⟩

/-- Does a chain consist of one class-safe symbol? -/
def IsSymbol (chain : Chain) : Prop := ∃ x, chain = [x] ∧ Symbol.isClassSafe x = true

theorem mem_plainBranches {chains : List Chain} {b : String} :
    b ∈ plainBranches chains ↔
      ∃ chain ∈ chains, chain ≠ [] ∧ ¬ IsSymbol chain ∧ join chain = b := by
  rw [plainBranches, List.mem_filterMap]
  constructor
  · rintro ⟨chain, hchain, hb⟩
    refine ⟨chain, hchain, ?_⟩
    split at hb
    · cases hb
    · rename_i x
      split_ifs at hb with hsafe
      cases hb
      refine ⟨List.cons_ne_nil _ _, ?_, by simp [join]⟩
      rintro ⟨y, hy, hysafe⟩
      cases hy
      exact hsafe hysafe
    · rename_i hnil hsingle
      cases hb
      refine ⟨hnil, ?_, rfl⟩
      rintro ⟨y, hy, _⟩
      exact hsingle y hy
  · rintro ⟨chain, hchain, hne, hsymbol, rfl⟩
    refine ⟨chain, hchain, ?_⟩
    split
    · exact absurd rfl hne
    · rename_i x
      have hsafe : ¬ Symbol.isClassSafe x = true := fun hx => hsymbol ⟨x, rfl, hx⟩
      rw [if_neg hsafe]
      simp [join]
    · rfl

theorem classBranch_spec (hF : F.Closed) {symbols : List String}
    (h : ∀ x ∈ symbols, Symbol.isClassSafe x = true ∧ IsPiece F x) :
    (∀ b ∈ classBranch symbols, IsPiece F b) ∧
      ∀ w, (∃ b ∈ classBranch symbols, w ∈ atomLanguage D b) ↔
        ∃ x ∈ symbols, w ∈ atomLanguage D x := by
  have hsorted : ∀ w, (∃ x ∈ sortDistinct symbols, w ∈ atomLanguage D x) ↔
      ∃ x ∈ symbols, w ∈ atomLanguage D x := by
    intro w
    simp only [mem_sortDistinct]
  have hall : ∀ x ∈ sortDistinct symbols, Symbol.isClassSafe x = true ∧ IsPiece F x :=
    fun x hx => h x (mem_sortDistinct.1 hx)
  have hnodup := nodup_sortDistinct symbols
  simp only [← hsorted]
  unfold classBranch
  split
  · rename_i hnil
    rw [hnil]
    exact ⟨by simp, fun w => Iff.rfl⟩
  · rename_i x hx
    rw [hx] at hall ⊢
    exact ⟨fun b hb => (hall b hb).2, fun w => Iff.rfl⟩
  · rename_i members hnil hsingle
    cases hmembers : sortDistinct symbols with
    | nil => exact absurd hmembers hnil
    | cons a later =>
      cases later with
      | nil => exact absurd hmembers (hsingle a)
      | cons b later =>
        rw [hmembers] at hall hnodup
        have hab : a ≠ b := by
          rintro rfl
          exact (List.nodup_cons.1 hnodup).1 (List.mem_cons_self ..)
        obtain ⟨hpiece, hlanguage⟩ := characterClass_spec (D := D) hF hall
          (List.mem_cons_self ..) (List.mem_cons_of_mem _ (List.mem_cons_self ..)) hab
        refine ⟨?_, ?_⟩
        · intro x hx
          rw [List.mem_singleton.1 hx]
          exact hpiece
        · intro w
          rw [← hlanguage]
          simp

theorem branches_spec (hF : F.Closed) {chains : List Chain}
    (h : ∀ chain ∈ chains, AllPieces F chain) :
    (∀ b ∈ branches chains, IsPiece F b) ∧
      ∀ w, (∃ b ∈ branches chains, w ∈ atomLanguage D b) ↔
        ∃ chain ∈ chains, chain ≠ [] ∧ w ∈ language D chain := by
  have hsymbols : ∀ x ∈ classSymbols chains, Symbol.isClassSafe x = true ∧ IsPiece F x := by
    intro x hx
    obtain ⟨hchain, hsafe⟩ := mem_classSymbols.1 hx
    exact ⟨hsafe, h [x] hchain x (List.mem_singleton_self x)⟩
  obtain ⟨hpiece, hlanguage⟩ := classBranch_spec (D := D) hF hsymbols
  refine ⟨?_, ?_⟩
  · intro b hb
    rcases List.mem_append.1 hb with hclass | hplain
    · exact hpiece b hclass
    · obtain ⟨chain, hchain, _, _, rfl⟩ := mem_plainBranches.1 hplain
      exact (join_spec (D := D) hF (h chain hchain)).1
  · intro w
    constructor
    · rintro ⟨b, hb, hw⟩
      rcases List.mem_append.1 hb with hclass | hplain
      · obtain ⟨x, hx, hwx⟩ := (hlanguage w).1 ⟨b, hclass, hw⟩
        refine ⟨[x], (mem_classSymbols.1 hx).1, List.cons_ne_nil _ _, ?_⟩
        simpa using hwx
      · obtain ⟨chain, hchain, hne, _, rfl⟩ := mem_plainBranches.1 hplain
        exact ⟨chain, hchain, hne, by rwa [(join_spec hF (h chain hchain)).2] at hw⟩
    · rintro ⟨chain, hchain, hne, hw⟩
      by_cases hsymbol : IsSymbol chain
      · obtain ⟨x, rfl, hsafe⟩ := hsymbol
        have hx : x ∈ classSymbols chains := mem_classSymbols.2 ⟨hchain, hsafe⟩
        obtain ⟨b, hb, hwb⟩ := (hlanguage w).2 ⟨x, hx, by simpa using hw⟩
        exact ⟨b, List.mem_append_left _ hb, hwb⟩
      · have hb := mem_plainBranches.2 ⟨chain, hchain, hne, hsymbol, rfl⟩
        exact ⟨_, List.mem_append_right _ hb, by rwa [(join_spec hF (h chain hchain)).2]⟩

theorem branches_ne_nil {chains : List Chain} {chain : Chain} (hchain : chain ∈ chains)
    (hne : chain ≠ []) : branches chains ≠ [] := by
  intro hnil
  obtain ⟨hclass, hplain⟩ := List.append_eq_nil_iff.1 hnil
  by_cases hsymbol : IsSymbol chain
  · obtain ⟨x, rfl, hsafe⟩ := hsymbol
    have hx : x ∈ sortDistinct (classSymbols chains) :=
      mem_sortDistinct.2 (mem_classSymbols.2 ⟨hchain, hsafe⟩)
    unfold classBranch at hclass
    split at hclass
    · rename_i hsorted
      rw [hsorted] at hx
      cases hx
    · cases hclass
    · cases hclass
  · have hb := mem_plainBranches.2 ⟨chain, hchain, hne, hsymbol, rfl⟩
    rw [hplain] at hb
    cases hb

/-! ### Alternations -/

theorem finished_spec (hF : F.Closed) {chains : List Chain} {optional : Bool} {e : String}
    (he : IsPiece F e)
    (hlanguage : ∀ w, w ∈ atomLanguage D e ↔
      ∃ chain ∈ chains, chain ≠ [] ∧ w ∈ language D chain) :
    ∃ e', (if optional || chains.any List.isEmpty then makeOptional e
        else (pure e : Traced String)).outcome = .ok e' ∧ IsPiece F e' ∧
      ∀ w, w ∈ atomLanguage D e' ↔ (optional = true ∧ w = []) ∨ w ∈ union D chains := by
  have hunion : ∀ w, (optional = true ∧ w = []) ∨ w ∈ union D chains ↔
      ((optional || chains.any List.isEmpty) = true ∧ w = []) ∨ w ∈ atomLanguage D e := by
    intro w
    rw [mem_union_iff, hlanguage, Bool.or_eq_true, or_and_right, or_assoc]
  by_cases hoptional : (optional || chains.any List.isEmpty) = true
  · obtain ⟨e', houtcome, he', heq⟩ := makeOptional_spec (D := D) hF he
    refine ⟨e', by rw [if_pos hoptional, houtcome], he', ?_⟩
    intro w
    rw [hunion, heq, Language.mem_add, Language.mem_one]
    simp only [hoptional, true_and]
  · refine ⟨e, by rw [if_neg hoptional]; rfl, he, ?_⟩
    intro w
    rw [hunion]
    simp only [hoptional, false_and, false_or, Bool.false_eq_true]

/-- **An alternation succeeds, and matches what one of its chains matches.** -/
theorem alternation_spec (hF : F.Closed) {chains : List Chain} (hne : chains ≠ [])
    (h : ∀ chain ∈ chains, AllPieces F chain) (optional : Bool) :
    ∃ e, (alternation chains optional).outcome = .ok e ∧ IsPiece F e ∧
      ∀ w, w ∈ atomLanguage D e ↔ (optional = true ∧ w = []) ∨ w ∈ union D chains := by
  obtain ⟨hpieces, hlanguage⟩ := branches_spec (D := D) hF h
  unfold alternation
  split
  · -- without branches all chains are empty
    rename_i hnil
    have hempty : ∀ chain ∈ chains, chain = [] := by
      intro chain hchain
      by_contra hchainne
      exact branches_ne_nil hchain hchainne hnil
    refine ⟨"", rfl, isPiece_empty, ?_⟩
    intro w
    rw [atomLanguage_empty, union_eq_one hne hempty, Language.mem_one]
    exact ⟨.inr, fun h => h.elim And.right id⟩
  · rename_i branch hbranch
    rw [hbranch] at hpieces hlanguage
    apply finished_spec hF (hpieces branch (List.mem_singleton_self branch))
    intro w
    rw [← hlanguage]
    simp
  · rename_i several hnil hsingle
    obtain ⟨hgroup, hgrouplanguage⟩ := group_spec (D := D) hF hnil hpieces
    apply finished_spec hF hgroup
    intro w
    rw [hgrouplanguage, hlanguage]

end RegexText.Chain
