/-
  RegexText/Proofs/Conversion/Categories.lean
  ===========================================
  **A text is expanded if its category escapes are known.**

  The expansion reads a text from the left and gives up at the first escape that
  it cannot read.  Whether it gets to the end can be said without it: behind
  every pair of a backslash and a `p` must stand the name of a general category.
  An escape that can be read holds no further backslash, so reading one leaves
  all later pairs where they are.
-/
import RegexText.Proofs.Conversion.Inversion

namespace RegexText

open Text

/-! ### Pairs -/

namespace Text

/-- Are a backslash and `c` a pair of a text, with `after` behind it? -/
def PairAt (cs : List Char) (c : Char) (after : List Char) : Prop :=
  ∃ before, Complete before ∧ cs = before ++ '\\' :: c :: after

variable {as bs cs after : List Char} {c d : Char}

theorem not_pairAt_nil : ¬ PairAt [] c after := by
  rintro ⟨before, _, heq⟩
  simp at heq

theorem not_pairAt_lone : ¬ PairAt ['\\'] c after := by
  rintro ⟨before, _, heq⟩
  have hlength := congrArg List.length heq
  simp only [List.length_append, List.length_cons, List.length_nil] at hlength
  omega

theorem pairAt_pair_iff :
    PairAt ('\\' :: d :: cs) c after ↔ (d = c ∧ cs = after) ∨ PairAt cs c after := by
  constructor
  · rintro ⟨before, hbefore, heq⟩
    cases hbefore with
    | nil =>
      cases heq
      exact .inl ⟨rfl, rfl⟩
    | pair e hrest =>
      cases heq
      exact .inr ⟨_, hrest, rfl⟩
    | single hne _ _ =>
      exact absurd (List.cons.inj heq).1.symm hne
  · rintro (⟨rfl, rfl⟩ | ⟨before, hbefore, rfl⟩)
    · exact ⟨[], .nil, rfl⟩
    · exact ⟨'\\' :: d :: before, .pair d hbefore, rfl⟩

theorem pairAt_single_iff (hd : d ≠ '\\') : PairAt (d :: cs) c after ↔ PairAt cs c after := by
  constructor
  · rintro ⟨before, hbefore, heq⟩
    cases hbefore with
    | nil =>
      cases heq
      exact absurd rfl hd
    | pair e hrest =>
      cases heq
      exact absurd rfl hd
    | single _ _ hrest =>
      obtain ⟨_, rfl⟩ := List.cons.inj heq
      exact ⟨_, hrest, rfl⟩
  · rintro ⟨before, hbefore, rfl⟩
    exact ⟨d :: before, .single hd id hbefore, rfl⟩

/-- The pairs of a text that is cut between two pairs are those of its parts. -/
theorem pairAt_append_iff (has : Complete as) :
    PairAt (as ++ bs) c after ↔
      (∃ inner, PairAt as c inner ∧ after = inner ++ bs) ∨ PairAt bs c after := by
  induction has with
  | nil => simp [not_pairAt_nil]
  | pair d _ ih =>
    rw [List.cons_append, List.cons_append, pairAt_pair_iff, ih]
    simp only [pairAt_pair_iff]
    constructor
    · rintro (⟨rfl, rfl⟩ | ⟨inner, hinner, rfl⟩ | hbehind)
      · exact .inl ⟨_, .inl ⟨rfl, rfl⟩, rfl⟩
      · exact .inl ⟨inner, .inr hinner, rfl⟩
      · exact .inr hbehind
    · rintro (⟨inner, ⟨rfl, rfl⟩ | hinner, rfl⟩ | hbehind)
      · exact .inl ⟨rfl, rfl⟩
      · exact .inr (.inl ⟨inner, hinner, rfl⟩)
      · exact .inr (.inr hbehind)
  | single hd _ _ ih =>
    rw [List.cons_append, pairAt_single_iff hd, ih]
    simp only [pairAt_single_iff hd]

/-- What has no such pair can be left out. -/
theorem pairAt_append_iff_of_not (has : Complete as) (hnone : ∀ inner, ¬ PairAt as c inner) :
    PairAt (as ++ bs) c after ↔ PairAt bs c after := by
  rw [pairAt_append_iff has]
  simp only [hnone, false_and, exists_false, false_or]

/-- A text without backslashes has no pairs. -/
theorem not_pairAt_of_forall (h : ∀ d ∈ cs, d ≠ '\\') : ¬ PairAt cs c after := by
  rintro ⟨before, _, rfl⟩
  exact h '\\' (by simp) rfl

theorem pairAt_append_iff_of_forall (has : ∀ d ∈ as, d ≠ '\\') :
    PairAt (as ++ bs) c after ↔ PairAt bs c after :=
  pairAt_append_iff_of_not (complete_of_forall has) fun _ => not_pairAt_of_forall has

end Text

/-! ### Known categories -/

namespace Source

/-- Does an escape for a general category begin with a backslash and `letter`, if `after` comes
    behind them? -/
def CategoryAt (letter : Char) (after : List Char) : Prop :=
  ∃ (spelling : CategorySpelling) (rest : List Char), spelling.categories?.isSome = true ∧
    '\\' :: letter :: after = spelling.text ++ rest

/-- Is every category escape of a text one for a general category? -/
def KnownCategories (cs : List Char) : Prop :=
  ∀ letter after, letter = 'p' ∨ letter = 'P' → PairAt cs letter after → CategoryAt letter after

variable {as bs cs rest : List Char} {c letter : Char}

theorem exists_capital (h : letter = 'p' ∨ letter = 'P') :
    ∃ capital, CategorySpelling.letter capital = letter := by
  rcases h with rfl | rfl
  · exact ⟨false, rfl⟩
  · exact ⟨true, rfl⟩

theorem eq_append_of_splitCaret (cs : List Char) :
    cs = (if (CategoryEscape.splitCaret cs).1 then ['^'] else []) ++
      (CategoryEscape.splitCaret cs).2 := by
  unfold CategoryEscape.splitCaret
  split <;> rfl

/-- What is read behind the letter of an escape is the spelling of a category. -/
theorem categoryAt_of_read {escape : CategoryEscape.Escape}
    (hletter : letter = 'p' ∨ letter = 'P')
    (h : CategoryEscape.read letter cs = .ok (escape, rest)) : CategoryAt letter cs := by
  obtain ⟨capital, hcapital⟩ := exists_capital hletter
  unfold CategoryEscape.read at h
  split at h
  · cases h
  · rename_i caret name spelling after hname
    split at h
    · cases h
    · rename_i categories hcategories
      unfold CategoryEscape.readName at hname
      split at hname
      · cases hname
      · rename_i inside
        split at hname
        · cases hname
        · rename_i d behind hdrop
          simp only [Except.ok.injEq, Prod.mk.injEq] at hname
          obtain ⟨hcaret, hinner, _, _⟩ := hname
          have hd : d = '}' := by
            simpa [hdrop] using List.head?_dropWhile_not (· != '}') inside
          have hsplit := List.takeWhile_append_dropWhile (p := (· != '}')) (l := inside)
          have hfront : inside.takeWhile (· != '}') = (if caret then ['^'] else []) ++ name := by
            rw [← hcaret, ← hinner]
            exact eq_append_of_splitCaret _
          rw [hdrop, hd, hfront] at hsplit
          refine ⟨.braced capital caret name, behind, ?_, ?_⟩
          · rw [CategorySpelling.categories?, hcategories]
            rfl
          · simp [CategorySpelling.text, hcapital, ← hsplit]
      · rename_i d behind _
        simp only [Except.ok.injEq, Prod.mk.injEq] at hname
        obtain ⟨_, rfl, _, _⟩ := hname
        refine ⟨.short capital d, behind, ?_, ?_⟩
        · rw [CategorySpelling.categories?, hcategories]
          rfl
        · simp [CategorySpelling.text, hcapital]

theorem exists_read_of_categoryAt (h : CategoryAt letter cs) :
    ∃ escape rest, CategoryEscape.read letter cs = .ok (escape, rest) := by
  obtain ⟨spelling, rest, hknown, heq⟩ := h
  obtain ⟨categories, hcategories⟩ := Option.isSome_iff_exists.1 hknown
  rw [CategorySpelling.text_eq] at heq
  cases heq
  exact ⟨_, _, read_category hcategories rest⟩

namespace KnownCategories

theorem pair_iff :
    KnownCategories ('\\' :: c :: cs) ↔
      (c = 'p' ∨ c = 'P' → CategoryAt c cs) ∧ KnownCategories cs := by
  constructor
  · intro h
    refine ⟨fun hletter => h c cs hletter (pairAt_pair_iff.2 (.inl ⟨rfl, rfl⟩)), ?_⟩
    intro letter after hletter hpair
    exact h letter after hletter (pairAt_pair_iff.2 (.inr hpair))
  · rintro ⟨hfirst, hlater⟩ letter after hletter hpair
    rcases pairAt_pair_iff.1 hpair with ⟨rfl, rfl⟩ | hpair
    · exact hfirst hletter
    · exact hlater letter after hletter hpair

theorem single_iff (hc : c ≠ '\\') : KnownCategories (c :: cs) ↔ KnownCategories cs := by
  simp only [KnownCategories, pairAt_single_iff hc]

theorem append_iff_of_forall (h : ∀ c ∈ as, c ≠ '\\') :
    KnownCategories (as ++ bs) ↔ KnownCategories bs := by
  simp only [KnownCategories, pairAt_append_iff_of_forall h]

end KnownCategories

/-- **A text is expanded exactly if its category escapes are known.** -/
theorem succeeds_expand_iff {inClass dotAll : Bool} :
    (CategoryEscape.expand inClass dotAll cs).Succeeds ↔ KnownCategories cs := by
  fun_induction CategoryEscape.expand inClass dotAll cs with
  | case1 =>
    exact iff_of_true (Traced.succeeds_pure _) fun _ _ _ hpair => absurd hpair not_pairAt_nil
  | case2 =>
    exact iff_of_true (Traced.succeeds_pure _) fun _ _ _ hpair => absurd hpair not_pairAt_lone
  | case3 c cs hc feature hread =>
    refine iff_of_false ?_ fun h => ?_
    · rintro ⟨_, hok⟩
      cases hok
    · obtain ⟨escape, rest, hok⟩ := exists_read_of_categoryAt ((KnownCategories.pair_iff.1 h).1 hc)
      rw [hread] at hok
      cases hok
  | case4 c cs hc escape rest hread ih =>
    obtain ⟨spelling, rfl, hspelling⟩ := CategoryEscape.exists_spelling_of_read hread
    rw [KnownCategories.pair_iff, KnownCategories.append_iff_of_forall hspelling, ← ih]
    simp only [Traced.succeeds_bind_iff, Traced.outcome_note]
    constructor
    · rintro ⟨_, _, _, _, later, hlater, _⟩
      exact ⟨fun _ => categoryAt_of_read hc hread, later, hlater⟩
    · rintro ⟨_, later, hlater⟩
      exact ⟨(), trivial, (), trivial, later, hlater, Traced.succeeds_pure _⟩
  | case5 c cs hc ih =>
    rw [KnownCategories.pair_iff, ← ih, Traced.succeeds_bind_iff]
    constructor
    · rintro ⟨later, hlater, _⟩
      exact ⟨fun hletter => absurd hletter hc, later, hlater⟩
    · rintro ⟨_, later, hlater⟩
      exact ⟨later, hlater, Traced.succeeds_pure _⟩
  | case6 c cs hlone hpair ih =>
    have hc := ne_backslash_of_not_pair hlone hpair
    rw [KnownCategories.single_iff hc, ← ih, Traced.succeeds_bind_iff]
    constructor
    · rintro ⟨later, hlater, _⟩
      exact ⟨later, hlater⟩
    · rintro ⟨later, hlater⟩
      exact ⟨later, hlater, Traced.succeeds_pure _⟩

/-- A text that does not end inside a pair becomes the same whatever comes behind it. -/
theorem expands_of_complete {inClass dotAll : Bool} {x : List Char} (hcs : Complete cs)
    (h : (CategoryEscape.expand inClass dotAll cs).outcome = .ok x) :
    Expands inClass dotAll cs x := by
  fun_induction CategoryEscape.expand inClass dotAll cs generalizing x with
  | case1 =>
    cases h
    exact .nil
  | case2 =>
    cases hcs with
    | single hne => exact absurd rfl hne
  | case3 => cases h
  | case4 c cs hc escape rest hread ih =>
    obtain ⟨spelling, after, hknown, heq⟩ := categoryAt_of_read hc hread
    obtain ⟨categories, hcategories⟩ := Option.isSome_iff_exists.1 hknown
    obtain ⟨rfl, rfl⟩ : c = CategorySpelling.letter spelling.isCapital ∧
        cs = spelling.tail ++ after := by simpa [CategorySpelling.text_eq] using heq
    rw [read_category hcategories] at hread
    cases hread
    obtain ⟨_, _, hrest⟩ := Traced.outcome_bind_eq_ok_iff.1 h
    obtain ⟨_, _, hrest⟩ := Traced.outcome_bind_eq_ok_iff.1 hrest
    obtain ⟨later, hlater, hx⟩ := Traced.outcome_bind_eq_ok_iff.1 hrest
    cases hx
    rw [heq] at hcs ⊢
    rw [spelling.expanded_eq hcategories]
    have htext : Complete spelling.text :=
      freeOf_category hknown (fun _ _ => not_false) ⟨not_false, not_false, not_false⟩
    exact (Expands.category hknown).append (ih (FreeOf.of_append htext hcs).2 hlater)
  | case5 c cs hc ih =>
    obtain ⟨later, hlater, hx⟩ := Traced.outcome_bind_eq_ok_iff.1 h
    cases hx
    exact (Expands.pair hc).append (ih hcs.of_pair hlater)
  | case6 c cs hlone hpair ih =>
    have hc := ne_backslash_of_not_pair hlone hpair
    obtain ⟨later, hlater, hx⟩ := Traced.outcome_bind_eq_ok_iff.1 h
    cases hx
    exact (Expands.single hc).append (ih (hcs.of_single hc).2 hlater)

instance (cs : List Char) : Decidable (KnownCategories cs) :=
  decidable_of_iff (CategoryEscape.expand false false cs).Succeeds succeeds_expand_iff

end Source

end RegexText
