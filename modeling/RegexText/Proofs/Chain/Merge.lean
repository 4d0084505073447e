/-
  RegexText/Proofs/Chain/Merge.lean
  =================================
  **Merging preserves the language.**

  A way of merging is faithful if the chain that it returns matches what one of
  the given chains matches, no more and no less.  Every step of merging is
  faithful if the merging of the parts is, so merging with any number of levels
  is, by induction on the levels.

  Nothing but the texts of atoms is ever compared.  That equal texts match alike
  is all that factoring and grouping need; that a text has one tree is what makes
  it true.
-/
import RegexText.Proofs.Chain.Alternation
import RegexText.Proofs.Chain.Factor
import RegexText.Proofs.Chain.Groups
import RegexText.Proofs.Traced

namespace RegexText.Chain

open Text Regular

variable {F : Fragment} {D : Dialect} {merge : List Chain → Traced Chain}

/-- Does the chain that some chains are merged into consist of pieces, and match what one
    of them matches? -/
def Faithful (F : Fragment) (D : Dialect) (merge : List Chain → Traced Chain) : Prop :=
  ∀ chains chain, chains ≠ [] → (∀ c ∈ chains, AllPieces F c) →
    (merge chains).outcome = .ok chain → AllPieces F chain ∧ language D chain = union D chains

/-! ### How merging comes to its result -/

/-- The expression for some middles is merged from their groups or, if each middle is alone in
    its group, an alternation. -/
theorem cases_of_mergeMiddles {middles : List Chain} {e : String}
    (h : (mergeMiddles merge middles).outcome = .ok e) :
    ((∃ group ∈ groupByHead middles, 1 < group.chains.length) ∧
      ∃ inner, (mergeGroups merge (groupByHead middles)).outcome = .ok inner ∧
        (if middles.any List.isEmpty then makeOptional inner else pure inner).outcome = .ok e) ∨
    (∀ group ∈ groupByHead middles, group.chains.length ≤ 1) ∧
      (alternation (members (groupByHead middles)) (middles.any List.isEmpty)).outcome =
        .ok e := by
  unfold mergeMiddles at h
  simp only at h
  split at h
  · rename_i hany
    exact .inl ⟨by simpa using hany, Traced.outcome_bind_eq_ok_iff.1 h⟩
  · rename_i hany
    exact .inr ⟨by simpa using hany, h⟩

/-- One step leaves the shared front or, if there is something behind it, an expression for that
    between the shared ends. -/
theorem cases_of_mergeStep {chains : List Chain} {chain : Chain}
    (h : (mergeStep merge chains).outcome = .ok chain) :
    ((factor chains).middles.all List.isEmpty = true ∧ chain = (factor chains).front) ∨
    (¬ (factor chains).middles.all List.isEmpty = true ∧
      ∃ e, (mergeMiddles merge (factor chains).middles).outcome = .ok e ∧
        chain = (factor chains).front ++ e :: (factor chains).back) := by
  unfold mergeStep at h
  simp only at h
  split at h
  · rename_i hempty
    cases h
    exact .inl ⟨hempty, rfl⟩
  · rename_i hsome
    obtain ⟨e, he, hend⟩ := Traced.outcome_bind_eq_ok_iff.1 h
    cases hend
    exact .inr ⟨hsome, e, he, rfl⟩

/-- A single chain stands for itself, and several ones take a step. -/
theorem cases_of_mergeWithin {limit levels : Nat} {chains : List Chain} {chain : Chain}
    (hne : chains ≠ []) (h : (mergeWithin limit levels chains).outcome = .ok chain) :
    chains = [chain] ∨ ∃ fewer, levels = fewer + 1 ∧ 2 ≤ chains.length ∧
      (mergeStep (mergeWithin limit fewer) chains).outcome = .ok chain := by
  cases levels with
  | zero => cases h
  | succ fewer =>
    unfold mergeWithin at h
    split at h
    · rename_i hlength
      obtain ⟨only, rfl⟩ : ∃ only, chains = [only] := by
        apply List.length_eq_one_iff.1
        have hpos := List.length_pos_iff.2 hne
        omega
      cases h
      exact .inl rfl
    · exact .inr ⟨fewer, rfl, by omega, h⟩

/-! ### Merging parts -/

theorem mapM_spec {α : Type} {f : α → Traced Chain} {chainsOf : α → List Chain} {parts : List α}
    (hparts : ∀ part ∈ parts, ∀ chain, (f part).outcome = .ok chain →
      AllPieces F chain ∧ language D chain = union D (chainsOf part))
    {merged : List Chain} (h : (parts.mapM f).outcome = .ok merged) :
    (∀ c ∈ merged, AllPieces F c) ∧ merged.length = parts.length ∧
      union D merged = union D (parts.flatMap chainsOf) := by
  induction parts generalizing merged with
  | nil =>
    rw [Traced.outcome_mapM_nil.1 h]
    exact ⟨by simp, rfl, rfl⟩
  | cons part parts ih =>
    obtain ⟨chain, later, hchain, hlater, rfl⟩ := Traced.outcome_mapM_cons.1 h
    obtain ⟨hpart, hrest⟩ := List.forall_mem_cons.1 hparts
    obtain ⟨hpieces, hlanguage⟩ := hpart chain hchain
    obtain ⟨hall, hlength, hunion⟩ := ih hrest hlater
    refine ⟨List.forall_mem_cons.2 ⟨hpieces, hall⟩, by simp [hlength], ?_⟩
    rw [List.flatMap_cons, union_append, ← hunion, ← hlanguage, ← union_singleton,
      ← union_append, List.singleton_append]

/-- A tail that is shared is the tail of some chain. -/
theorem exists_endsIn_of_mem_sharedTails {chains : List Chain} {tail : String}
    (h : tail ∈ sharedTails chains) : ∃ chain ∈ chains, endsIn tail chain = true := by
  obtain ⟨hin, _⟩ := List.mem_filter.1 h
  obtain ⟨chain, hchain, htail⟩ := List.mem_filterMap.1 (List.mem_eraseDups.1 hin)
  exact ⟨chain, hchain, by simp [endsIn, htail]⟩

theorem two_le_length_of_mem_sharedTails {chains : List Chain} {tail : String}
    (h : tail ∈ sharedTails chains) : 2 ≤ (chains.filter (endsIn tail)).length := by
  rw [← List.countP_eq_length_filter]
  simpa using (List.mem_filter.1 h).2

theorem nodup_sharedTails (chains : List Chain) : (sharedTails chains).Nodup :=
  (nodup_eraseDups _).sublist List.filter_sublist

theorem mergeTails_spec (hmerge : Faithful F D merge) {chains result : List Chain}
    (hne : chains ≠ []) (hpieces : ∀ c ∈ chains, AllPieces F c)
    (h : (mergeTails merge chains).outcome = .ok result) :
    result ≠ [] ∧ (∀ c ∈ result, AllPieces F c) ∧ union D result = union D chains := by
  obtain ⟨merged, hmerged, hresult⟩ := Traced.outcome_bind_eq_ok_iff.1 h
  cases hresult
  have hparts : ∀ tail ∈ sharedTails chains, ∀ chain,
      (do
        let members := chains.filter (endsIn tail)
        Traced.note (.sharedTail members.length tail)
        merge members).outcome = .ok chain →
      AllPieces F chain ∧ language D chain = union D (chains.filter (endsIn tail)) := by
    intro tail htail chain hchain
    obtain ⟨c, hc, hends⟩ := exists_endsIn_of_mem_sharedTails htail
    exact hmerge _ _ (List.ne_nil_of_mem (List.mem_filter.2 ⟨hc, hends⟩))
      (fun c hc => hpieces c (List.mem_filter.1 hc).1) hchain
  obtain ⟨hall, hlength, hunion⟩ := mapM_spec hparts hmerged
  refine ⟨?_, ?_, ?_⟩
  · -- a chain that is gone has a shared tail, and then there is a merged chain
    intro hnil
    obtain ⟨hkept, hmergednil⟩ := List.append_eq_nil_iff.1 hnil
    rw [hmergednil, List.length_nil, eq_comm, List.length_eq_zero_iff] at hlength
    simp only [hlength, List.any_nil, Bool.not_false, List.filter_true] at hkept
    exact hne hkept
  · intro c hc
    rcases List.mem_append.1 hc with hkept | hin
    · exact hpieces c (List.mem_filter.1 hkept).1
    · exact hall c hin
  · rw [union_append, hunion, ← union_append]
    apply union_congr
    intro chain
    rw [List.mem_append, List.mem_filter, List.mem_flatMap]
    constructor
    · rintro (⟨hchain, _⟩ | ⟨tail, _, hchain⟩)
      · exact hchain
      · exact (List.mem_filter.1 hchain).1
    · intro hchain
      by_cases hany : (sharedTails chains).any (endsIn · chain) = true
      · obtain ⟨tail, htail, hends⟩ := List.any_eq_true.1 hany
        exact .inr ⟨tail, htail, List.mem_filter.2 ⟨hchain, hends⟩⟩
      · exact .inl ⟨hchain, by simpa using hany⟩

/-! ### One step of merging -/

theorem mergeGroups_spec (hF : F.Closed) (hmerge : Faithful F D merge) {groups : List Group}
    (hgroups : Grouped groups) (hne : groups ≠ [])
    (hpieces : ∀ chain ∈ members groups, AllPieces F chain) {e : String}
    (h : (mergeGroups merge groups).outcome = .ok e) :
    IsPiece F e ∧ atomLanguage D e = union D (members groups) := by
  obtain ⟨hfoldne, hchainsne, hfoldpieces, hfold⟩ :=
    hgroups.foldSingleSymbols_spec (D := D) hF hne hpieces
  obtain ⟨merged, hmerged, h⟩ := Traced.outcome_bind_eq_ok_iff.1 h
  obtain ⟨remaining, hremaining, h⟩ := Traced.outcome_bind_eq_ok_iff.1 h
  obtain ⟨chain, hchain, h⟩ := Traced.outcome_bind_eq_ok_iff.1 h
  cases h
  have hparts : ∀ group ∈ foldSingleSymbols groups, ∀ chain,
      (merge group.chains).outcome = .ok chain →
        AllPieces F chain ∧ language D chain = union D group.chains := by
    intro group hgroup chain hchain
    apply hmerge _ _ (hchainsne group hgroup) _ hchain
    intro c hc
    exact hfoldpieces c (mem_members.2 ⟨group, hgroup, hc⟩)
  obtain ⟨hall, hlength, hunion⟩ := mapM_spec hparts hmerged
  have hmergedne : merged ≠ [] := by
    rintro rfl
    exact hfoldne (List.length_eq_zero_iff.1 hlength.symm)
  obtain ⟨hremainingne, hremainingall, hremainingunion⟩ :=
    mergeTails_spec hmerge hmergedne hall hremaining
  obtain ⟨hchainpieces, hlanguage⟩ := hmerge _ _ hremainingne hremainingall hchain
  obtain ⟨hpiece, hjoin⟩ := join_spec (D := D) hF hchainpieces
  refine ⟨hpiece, ?_⟩
  calc atomLanguage D (join chain) = language D chain := hjoin
    _ = union D remaining := hlanguage
    _ = union D merged := hremainingunion
    _ = union D (members (foldSingleSymbols groups)) := hunion
    _ = union D (members groups) := hfold

theorem mergeMiddles_spec (hF : F.Closed) (hmerge : Faithful F D merge) {middles : List Chain}
    (hne : ¬ middles.all List.isEmpty = true) (hpieces : ∀ c ∈ middles, AllPieces F c)
    {e : String} (h : (mergeMiddles merge middles).outcome = .ok e) :
    IsPiece F e ∧ atomLanguage D e = union D middles := by
  have hmembers : ∀ chain ∈ members (groupByHead middles), AllPieces F chain :=
    fun chain hchain => hpieces chain (mem_members_groupByHead.1 hchain).1
  have hunion : ∀ w, w ∈ union D middles ↔
      (middles.any List.isEmpty = true ∧ w = []) ∨
        w ∈ union D (members (groupByHead middles)) := by
    intro w
    rw [mem_union_iff, mem_union]
    simp only [mem_members_groupByHead, and_assoc]
  have hmembersne := members_groupByHead_ne_nil hne
  have hgroupsne : groupByHead middles ≠ [] := by
    intro hnil
    rw [hnil] at hmembersne
    exact hmembersne rfl
  rcases cases_of_mergeMiddles h with ⟨_, inner, hinner, h⟩ | ⟨_, h⟩
  · obtain ⟨hpiece, hlanguage⟩ := mergeGroups_spec hF hmerge (grouped_groupByHead middles)
      hgroupsne hmembers hinner
    split at h
    · rename_i hoptional
      obtain ⟨e', houtcome, hpiece', hlanguage'⟩ := makeOptional_spec (D := D) hF hpiece
      cases houtcome.symm.trans h
      refine ⟨hpiece', ?_⟩
      ext w
      rw [hunion, hlanguage', hlanguage, Language.mem_add, Language.mem_one]
      simp only [hoptional, true_and]
    · rename_i hoptional
      cases h
      refine ⟨hpiece, ?_⟩
      ext w
      rw [hunion, hlanguage]
      simp only [hoptional, false_and, false_or, Bool.false_eq_true]
  · obtain ⟨e', houtcome, hpiece, hlanguage⟩ :=
      alternation_spec (D := D) hF hmembersne hmembers (middles.any List.isEmpty)
    cases houtcome.symm.trans h
    refine ⟨hpiece, ?_⟩
    ext w
    rw [hunion, hlanguage]

theorem allPieces_factor {chains : List Chain} (hne : chains ≠ [])
    (hpieces : ∀ c ∈ chains, AllPieces F c) :
    AllPieces F (factor chains).front ∧ AllPieces F (factor chains).back ∧
      ∀ middle ∈ (factor chains).middles, AllPieces F middle := by
  have haround : ∀ middle ∈ (factor chains).middles,
      AllPieces F ((factor chains).front ++ middle ++ (factor chains).back) :=
    fun middle hmiddle => hpieces _ (around_mem_of_mem_middles hmiddle)
  obtain ⟨middle, hmiddle⟩ := List.exists_mem_of_ne_nil _ (middles_ne_nil hne)
  refine ⟨?_, ?_, ?_⟩
  · intro a ha
    exact haround middle hmiddle a (List.mem_append_left _ (List.mem_append_left _ ha))
  · intro a ha
    exact haround middle hmiddle a (List.mem_append_right _ ha)
  · intro m hm a ha
    exact haround m hm a (List.mem_append_left _ (List.mem_append_right _ ha))

/-- One step is faithful if merging the parts is. -/
theorem Faithful.mergeStep (hF : F.Closed) (hmerge : Faithful F D merge) :
    Faithful F D (mergeStep merge) := by
  intro chains chain hne hpieces h
  obtain ⟨hfront, hback, hmiddles⟩ := allPieces_factor hne hpieces
  have hunion : union D chains = language D (factor chains).front *
      union D (factor chains).middles * language D (factor chains).back := by
    rw [← union_map_around, map_middles_factor]
  rcases cases_of_mergeStep h with ⟨hempty, rfl⟩ | ⟨hsome, e, he, rfl⟩
  · refine ⟨hfront, ?_⟩
    have hone : union D (factor chains).middles = 1 :=
      union_eq_one (middles_ne_nil hne) fun middle hmiddle =>
        List.isEmpty_iff.1 (List.all_eq_true.1 hempty middle hmiddle)
    rw [hunion, back_eq_nil_of_middles hne hempty, hone, language_nil, mul_one, mul_one]
  · obtain ⟨hpiece, hlanguage⟩ := mergeMiddles_spec hF hmerge hsome hmiddles he
    refine ⟨?_, ?_⟩
    · intro a ha
      rcases List.mem_append.1 ha with hin | hin
      · exact hfront a hin
      · rcases List.mem_cons.1 hin with rfl | hin
        · exact hpiece
        · exact hback a hin
    · rw [language_append, language_cons, hlanguage, hunion, mul_assoc]

/-! ### Merging -/

/-- **Merging with any number of levels is faithful.** -/
theorem faithful_mergeWithin (hF : F.Closed) (limit levels : Nat) :
    Faithful F D (mergeWithin limit levels) := by
  induction levels with
  | zero =>
    intro chains chain _ _ h
    cases h
  | succ levels ih =>
    intro chains chain hne hpieces h
    rcases cases_of_mergeWithin hne h with rfl | ⟨fewer, heq, _, hstep⟩
    · exact ⟨hpieces chain (List.mem_singleton_self chain), (union_singleton chain).symm⟩
    · cases heq
      exact ih.mergeStep hF chains chain hne hpieces hstep

theorem exists_tree_of_merge (hF : F.Closed) {limit : Nat} {chains : List Chain} {chain : Chain}
    (hne : chains ≠ []) (hpieces : ∀ c ∈ chains, AllPieces F c)
    (h : (Chain.merge limit chains).outcome = .ok chain) :
    ∃ r, Within F r ∧ r.IsSequence ∧ r.text = (join chain).toList ∧
      ∀ D, Regular.language D r = union D chains := by
  have hfaithful : ∀ D, AllPieces F chain ∧ language D chain = union D chains :=
    fun D => faithful_mergeWithin hF limit (limit + 1) chains chain hne hpieces h
  have hchain : AllPieces F chain := (hfaithful ⟨fun _ => True, fun _ _ => True⟩).1
  obtain ⟨r, hr, hseq, htext⟩ := (join_spec (D := ⟨fun _ => True, fun _ _ => True⟩) hF hchain).1
  refine ⟨r, hr, hseq, htext, ?_⟩
  intro D
  calc Regular.language D r = atomLanguage D (join chain) := (atomLanguage_eq hF hr htext).symm
    _ = language D chain := (join_spec hF hchain).2
    _ = union D chains := (hfaithful D).2

/-- **Merging chains of regular expressions preserves their language.**  The atoms may be any
    expressions without a bar of their own; the merged chain spells exactly one expression,
    and that matches what one of the chains matches. -/
theorem language_merge {limit : Nat} {chains : List Chain} {chain : Chain} (hne : chains ≠ [])
    (hatoms : ∀ c ∈ chains, ∀ a ∈ c, ∃ r, read a.toList = some r ∧ r.IsSequence)
    (h : (Chain.merge limit chains).outcome = .ok chain) :
    ∃ r, read (join chain).toList = some r ∧
      ∀ D w, w ∈ Regular.language D r ↔
        ∃ c ∈ chains, w ∈ (c.map fun a => textLanguage D a.toList).prod := by
  have hpieces : ∀ c ∈ chains, AllPieces .full c := by
    intro c hc a ha
    obtain ⟨r, hread, hseq⟩ := hatoms c hc a ha
    obtain ⟨hr, htext⟩ := read_eq_some_iff.1 hread
    exact ⟨r, hr, hseq, htext⟩
  obtain ⟨r, hr, _, htext, hlanguage⟩ :=
    exists_tree_of_merge Fragment.full_closed hne hpieces h
  refine ⟨r, read_eq_some_iff.2 ⟨hr, htext⟩, ?_⟩
  intro D w
  rw [hlanguage]
  exact Iff.rfl

/-- Two symbols fold into a class that is the head of other chains already. -/
theorem language_merge_class_and_head :
    (Chain.merge 256 [["[bc]", "x*?"], ["[bc]"], ["b"], ["c"]]).outcome =
      .ok ["[bc](?:x*?)?"] ∧
    ∃ r, read (join ["[bc](?:x*?)?"]).toList = some r ∧
      ∀ D w, w ∈ Regular.language D r ↔
        ∃ c ∈ [["[bc]", "x*?"], ["[bc]"], ["b"], ["c"]],
          w ∈ (c.map fun a => textLanguage D a.toList).prod := by
  have hrun : (Chain.merge 256 [["[bc]", "x*?"], ["[bc]"], ["b"], ["c"]]).outcome =
      .ok ["[bc](?:x*?)?"] := by decide +kernel
  refine ⟨hrun, language_merge (List.cons_ne_nil _ _) ?_ hrun⟩
  have hclass : ∃ r, read "[bc]".toList = some r ∧ r.IsSequence :=
    ⟨.unit (.bracket ['b', 'c']) none .done, by decide +kernel, trivial⟩
  have hlazy : ∃ r, read "x*?".toList = some r ∧ r.IsSequence :=
    ⟨.unit (.char 'x') (some ⟨.star, .lazy⟩) .done, by decide +kernel, trivial⟩
  have hb : ∃ r, read "b".toList = some r ∧ r.IsSequence :=
    ⟨.unit (.char 'b') none .done, by decide +kernel, trivial⟩
  have hc : ∃ r, read "c".toList = some r ∧ r.IsSequence :=
    ⟨.unit (.char 'c') none .done, by decide +kernel, trivial⟩
  simp only [List.forall_mem_cons, List.not_mem_nil, false_implies, implies_true, and_true]
  exact ⟨⟨hclass, hlazy⟩, hclass, hb, hc⟩

end RegexText.Chain
