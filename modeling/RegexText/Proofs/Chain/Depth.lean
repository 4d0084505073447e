/-
  RegexText/Proofs/Chain/Depth.lean
  =================================
  **Merging goes no deeper than there are chains.**

  Merging uses itself on the chains of a group, on chains that share a tail, and
  on the results of both.  Each time there are fewer chains than before, whatever
  their atoms are:

  * the front that is taken off is the longest one, so that the middles do not all
    start alike and no group holds them all;
  * at least two chains vanish into a class, and only one comes back, also when
    that one joins a group which starts with the same class already;
  * each group gives one result, and merging goes on only if a group holds more
    than one chain.

  The limit decides whether there is an answer, and never which.
-/
import RegexText.Proofs.Chain.Factor
import RegexText.Proofs.Chain.Groups
import RegexText.Proofs.Chain.Merge
import RegexText.Proofs.Traced

namespace RegexText.Chain

open Text Regular Traced

variable {merge merge' : List Chain → Traced Chain}

/-! ### The limit does not choose the answer -/

section Limit

variable {e : PatternError}

theorem givesUp_mergeTails (h : ∀ chains, GivesUp e (merge chains) (merge' chains))
    (chains : List Chain) : GivesUp e (mergeTails merge chains) (mergeTails merge' chains) := by
  apply GivesUp.bind
  · apply GivesUp.mapM
    intro tail
    exact GivesUp.bind (.refl _) fun _ => h _
  · intro merged
    exact .refl _

theorem givesUp_mergeGroups (h : ∀ chains, GivesUp e (merge chains) (merge' chains))
    (groups : List Group) : GivesUp e (mergeGroups merge groups) (mergeGroups merge' groups) := by
  apply GivesUp.bind
  · exact GivesUp.mapM (fun group : Group => h group.chains) _
  · intro merged
    apply GivesUp.bind (givesUp_mergeTails h merged)
    intro remaining
    exact GivesUp.bind (h remaining) fun _ => .refl _

theorem givesUp_mergeMiddles (h : ∀ chains, GivesUp e (merge chains) (merge' chains))
    (middles : List Chain) :
    GivesUp e (mergeMiddles merge middles) (mergeMiddles merge' middles) := by
  unfold mergeMiddles
  simp only
  split
  · exact GivesUp.bind (givesUp_mergeGroups h _) fun _ => .refl _
  · exact .refl _

theorem givesUp_mergeStep (h : ∀ chains, GivesUp e (merge chains) (merge' chains))
    (chains : List Chain) : GivesUp e (mergeStep merge chains) (mergeStep merge' chains) := by
  unfold mergeStep
  simp only
  split
  · exact .refl _
  · exact GivesUp.bind (givesUp_mergeMiddles h _) fun _ => .refl _

/-- With fewer levels merging comes to the same, or runs out of them. -/
theorem givesUp_mergeWithin {levels levels' : Nat} (hle : levels ≤ levels')
    (limit limit' : Nat) (chains : List Chain) :
    GivesUp (.recursionLimit limit) (mergeWithin limit levels chains)
      (mergeWithin limit' levels' chains) := by
  induction levels generalizing levels' chains with
  | zero => exact .inl rfl
  | succ levels ih =>
    obtain ⟨more, rfl⟩ : ∃ more, levels' = more + 1 := ⟨levels' - 1, by omega⟩
    unfold mergeWithin
    split
    · exact .refl _
    · -- the notes differ in the depth that they tell, which is no part of the outcome
      have hnote : ∀ event event', GivesUp (.recursionLimit limit)
          (Traced.note event) (Traced.note event') := fun _ _ => .inr rfl
      exact GivesUp.bind (hnote _ _) fun _ =>
        givesUp_mergeStep (fun smaller => ih (by omega) smaller) chains

end Limit

/-! ### Success of a step from the success of its parts -/

theorem succeeds_makeOptional (e : String) : (makeOptional e).Succeeds := by
  obtain ⟨b, hb⟩ := exists_outcome_isAtomic e
  refine succeeds_bind_iff.2 ⟨b, hb, ?_⟩
  cases b <;> exact succeeds_pure _

theorem succeeds_alternation (chains : List Chain) (optional : Bool) :
    (alternation chains optional).Succeeds := by
  have hfinished : ∀ e : String, (if optional || chains.any List.isEmpty then makeOptional e
      else (pure e : Traced String)).Succeeds := by
    intro e
    split
    · exact succeeds_makeOptional e
    · exact succeeds_pure e
  unfold alternation
  split
  · exact succeeds_pure _
  · exact hfinished _
  · exact hfinished _

theorem succeeds_mergeTails {chains : List Chain}
    (h : ∀ tail ∈ sharedTails chains, (merge (chains.filter (endsIn tail))).Succeeds) :
    (mergeTails merge chains).Succeeds := by
  have hparts : ((sharedTails chains).mapM fun tail => do
      let members := chains.filter (endsIn tail)
      Traced.note (.sharedTail members.length tail)
      merge members).Succeeds :=
    succeeds_mapM fun tail htail => succeeds_bind_iff.2 ⟨(), rfl, h tail htail⟩
  obtain ⟨merged, hmerged⟩ := hparts
  exact succeeds_bind_iff.2 ⟨merged, hmerged, succeeds_pure _⟩

theorem succeeds_mergeGroups {groups : List Group}
    (hgroups : ∀ group ∈ foldSingleSymbols groups, (merge group.chains).Succeeds)
    (hrest : ∀ merged,
      ((foldSingleSymbols groups).mapM fun group => merge group.chains).outcome = .ok merged →
        (mergeTails merge merged).Succeeds ∧
          ∀ remaining, (mergeTails merge merged).outcome = .ok remaining →
            (merge remaining).Succeeds) :
    (mergeGroups merge groups).Succeeds := by
  obtain ⟨merged, hmerged⟩ := succeeds_mapM hgroups
  obtain ⟨⟨remaining, hremaining⟩, hlast⟩ := hrest merged hmerged
  obtain ⟨chain, hchain⟩ := hlast remaining hremaining
  exact succeeds_bind_iff.2 ⟨merged, hmerged, succeeds_bind_iff.2
    ⟨remaining, hremaining, succeeds_bind_iff.2 ⟨chain, hchain, succeeds_pure _⟩⟩⟩

theorem succeeds_mergeMiddles {middles : List Chain}
    (h : (∃ group ∈ groupByHead middles, 1 < group.chains.length) →
      (mergeGroups merge (groupByHead middles)).Succeeds) :
    (mergeMiddles merge middles).Succeeds := by
  unfold mergeMiddles
  simp only
  split
  · rename_i hany
    obtain ⟨e, he⟩ := h (by simpa using hany)
    refine succeeds_bind_iff.2 ⟨e, he, ?_⟩
    split
    · exact succeeds_makeOptional e
    · exact succeeds_pure e
  · exact succeeds_alternation _ _

theorem succeeds_mergeStep {chains : List Chain}
    (h : (∃ group ∈ groupByHead (factor chains).middles, 1 < group.chains.length) →
      (mergeGroups merge (groupByHead (factor chains).middles)).Succeeds) :
    (mergeStep merge chains).Succeeds := by
  unfold mergeStep
  simp only
  split
  · exact succeeds_pure _
  · obtain ⟨e, he⟩ := succeeds_mergeMiddles h
    exact succeeds_bind_iff.2 ⟨e, he, succeeds_pure _⟩

/-- A list of fewer than two chains needs one level. -/
theorem succeeds_mergeWithin_of_length_lt_two {levels : Nat} (hlevels : 0 < levels)
    {chains : List Chain} (h : chains.length < 2) (limit : Nat) :
    (mergeWithin limit levels chains).Succeeds := by
  obtain ⟨levels, rfl⟩ : ∃ fewer, levels = fewer + 1 := ⟨levels - 1, by omega⟩
  unfold mergeWithin
  rw [if_pos h]
  exact succeeds_pure _

theorem succeeds_mergeWithin_succ {levels : Nat} {chains : List Chain} {limit : Nat}
    (h : 2 ≤ chains.length → (mergeStep (mergeWithin limit levels) chains).Succeeds) :
    (mergeWithin limit (levels + 1) chains).Succeeds := by
  unfold mergeWithin
  split
  · exact succeeds_pure _
  · exact succeeds_bind_iff.2 ⟨(), rfl, h (by omega)⟩

/-! ### Counting chains -/

/-- Of chains that are sorted by their first atoms each one is counted once. -/
theorem length_flatMap_filter_head_le {heads : List String} (hheads : heads.Nodup)
    (chains : List Chain) :
    (heads.flatMap fun head => chains.filter fun chain => chain.head? = some head).length ≤
      chains.length := by
  induction heads generalizing chains with
  | nil => exact Nat.zero_le _
  | cons head heads ih =>
    obtain ⟨hhead, hheads⟩ := List.nodup_cons.1 hheads
    have hothers : (heads.flatMap fun other => chains.filter fun chain =>
          chain.head? = some other) =
        heads.flatMap fun other => (chains.filter fun chain => !(chain.head? = some head)).filter
          fun chain => chain.head? = some other := by
      rw [List.flatMap_def, List.flatMap_def]
      congr 1
      apply List.map_congr_left
      intro other hother
      rw [List.filter_filter]
      apply List.filter_congr
      intro chain _
      have hne : other ≠ head := fun heq => hhead (heq ▸ hother)
      by_cases hchain : chain.head? = some other
      · simp [hchain, hne]
      · simp [hchain]
    have hsplit := List.length_eq_length_filter_add (l := chains)
      fun chain => decide (chain.head? = some head)
    have hrest := ih hheads (chains.filter fun chain => !(chain.head? = some head))
    rw [List.flatMap_cons, List.length_append, hothers]
    omega

theorem length_members_groupByHead_le (chains : List Chain) :
    (members (groupByHead chains)).length ≤ chains.length := by
  have hle := length_flatMap_filter_head_le
    (nodup_eraseDups (chains.filterMap List.head?)) chains
  simpa [members, groupByHead, List.flatMap_map] using hle

theorem length_chains_le_of_mem {groups : List Group} {group : Group} (h : group ∈ groups) :
    group.chains.length ≤ (members groups).length := by
  obtain ⟨before, after, rfl⟩ := List.append_of_mem h
  simp only [members, List.flatMap_append, List.flatMap_cons, List.length_append]
  omega

theorem length_le_length_members {groups : List Group}
    (hne : ∀ group ∈ groups, group.chains ≠ []) : groups.length ≤ (members groups).length := by
  induction groups with
  | nil => exact Nat.zero_le _
  | cons group groups ih =>
    obtain ⟨hgroup, hgroups⟩ := List.forall_mem_cons.1 hne
    have hpos := List.length_pos_iff.2 hgroup
    have hlater := ih hgroups
    simp only [members, List.flatMap_cons, List.length_append, List.length_cons] at hlater ⊢
    omega

/-- A group of several chains leaves fewer groups than chains. -/
theorem length_lt_length_members {groups : List Group}
    (hne : ∀ group ∈ groups, group.chains ≠ []) {group : Group} (hgroup : group ∈ groups)
    (hseveral : 1 < group.chains.length) : groups.length < (members groups).length := by
  obtain ⟨before, after, rfl⟩ := List.append_of_mem hgroup
  have hbefore := length_le_length_members fun other hother =>
    hne other (List.mem_append_left _ hother)
  have hafter := length_le_length_members fun other hother =>
    hne other (List.mem_append_right _ (List.mem_cons_of_mem _ hother))
  simp only [members, List.flatMap_append, List.flatMap_cons, List.length_append,
    List.length_cons] at hbefore hafter ⊢
  omega

/-- Folded groups are no larger than the others and the class, and there are no more. -/
theorem Grouped.length_singles_add {groups : List Group} (h : Grouped groups) :
    (singles groups).length + (members (others groups)).length ≤ (members groups).length := by
  have hothers : others groups = groups.filter fun group => !isSingleSymbol group := by
    apply List.filter_congr
    intro group hgroup
    have hiff := h.mem_singles hgroup
    by_cases hsingle : isSingleSymbol group = true
    · simp [hsingle, hiff.2 hsingle]
    · simp [hsingle, mt hiff.1 hsingle]
  have hsplit : ∀ groups : List Group, (groups.filter isSingleSymbol).length +
      (members (groups.filter fun group => !isSingleSymbol group)).length ≤
        (members groups).length := by
    intro groups
    induction groups with
    | nil => exact Nat.le_refl _
    | cons group groups ih =>
      by_cases hsingle : isSingleSymbol group = true
      · have hone : group.chains.length = 1 := by
          unfold isSingleSymbol at hsingle
          split at hsingle
          · rename_i x hchains
            rw [hchains]
            rfl
          · cases hsingle
        simp only [members, List.filter_cons, hsingle, if_true, Bool.not_true, List.flatMap_cons,
          List.length_cons, List.length_append, hone, Bool.false_eq_true, if_false] at ih ⊢
        omega
      · simp only [members, List.filter_cons, hsingle, Bool.not_false, if_true, List.flatMap_cons,
          List.length_append, if_false, Bool.false_eq_true] at ih ⊢
        omega
  rw [hothers, singles, List.length_map]
  exact hsplit groups

/-- Two symbols or more vanish into a class, and only its chain comes back. -/
theorem Grouped.length_foldSingleSymbols {groups : List Group} (h : Grouped groups) {n : Nat}
    (hmembers : (members groups).length ≤ n) (hlength : groups.length < n)
    (hchains : ∀ group ∈ groups, group.chains.length < n) :
    (foldSingleSymbols groups).length < n ∧
      ∀ group ∈ foldSingleSymbols groups, group.chains.length < n := by
  by_cases hfew : (singles groups).length < 2
  · have hsame : foldSingleSymbols groups = groups := if_pos hfew
    rw [hsame]
    exact ⟨hlength, hchains⟩
  · have hcount := h.length_singles_add
    have hothers := length_le_length_members h.rest.nonempty
    rw [foldSingleSymbols_of_le (by omega)]
    constructor
    · have hkept := (others groups).length_filter_le fun group =>
        group.head != Symbol.characterClass (sortDistinct (singles groups))
      rw [List.length_cons]
      omega
    · intro group hgroup
      rcases List.mem_cons.1 hgroup with rfl | hgroup
      · have hjoined : ((((others groups).find? fun group =>
            group.head == Symbol.characterClass (sortDistinct (singles groups))).map
              Group.chains).getD []).length ≤ (members (others groups)).length := by
          cases hfind : (others groups).find? fun group =>
              group.head == Symbol.characterClass (sortDistinct (singles groups)) with
          | none => exact Nat.zero_le _
          | some group => exact length_chains_le_of_mem (List.mem_of_find?_eq_some hfind)
        rw [List.length_append, List.length_singleton]
        omega
      · have hle := length_chains_le_of_mem (List.mem_filter.1 hgroup).1
        omega

/-! ### The groups of middles -/

/-- No group holds the middles of all chains. -/
theorem length_chains_groupByHead_lt {chains : List Chain} (hne : chains ≠ []) {group : Group}
    (h : group ∈ groupByHead (factor chains).middles) : group.chains.length < chains.length := by
  obtain ⟨head, _, rfl⟩ := List.mem_map.1 h
  rw [← length_middles chains]
  apply List.length_filter_lt_length_iff_exists.2
  by_contra hall
  push Not at hall
  exact not_forall_head_middles hne head fun middle hmiddle => by simpa using hall middle hmiddle

/-! ### Tails -/

/-- Chains that share a tail leave one chain behind. -/
theorem length_le_of_mergeTails {chains remaining : List Chain}
    (h : (mergeTails merge chains).outcome = .ok remaining) :
    remaining.length ≤ chains.length := by
  obtain ⟨merged, hmerged, hremaining⟩ := outcome_bind_eq_ok_iff.1 h
  cases hremaining
  have htails : (sharedTails chains).length ≤
      (chains.filter fun chain => (sharedTails chains).any (endsIn · chain)).length := by
    have hnodup : ((sharedTails chains).map some).Nodup :=
      (nodup_sharedTails chains).map (Option.some_injective _)
    have hsubset : (sharedTails chains).map some ⊆
        (chains.filter fun chain => (sharedTails chains).any (endsIn · chain)).map tail? := by
      intro found hfound
      obtain ⟨tail, htail, rfl⟩ := List.mem_map.1 hfound
      obtain ⟨chain, hchain, hends⟩ := exists_endsIn_of_mem_sharedTails htail
      refine List.mem_map.2 ⟨chain, List.mem_filter.2 ⟨hchain, ?_⟩, ?_⟩
      · exact List.any_eq_true.2 ⟨tail, htail, hends⟩
      · simpa [endsIn] using hends
    have hle := (List.subperm_of_subset hnodup hsubset).length_le
    rwa [List.length_map, List.length_map] at hle
  have hsplit := List.length_eq_length_filter_add (l := chains)
    fun chain => (sharedTails chains).any (endsIn · chain)
  have hlength := length_of_outcome_mapM hmerged
  rw [List.length_append]
  omega

/-! ### Levels and chains -/

/-- As many levels as there are chains are enough for merging. -/
theorem succeeds_mergeWithin_of_length_le (limit : Nat) {levels : Nat} {chains : List Chain}
    (hlevels : 0 < levels) (h : chains.length ≤ levels) :
    (mergeWithin limit levels chains).Succeeds := by
  induction levels generalizing chains with
  | zero => exact absurd hlevels (Nat.lt_irrefl 0)
  | succ levels ih =>
    apply succeeds_mergeWithin_succ
    intro htwo
    have hsmaller : ∀ {smaller : List Chain}, smaller.length < chains.length →
        (mergeWithin limit levels smaller).Succeeds := fun hlt => ih (by omega) (by omega)
    apply succeeds_mergeStep
    rintro ⟨several, hseveral, hmany⟩
    have hne : chains ≠ [] := List.ne_nil_of_length_pos (by omega)
    have hgroups := grouped_groupByHead (factor chains).middles
    have hmembers : (members (groupByHead (factor chains).middles)).length ≤ chains.length := by
      rw [← length_middles chains]
      exact length_members_groupByHead_le _
    have hcount := length_lt_length_members hgroups.nonempty hseveral hmany
    obtain ⟨hfolded, hchains⟩ := hgroups.length_foldSingleSymbols hmembers (by omega)
      fun group hgroup => length_chains_groupByHead_lt hne hgroup
    apply succeeds_mergeGroups
    · intro group hgroup
      exact hsmaller (hchains group hgroup)
    · intro merged hmerged
      have hlength := length_of_outcome_mapM hmerged
      constructor
      · apply succeeds_mergeTails
        intro tail _
        have hle := merged.length_filter_le (endsIn tail)
        exact hsmaller (by omega)
      · intro remaining hremaining
        have hle := length_le_of_mergeTails hremaining
        exact hsmaller (by omega)

/-- Merging fails in no other way than by exceeding its limit. -/
theorem failsOnly_merge (limit : Nat) (chains : List Chain) :
    (Chain.merge limit chains).FailsOnly (· = .recursionLimit limit) := by
  obtain ⟨chain, hchain⟩ := succeeds_mergeWithin_of_length_le limit
    (Nat.succ_pos (limit + chains.length)) (Nat.le_succ_of_le (Nat.le_add_left _ limit))
  have hle : limit + 1 ≤ limit + chains.length + 1 := by omega
  intro e he
  rcases givesUp_mergeWithin hle limit limit chains with herror | hsame
  · exact (Except.error.inj (he.symm.trans herror))
  · cases he.symm.trans (hsame.trans hchain)

/-- **Merging goes no deeper than there are chains, and the limit never changes the answer.**
    Any chains have one merged chain.  Under every limit that is what merging comes to, unless
    the limit is exceeded, and it is exceeded only if it is less than the number of chains by
    two or more. -/
theorem exists_outcome_merge_or_recursionLimit (chains : List Chain) :
    ∃ chain, ∀ limit, (Chain.merge limit chains).outcome = .ok chain ∨
      (limit + 1 < chains.length ∧
        (Chain.merge limit chains).outcome = .error (.recursionLimit limit)) := by
  obtain ⟨chain, hchain⟩ := succeeds_mergeWithin_of_length_le 0 (Nat.succ_pos chains.length)
    (Nat.le_succ chains.length)
  refine ⟨chain, ?_⟩
  intro limit
  rcases Nat.le_total (limit + 1) (chains.length + 1) with hfewer | hmore
  · rcases givesUp_mergeWithin hfewer limit 0 chains with herror | hsame
    · refine .inr ⟨?_, herror⟩
      by_contra henough
      obtain ⟨other, hother⟩ := succeeds_mergeWithin_of_length_le limit (Nat.succ_pos limit)
        (Nat.not_lt.1 henough)
      cases herror.symm.trans hother
    · exact .inl (hsame.trans hchain)
  · rcases givesUp_mergeWithin hmore 0 limit chains with herror | hsame
    · cases herror.symm.trans hchain
    · exact .inl (hsame.symm.trans hchain)

end RegexText.Chain
