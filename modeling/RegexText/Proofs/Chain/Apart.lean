/-
  RegexText/Proofs/Chain/Apart.lean
  =================================
  **Chains whose first atoms differ are merged at once.**

  Merging uses itself only for chains that start alike.  The chains of a group
  start with its head, and so does what they are merged into; the heads differ,
  so when the results are merged there is nothing left to branch on.

  In between the results that share a tail are merged by their heads, and a new
  head comes up.  That it differs from the other heads is seen from what it
  matches: the heads match something, each of them something else, and the new
  one matches what the heads that it replaces have matched.
-/
import Mathlib.Data.List.Pairwise
import RegexText.Proofs.Chain.Depth

namespace RegexText.Chain

open Text Regular Traced

variable {F : Fragment} {D : Dialect} {merge : List Chain → Traced Chain}

/-! ### Different heads -/

/-- Do no two of some chains start with the same atom? -/
def DistinctHeads (chains : List Chain) : Prop :=
  chains.Pairwise fun a b => ∀ head, a.head? = some head → b.head? ≠ some head

theorem DistinctHeads.sublist {as bs : List Chain} (h : DistinctHeads bs) (hsub : as.Sublist bs) :
    DistinctHeads as := List.Pairwise.sublist hsub h

/-- Chains that start alike, though their heads differ, are one chain. -/
theorem DistinctHeads.length_le_one {chains : List Chain} (h : DistinctHeads chains)
    {head : String} (hhead : ∀ chain ∈ chains, chain.head? = some head) :
    chains.length ≤ 1 := by
  match chains with
  | [] => exact Nat.zero_le 1
  | [_] => exact Nat.le_refl 1
  | a :: b :: later =>
    have hab := (List.pairwise_cons.1 h).1 b (List.mem_cons_self ..) head
      (hhead a (List.mem_cons_self ..))
    exact absurd (hhead b (List.mem_cons_of_mem _ (List.mem_cons_self ..))) hab

theorem DistinctHeads.length_chains_le_one {chains : List Chain} (h : DistinctHeads chains)
    {group : Group} (hgroup : group ∈ groupByHead chains) : group.chains.length ≤ 1 := by
  have hstarts := (grouped_groupByHead chains).starts group hgroup
  obtain ⟨head, _, rfl⟩ := List.mem_map.1 hgroup
  exact (h.sublist List.filter_sublist).length_le_one hstarts

theorem DistinctHeads.sharedFront_eq_nil {chains : List Chain} (h : DistinctHeads chains)
    (htwo : 2 ≤ chains.length) : sharedFront chains = [] := by
  cases hfront : sharedFront chains with
  | nil => rfl
  | cons head front =>
    have hle : chains.length ≤ 1 := by
      apply h.length_le_one
      intro chain hchain
      obtain ⟨later, rfl⟩ := hfront ▸ isPrefix_sharedFront hchain
      exact (rfl : _ = some head)
    omega

/-- Taking a shared back off makes no two heads equal. -/
theorem DistinctHeads.middles {chains : List Chain} (h : DistinctHeads chains)
    (htwo : 2 ≤ chains.length) : DistinctHeads (factor chains).middles := by
  have hmiddles : (factor chains).middles =
      chains.map fun chain => chain.take (chain.length - (factor chains).back.length) := by
    simp [factor, h.sharedFront_eq_nil htwo]
  have hhead : ∀ {chain : Chain} {n : Nat} {head : String}, (chain.take n).head? = some head →
      chain.head? = some head := by
    intro chain n head hhead
    obtain ⟨later, hlater⟩ := List.head?_eq_some_iff.1 hhead
    have hprefix := List.take_prefix n chain
    rw [hlater] at hprefix
    obtain ⟨more, rfl⟩ := hprefix
    rfl
  rw [hmiddles]
  apply List.pairwise_map.2
  apply h.imp
  intro a b hab head ha hb
  exact hab head (hhead ha) (hhead hb)

/-- Chains whose heads differ need one level. -/
theorem DistinctHeads.succeeds_mergeWithin {chains : List Chain} (h : DistinctHeads chains)
    {levels : Nat} (hlevels : 0 < levels) (limit : Nat) :
    (mergeWithin limit levels chains).Succeeds := by
  obtain ⟨levels, rfl⟩ : ∃ fewer, levels = fewer + 1 := ⟨levels - 1, by omega⟩
  apply succeeds_mergeWithin_succ
  intro htwo
  apply succeeds_mergeStep
  rintro ⟨group, hgroup, hseveral⟩
  have hone := (h.middles htwo).length_chains_le_one hgroup
  omega

/-! ### The head of a merged chain -/

/-- What all chains start with is at the front of what they share. -/
theorem isPrefix_front_of_heads {chains : List Chain} {head : String} (hne : chains ≠ [])
    (hhead : ∀ c ∈ chains, c.head? = some head) : [head] <+: (factor chains).front := by
  apply isPrefix_sharedFront_of_forall hne
  intro c hc
  obtain ⟨later, rfl⟩ := List.head?_eq_some_iff.1 (hhead c hc)
  exact ⟨later, rfl⟩

theorem head_mergeStep {chains : List Chain} {chain : Chain} {head : String}
    (hne : chains ≠ []) (hhead : ∀ c ∈ chains, c.head? = some head)
    (h : (mergeStep merge chains).outcome = .ok chain) : chain.head? = some head := by
  obtain ⟨later, hfront⟩ := isPrefix_front_of_heads hne hhead
  rcases cases_of_mergeStep h with ⟨_, rfl⟩ | ⟨_, e, _, rfl⟩
  · rw [← hfront]
    rfl
  · rw [← hfront]
    rfl

/-- Chains that start alike are merged into one that starts so, too. -/
theorem head_mergeWithin {limit levels : Nat} {chains : List Chain} {chain : Chain}
    {head : String} (hne : chains ≠ []) (hhead : ∀ c ∈ chains, c.head? = some head)
    (h : (mergeWithin limit levels chains).outcome = .ok chain) : chain.head? = some head := by
  rcases cases_of_mergeWithin hne h with rfl | ⟨fewer, _, _, hstep⟩
  · exact hhead chain (List.mem_singleton_self chain)
  · exact head_mergeStep hne hhead hstep

/-! ### What heads match -/

/-- What the first atom of a chain matches. -/
def headLanguage (D : Dialect) (chain : Chain) : Language Char :=
  {w | ∃ head, chain.head? = some head ∧ w ∈ atomLanguage D head}

theorem mem_headLanguage_cons {a : String} {chain : Chain} {w : List Char} :
    w ∈ headLanguage D (a :: chain) ↔ w ∈ atomLanguage D a := by
  constructor
  · rintro ⟨head, hhead, hw⟩
    cases hhead
    exact hw
  · intro hw
    exact ⟨a, rfl, hw⟩

/-- Is there nothing that the first atoms of two chains both match? -/
def HeadsApart (D : Dialect) (a b : Chain) : Prop :=
  ∀ w ∈ headLanguage D a, w ∉ headLanguage D b

instance symmHeadsApart : Std.Symm (HeadsApart D) where
  symm _ _ hab w hwb hwa := hab w hwa hwb

/-- Chains whose first atoms match something, and nothing that another one matches. -/
structure Apart (D : Dialect) (chains : List Chain) : Prop where
  apart : chains.Pairwise (HeadsApart D)
  inhabited : ∀ chain ∈ chains, ∃ w, w ∈ headLanguage D chain

theorem Apart.distinctHeads {chains : List Chain} (h : Apart D chains) :
    DistinctHeads chains := by
  refine (List.Pairwise.and_mem.1 h.apart).imp ?_
  rintro a b ⟨ha, _, hab⟩ head hheadA hheadB
  obtain ⟨w, other, hother, hw⟩ := h.inhabited a ha
  cases hheadA.symm.trans hother
  exact hab w ⟨head, hheadA, hw⟩ ⟨head, hheadB, hw⟩

/-! ### Shared tails -/

theorem eq_pair_of_endsIn {tail : String} {chain : Chain} (h : endsIn tail chain = true) :
    ∃ first, chain = [first, tail] ∧ Symbol.isClassSafe first = true := by
  unfold endsIn tail? at h
  split at h
  · rename_i first last
    split_ifs at h with hsafe
    · have hlast : last = tail := by simpa using h
      exact ⟨first, by rw [hlast], hsafe⟩
    · cases h
  · cases h

/-- The chains of a shared tail are their heads and that tail. -/
theorem factor_of_endsIn {chains : List Chain} (h : DistinctHeads chains)
    (htwo : 2 ≤ chains.length) {tail : String} (htail : ∀ c ∈ chains, endsIn tail c = true) :
    factor chains = ⟨[], chains.map (·.take 1), [tail]⟩ := by
  have hne : chains ≠ [] := List.ne_nil_of_length_pos (by omega)
  have hlength : ∀ c ∈ chains, c.length = 2 := by
    intro c hc
    obtain ⟨first, rfl, _⟩ := eq_pair_of_endsIn (htail c hc)
    rfl
  have hback : sharedBack chains = [tail] := by
    have hprefix : [tail] <+: sharedFront (chains.map List.reverse) := by
      apply isPrefix_sharedFront_of_forall (by simpa using hne)
      intro reversed hreversed
      obtain ⟨c, hc, rfl⟩ := List.mem_map.1 hreversed
      obtain ⟨first, rfl, _⟩ := eq_pair_of_endsIn (htail c hc)
      exact ⟨[first], rfl⟩
    obtain ⟨more, hmore⟩ := hprefix
    rw [sharedBack, backBound_of_forall_length hne hlength, ← hmore]
    rfl
  have hmiddles : chains.map (fun c => c.take (c.length - 1)) = chains.map (·.take 1) := by
    apply List.map_congr_left
    intro c hc
    rw [hlength c hc]
  have hdrop : chains.map (fun c => c.drop 0) = chains := by simp
  simp only [factor, h.sharedFront_eq_nil htwo, List.length_nil, hdrop, hback,
    List.length_singleton, hmiddles]

/-- The chains of a shared tail become an expression for their heads, and that tail. -/
theorem exists_head_of_sharedTail {limit levels : Nat} {chains : List Chain}
    (h : DistinctHeads chains) (htwo : 2 ≤ chains.length) {tail : String}
    (htail : ∀ c ∈ chains, endsIn tail c = true) {chain : Chain}
    (hchain : (mergeWithin limit levels chains).outcome = .ok chain) :
    ∃ e fewer, chain = [e, tail] ∧
      (mergeMiddles (mergeWithin limit fewer) (chains.map (·.take 1))).outcome = .ok e ∧
      ¬ (chains.map (·.take 1)).all List.isEmpty = true := by
  have hfactor := factor_of_endsIn h htwo htail
  have hall : ¬ (chains.map (·.take 1)).all List.isEmpty = true := by
    obtain ⟨c, hc⟩ := List.exists_mem_of_ne_nil chains (List.ne_nil_of_length_pos (by omega))
    obtain ⟨first, rfl, _⟩ := eq_pair_of_endsIn (htail c hc)
    intro hempty
    exact absurd (List.all_eq_true.1 hempty _ (List.mem_map_of_mem hc)) Bool.false_ne_true
  rcases cases_of_mergeWithin (List.ne_nil_of_length_pos (by omega)) hchain with
    rfl | ⟨fewer, _, _, hstep⟩
  · exact absurd htwo (Nat.not_succ_le_self 1)
  · rcases cases_of_mergeStep hstep with ⟨hempty, _⟩ | ⟨_, e, he, rfl⟩
    · rw [hfactor] at hempty
      exact absurd hempty hall
    · rw [hfactor] at he ⊢
      exact ⟨e, fewer, rfl, he, hall⟩

/-- The new head matches what the heads of the chains with the tail match. -/
theorem headLanguage_of_sharedTail (hF : F.Closed) {limit levels : Nat} {chains : List Chain}
    (hpieces : ∀ c ∈ chains, AllPieces F c) (h : DistinctHeads chains)
    (htwo : 2 ≤ chains.length) {tail : String} (htail : ∀ c ∈ chains, endsIn tail c = true)
    {chain : Chain} (hchain : (mergeWithin limit levels chains).outcome = .ok chain)
    {w : List Char} : w ∈ headLanguage D chain ↔ ∃ c ∈ chains, w ∈ headLanguage D c := by
  obtain ⟨e, fewer, rfl, he, hall⟩ := exists_head_of_sharedTail h htwo htail hchain
  have hmiddle : ∀ c ∈ chains, ∃ first, c = [first, tail] ∧ c.take 1 = [first] := by
    intro c hc
    obtain ⟨first, rfl, _⟩ := eq_pair_of_endsIn (htail c hc)
    exact ⟨first, rfl, rfl⟩
  have hsingle : ∀ m ∈ chains.map (·.take 1), AllPieces F m := by
    intro m hm a ha
    obtain ⟨c, hc, rfl⟩ := List.mem_map.1 hm
    exact hpieces c hc a (List.mem_of_mem_take ha)
  obtain ⟨_, hlanguage⟩ := mergeMiddles_spec (D := D) hF
    (faithful_mergeWithin hF limit fewer) hall hsingle he
  rw [mem_headLanguage_cons, hlanguage, mem_union]
  constructor
  · rintro ⟨m, hm, hw⟩
    obtain ⟨c, hc, rfl⟩ := List.mem_map.1 hm
    obtain ⟨first, rfl, hfirst⟩ := hmiddle c hc
    exact ⟨_, hc, by simpa [hfirst, mem_headLanguage_cons] using hw⟩
  · rintro ⟨c, hc, hw⟩
    obtain ⟨first, rfl, hfirst⟩ := hmiddle c hc
    exact ⟨_, List.mem_map_of_mem hc, by simpa [hfirst, mem_headLanguage_cons] using hw⟩

/-- **Merging the chains of shared tails keeps all heads apart.** -/
theorem Apart.mergeTails (hF : F.Closed) {limit levels : Nat} {chains remaining : List Chain}
    (hpieces : ∀ c ∈ chains, AllPieces F c) (h : Apart D chains)
    (hremaining : (mergeTails (mergeWithin limit levels) chains).outcome = .ok remaining) :
    Apart D remaining := by
  obtain ⟨merged, hmerged, hend⟩ := outcome_bind_eq_ok_iff.1 hremaining
  cases hend
  -- what the head of a new chain matches is matched by the head of a chain with its tail
  have hnew : ∀ tail ∈ sharedTails chains, ∀ chain,
      (mergeWithin limit levels (chains.filter (endsIn tail))).outcome = .ok chain →
      ∀ w, w ∈ headLanguage D chain ↔
        ∃ c ∈ chains, endsIn tail c = true ∧ w ∈ headLanguage D c := by
    intro tail htail chain hchain w
    have htwo := two_le_length_of_mem_sharedTails htail
    rw [headLanguage_of_sharedTail hF (fun c hc => hpieces c (List.mem_filter.1 hc).1)
      (h.distinctHeads.sublist List.filter_sublist) htwo
      (fun c hc => (List.mem_filter.1 hc).2) hchain]
    simp only [List.mem_filter, and_assoc]
  have hother : ∀ {a b : Chain} {w : List Char}, a ∈ chains → b ∈ chains →
      w ∈ headLanguage D a → w ∈ headLanguage D b → a = b := by
    intro a b w ha hb hwa hwb
    by_contra hne
    exact h.apart.forall ha hb hne w hwa hwb
  refine ⟨List.pairwise_append.2 ⟨h.apart.sublist List.filter_sublist, ?_, ?_⟩, ?_⟩
  · apply pairwise_outcome_mapM (nodup_sharedTails chains) _ hmerged
    intro tail htail tail' htail' hne chain chain' hchain hchain' w hw hw'
    obtain ⟨c, hc, hends, hwc⟩ := (hnew tail htail chain hchain w).1 hw
    obtain ⟨c', hc', hends', hwc'⟩ := (hnew tail' htail' chain' hchain' w).1 hw'
    cases hother hc hc' hwc hwc'
    obtain ⟨first, rfl, _⟩ := eq_pair_of_endsIn hends
    obtain ⟨first', heq, _⟩ := eq_pair_of_endsIn hends'
    exact hne (by simpa using congrArg List.tail heq)
  · intro kept hkept chain hin w hw hw'
    obtain ⟨hkept, hno⟩ := List.mem_filter.1 hkept
    obtain ⟨tail, htail, hchain⟩ := exists_of_mem_outcome_mapM hmerged hin
    obtain ⟨c, hc, hends, hwc⟩ := (hnew tail htail chain hchain w).1 hw'
    cases hother hkept hc hw hwc
    have hany : (sharedTails chains).any (endsIn · kept) = true :=
      List.any_eq_true.2 ⟨tail, htail, hends⟩
    rw [hany] at hno
    cases hno
  · intro chain hin
    rcases List.mem_append.1 hin with hkept | hin
    · exact h.inhabited chain (List.mem_filter.1 hkept).1
    · obtain ⟨tail, htail, hchain⟩ := exists_of_mem_outcome_mapM hmerged hin
      obtain ⟨c, hc, hends⟩ := exists_endsIn_of_mem_sharedTails htail
      obtain ⟨w, hw⟩ := h.inhabited c hc
      exact ⟨w, (hnew tail htail chain hchain w).2 ⟨c, hc, hends, hw⟩⟩

end RegexText.Chain
