/-
  RegexText/Proofs/Chain/Spread.lean
  ==================================
  **Chains whose heads are apart are merged into orderly expressions.**

  When the heads of some chains match single characters, each its own ones, merging
  writes one alternation and nothing else.  Taking the shared back off may turn chains
  into single symbols or classes.  `Beside` says that it does no harm: of two chains
  that become one unit when the same back is taken off, neither becomes a class.

  Merging the chains of a shared tail makes a class of their heads, with the tail
  behind it.  The symbols in front of that tail are gone then, and the other classes
  stand in front of other tails, so this property is kept.
-/
import RegexText.Proofs.Chain.Branches

namespace RegexText.Chain

open Text Regular Traced

variable {F : Fragment} {D : Dialect}

/-! ### Middles that are ready -/

/-- If one atom of each of two chains stands in front of the same back, and both are symbols or
    classes, then both are symbols. -/
def Beside (a b : Chain) : Prop :=
  ∀ x y back, a = x :: back → b = y :: back → SymbolOrClass x → SymbolOrClass y →
    Symbol.isClassSafe x = true ∧ Symbol.isClassSafe y = true

instance symmBeside : Std.Symm Beside where
  symm _ _ hab x y back hx hy hx' hy' := (hab y x back hy hx hy' hx').symm

/-- Orderly chains whose heads match single characters, each its own ones, and of which none
    becomes a class beside another symbol or class. -/
structure Spread (F : Fragment) (D : Dialect) (chains : List Chain) : Prop where
  apart : Apart D chains
  single : ∀ chain ∈ chains, ∀ w ∈ headLanguage D chain, ∃ c, w = [c]
  orderly : ∀ chain ∈ chains, AllOrderly F D chain
  beside : chains.Pairwise Beside

theorem Apart.nodup {chains : List Chain} (h : Apart D chains) : chains.Nodup := by
  refine (List.Pairwise.and_mem.1 h.apart).imp ?_
  rintro a b ⟨ha, _, hab⟩ rfl
  obtain ⟨w, hw⟩ := h.inhabited a ha
  exact hab w hw hw

theorem Apart.ne_nil {chains : List Chain} (h : Apart D chains) :
    ∀ chain ∈ chains, chain ≠ [] := by
  rintro chain hchain rfl
  obtain ⟨_, head, hhead, _⟩ := h.inhabited [] hchain
  cases hhead

theorem headLanguage_append {chain : Chain} (hne : chain ≠ []) (back : Chain) :
    headLanguage D (chain ++ back) = headLanguage D chain := by
  obtain ⟨a, later, rfl⟩ := List.exists_cons_of_ne_nil hne
  ext w
  rw [List.cons_append, mem_headLanguage_cons, mem_headLanguage_cons]

namespace Spread

variable {chains : List Chain}

theorem sublist {part : List Chain} (h : Spread F D chains) (hsub : part.Sublist chains) :
    Spread F D part where
  apart := ⟨h.apart.apart.sublist hsub, fun chain hchain =>
    h.apart.inhabited chain (hsub.subset hchain)⟩
  single chain hchain := h.single chain (hsub.subset hchain)
  orderly chain hchain := h.orderly chain (hsub.subset hchain)
  beside := h.beside.sublist hsub

/-- A middle of such chains stands at the front of one of them. -/
theorem append_mem (h : Spread F D chains) (htwo : 2 ≤ chains.length) {middle : Chain}
    (hmiddle : middle ∈ (factor chains).middles) : middle ++ (factor chains).back ∈ chains := by
  have hfront : (factor chains).front = [] := h.apart.distinctHeads.sharedFront_eq_nil htwo
  have haround := around_mem_of_mem_middles hmiddle
  rwa [hfront, List.nil_append] at haround

/-- **What is left between the shared ends is ready for one alternation.** -/
theorem ready (h : Spread F D chains) (htwo : 2 ≤ chains.length) :
    Ready F D (members (groupByHead (factor chains).middles)) := by
  have hmember : ∀ {chain}, chain ∈ members (groupByHead (factor chains).middles) →
      chain ≠ [] ∧ chain ++ (factor chains).back ∈ chains := fun hchain =>
    ⟨(mem_members_groupByHead.1 hchain).2,
      h.append_mem htwo (mem_members_groupByHead.1 hchain).1⟩
  refine ⟨nodup_members_groupByHead (nodup_middles h.apart.nodup),
    fun chain hchain => (hmember hchain).1, fun chain hchain a ha => ?_,
    fun chain hchain w hw => ?_, fun a ha b hb hab => ?_, fun x y hx hy hxy hx' hy' => ?_⟩
  · exact h.orderly _ (hmember hchain).2 a (List.mem_append_left _ ha)
  · obtain ⟨hne, hin⟩ := hmember hchain
    exact h.single _ hin w (by rwa [headLanguage_append hne])
  · have happend := h.apart.apart.forall (hmember ha).2 (hmember hb).2
      fun heq => hab (List.append_cancel_right heq)
    rwa [HeadsApart, headLanguage_append (hmember ha).1, headLanguage_append (hmember hb).1]
      at happend
  · have hne : [x] ++ (factor chains).back ≠ [y] ++ (factor chains).back :=
      fun heq => hxy (List.cons.inj heq).1
    exact (h.beside.forall (hmember hx).2 (hmember hy).2 hne x y _ rfl rfl hx' hy').1

end Spread

/-! ### Merging -/

/-- Ready middles that need no further merging become an orderly expression. -/
theorem orderly_mergeMiddles (hF : F.Closed) {merge : List Chain → Traced Chain}
    {middles : List Chain} (h : Ready F D (members (groupByHead middles)))
    (hone : ∀ group ∈ groupByHead middles, group.chains.length ≤ 1)
    (hne : ¬ middles.all List.isEmpty = true) {e : String}
    (he : (mergeMiddles merge middles).outcome = .ok e) : Orderly F D e := by
  rcases cases_of_mergeMiddles he with ⟨⟨group, hgroup, hseveral⟩, _⟩ | ⟨_, he⟩
  · exact absurd (hone group hgroup) (Nat.not_le.2 hseveral)
  · exact orderly_alternation hF h (members_groupByHead_ne_nil hne) he

namespace Spread

variable {chains : List Chain}

/-- **Merging chains whose heads are apart**, with any number of levels left. -/
theorem allOrderly_mergeWithin (hF : F.Closed) (h : Spread F D chains) (hne : chains ≠ [])
    {limit levels : Nat} {chain : Chain}
    (hchain : (mergeWithin limit levels chains).outcome = .ok chain) :
    chain ≠ [] ∧ AllOrderly F D chain := by
  rcases cases_of_mergeWithin hne hchain with rfl | ⟨fewer, _, htwo, hstep⟩
  · have hmem : chain ∈ [chain] := List.mem_singleton_self chain
    exact ⟨h.apart.ne_nil chain hmem, h.orderly chain hmem⟩
  · have hfront : (factor chains).front = [] := h.apart.distinctHeads.sharedFront_eq_nil htwo
    obtain ⟨middle, hmiddle⟩ := List.exists_mem_of_ne_nil _ (middles_ne_nil hne)
    have hin := h.append_mem htwo hmiddle
    rcases cases_of_mergeStep hstep with ⟨hempty, _⟩ | ⟨hsome, e, he, rfl⟩
    · -- a chain with nothing between its ends would be empty
      rw [List.isEmpty_iff.1 (List.all_eq_true.1 hempty middle hmiddle),
        back_eq_nil_of_middles hne hempty] at hin
      exact absurd rfl (h.apart.ne_nil _ hin)
    · have hone : ∀ group ∈ groupByHead (factor chains).middles, group.chains.length ≤ 1 :=
        fun group hgroup => (h.apart.distinctHeads.middles htwo).length_chains_le_one hgroup
      rw [hfront, List.nil_append]
      refine ⟨List.cons_ne_nil _ _, List.forall_mem_cons.2 ⟨?_, fun a ha => ?_⟩⟩
      · exact orderly_mergeMiddles hF (h.ready htwo) hone hsome he
      · exact h.orderly _ hin a (List.mem_append_right _ ha)

/-- The chains of a shared tail become one such chain, whose head matches single characters. -/
theorem of_sharedTail (hF : F.Closed) (h : Spread F D chains) {limit levels : Nat}
    {tail : String} (htail : tail ∈ sharedTails chains) {chain : Chain}
    (hchain : (mergeWithin limit levels (chains.filter (endsIn tail))).outcome = .ok chain) :
    (∃ e, chain = [e, tail]) ∧ AllOrderly F D chain ∧
      ∀ w ∈ headLanguage D chain, ∃ c, w = [c] := by
  have hpart := h.sublist (List.filter_sublist (p := endsIn tail))
  have htwo := two_le_length_of_mem_sharedTails htail
  have hends : ∀ c ∈ chains.filter (endsIn tail), endsIn tail c = true :=
    fun c hc => (List.mem_filter.1 hc).2
  have hdistinct := hpart.apart.distinctHeads
  obtain ⟨e, _, hpair, _⟩ := exists_head_of_sharedTail hdistinct htwo hends hchain
  refine ⟨⟨e, hpair⟩, (hpart.allOrderly_mergeWithin hF
    (List.ne_nil_of_length_pos (by omega)) hchain).2, fun w hw => ?_⟩
  obtain ⟨c, hc, hwc⟩ := (headLanguage_of_sharedTail hF
    (fun c hc => (hpart.orderly c hc).allPieces) hdistinct htwo hends hchain).1 hw
  exact hpart.single c hc w hwc

/-- **Merging the chains of shared tails keeps chains spread**, if a symbol or a class in front of
    one more atom is a symbol. -/
theorem mergeTails (hF : F.Closed) (h : Spread F D chains)
    (hpairs : ∀ x tail, [x, tail] ∈ chains → SymbolOrClass x → Symbol.isClassSafe x = true)
    {limit levels : Nat} {remaining : List Chain}
    (hremaining : (mergeTails (mergeWithin limit levels) chains).outcome = .ok remaining) :
    Spread F D remaining := by
  have hpieces : ∀ c ∈ chains, AllPieces F c := fun c hc => (h.orderly c hc).allPieces
  have hapart := h.apart.mergeTails hF hpieces hremaining
  obtain ⟨merged, hmerged, hend⟩ := outcome_bind_eq_ok_iff.1 hremaining
  cases hend
  refine ⟨hapart, fun chain hin => ?_, fun chain hin => ?_, List.pairwise_append.2 ⟨?_, ?_, ?_⟩⟩
  · rcases List.mem_append.1 hin with hkept | hin
    · exact h.single chain (List.mem_filter.1 hkept).1
    · obtain ⟨tail, htail, hchain⟩ := exists_of_mem_outcome_mapM hmerged hin
      exact (h.of_sharedTail hF htail hchain).2.2
  · rcases List.mem_append.1 hin with hkept | hin
    · exact h.orderly chain (List.mem_filter.1 hkept).1
    · obtain ⟨tail, htail, hchain⟩ := exists_of_mem_outcome_mapM hmerged hin
      exact (h.of_sharedTail hF htail hchain).2.1
  · exact h.beside.sublist List.filter_sublist
  · -- two new chains have different tails
    apply pairwise_outcome_mapM (nodup_sharedTails chains) _ hmerged
    intro tail htail tail' htail' hne chain chain' hchain hchain' x y back hx hy
    obtain ⟨⟨e, rfl⟩, _⟩ := h.of_sharedTail hF htail hchain
    obtain ⟨⟨e', rfl⟩, _⟩ := h.of_sharedTail hF htail' hchain'
    cases hx
    cases hy
    exact absurd rfl hne
  · -- a symbol in front of the tail of a new chain would have become part of that chain
    intro kept hkept chain hin x y back hx hy hx'
    obtain ⟨hkept, hno⟩ := List.mem_filter.1 hkept
    obtain ⟨tail, htail, hchain⟩ := exists_of_mem_outcome_mapM hmerged hin
    obtain ⟨⟨e, rfl⟩, _⟩ := h.of_sharedTail hF htail hchain
    cases hy
    rw [hx] at hkept hno
    have hsafe := hpairs x tail hkept hx'
    have hany : (sharedTails chains).any (endsIn · [x, tail]) = true :=
      List.any_eq_true.2 ⟨tail, htail, by simp [endsIn, tail?, hsafe]⟩
    rw [hany] at hno
    cases hno

end Spread

end RegexText.Chain
