/-
  RegexText/Proofs/WordList/Depth.lean
  ====================================
  **Merging words goes no deeper than the longest word is long.**

  The chain of a word has an atom for each character.  The chains of a group start
  alike, so the front that is taken off them when the group is merged is not empty,
  and with each level at least one more character of every word is gone.  A group
  of several words has two of different lengths, or of two characters and more, so
  that there is a level left for it.

  The results of the groups are merged on the same level.  Their heads are symbols
  of different characters, and a class of other characters, so that needs no
  further level, however many words there are.
-/
import RegexText.Proofs.Chain.Apart
import RegexText.Proofs.WordList

namespace RegexText

open Text Regular Traced

namespace Symbol

theorem ofChar_injective {c d : Char} (h : ofChar c = ofChar d) : c = d := by
  have hmem := mem_atomLanguage_ofChar (D := ⟨fun _ => True, fun _ _ => True⟩) (c := c)
    (w := [c])
  rw [h, mem_atomLanguage_ofChar] at hmem
  simpa using hmem.2 rfl

/-- The symbol of a character is no bracket expression. -/
theorem ofChar_ne_characterClass (c : Char) (symbols : List String) :
    ofChar c ≠ characterClass symbols := by
  intro heq
  have hhead : (ofChar c).toList.head? = some '[' := by
    rw [heq]
    simp [characterClass]
  unfold ofChar at hhead
  split_ifs at hhead with hnul hspecial
  · cases hhead
  · simp at hhead
  · have hc : c = '[' := by simpa using hhead
    rw [hc] at hspecial
    exact hspecial (by decide)

end Symbol

namespace Chain

variable {D : Dialect}

/-- A chain of symbols of characters. -/
def IsWord (chain : Chain) : Prop := ∀ a ∈ chain, ∃ c, a = Symbol.ofChar c

theorem IsWord.allPieces {chain : Chain} (h : IsWord chain) : AllPieces .finite chain := by
  intro a ha
  obtain ⟨c, rfl⟩ := h a ha
  exact Symbol.isPiece_ofChar c

theorem isWord_of_mem_middles {chains : List Chain} (h : ∀ c ∈ chains, IsWord c) :
    ∀ middle ∈ (factor chains).middles, IsWord middle := fun _ hmiddle a ha =>
  h _ (around_mem_of_mem_middles hmiddle) a (List.mem_append_left _ (List.mem_append_right _ ha))

/-! ### Groups of words -/

/-- Groups whose heads are symbols of characters. -/
def SymbolHeads (groups : List Group) : Prop := ∀ group ∈ groups, ∃ c, group.head = Symbol.ofChar c

theorem symbolHeads_groupByHead {chains : List Chain} (h : ∀ c ∈ chains, IsWord c) :
    SymbolHeads (groupByHead chains) := by
  have hgroups := grouped_groupByHead chains
  intro group hgroup
  obtain ⟨chain, hchain⟩ := List.exists_mem_of_ne_nil _ (hgroups.nonempty group hgroup)
  obtain ⟨later, rfl⟩ := List.head?_eq_some_iff.1 (hgroups.starts group hgroup chain hchain)
  exact h _ ((sublist_of_mem_groupByHead hgroup).subset hchain) _ (List.mem_cons_self ..)

/-- The class of folded symbols has a group of its own. -/
theorem SymbolHeads.foldSingleSymbols_eq {groups : List Group} (h : SymbolHeads groups)
    (hlength : 2 ≤ (singles groups).length) :
    foldSingleSymbols groups =
      ⟨Symbol.characterClass (sortDistinct (singles groups)),
        [[Symbol.characterClass (sortDistinct (singles groups))]]⟩ :: others groups := by
  have hother : ∀ group ∈ others groups,
      group.head ≠ Symbol.characterClass (sortDistinct (singles groups)) := by
    intro group hgroup
    obtain ⟨c, hc⟩ := h group (List.mem_filter.1 hgroup).1
    rw [hc]
    exact Symbol.ofChar_ne_characterClass c _
  rw [foldSingleSymbols_of_le hlength,
    List.find?_eq_none.2 fun group hgroup => by simpa using hother group hgroup,
    List.filter_eq_self.2 fun group hgroup => by simpa using hother group hgroup]
  rfl

theorem SymbolHeads.chains_of_mem_foldSingleSymbols {groups : List Group}
    (h : SymbolHeads groups) {group : Group} (hgroup : group ∈ foldSingleSymbols groups) :
    group ∈ groups ∨ group.chains = [[group.head]] := by
  rcases Nat.lt_or_ge (singles groups).length 2 with hlt | hlength
  · have hfold : foldSingleSymbols groups = groups := if_pos hlt
    rw [hfold] at hgroup
    exact .inl hgroup
  · rw [h.foldSingleSymbols_eq hlength] at hgroup
    rcases List.mem_cons.1 hgroup with rfl | hother
    · exact .inr rfl
    · exact .inl (List.mem_filter.1 hother).1

/-- The heads of folded groups match something, and no two of them the same. -/
theorem SymbolHeads.pairwise_foldSingleSymbols {groups : List Group} (h : SymbolHeads groups)
    (hgroups : Grouped groups) (hpieces : ∀ chain ∈ members groups, AllPieces .finite chain) :
    (foldSingleSymbols groups).Pairwise (fun g g' => ∀ w ∈ atomLanguage D g.head,
        w ∉ atomLanguage D g'.head) ∧
      ∀ group ∈ foldSingleSymbols groups, ∃ w, w ∈ atomLanguage D group.head := by
  have hheads : ∀ {g g' : Group} {w : List Char}, g ∈ groups → g' ∈ groups →
      w ∈ atomLanguage D g.head → w ∈ atomLanguage D g'.head → g.head = g'.head := by
    intro g g' w hg hg' hw hw'
    obtain ⟨c, hc⟩ := h g hg
    obtain ⟨c', hc'⟩ := h g' hg'
    rw [hc, Symbol.mem_atomLanguage_ofChar] at hw
    rw [hc', Symbol.mem_atomLanguage_ofChar, hw] at hw'
    cases hw'
    rw [hc, hc']
  have hsome : ∀ g ∈ groups, ∃ w, w ∈ atomLanguage D g.head := by
    intro g hg
    obtain ⟨c, hc⟩ := h g hg
    exact ⟨[c], by rw [hc, Symbol.mem_atomLanguage_ofChar]⟩
  have hpairwise : ∀ part : List Group, part.Sublist groups →
      part.Pairwise fun g g' => ∀ w ∈ atomLanguage D g.head, w ∉ atomLanguage D g'.head := by
    intro part hpart
    have hnodup := hgroups.distinct.sublist (hpart.map Group.head)
    refine (List.Pairwise.and_mem.1 (List.pairwise_map.1 hnodup)).imp ?_
    rintro g g' ⟨hg, hg', hne⟩ w hw hw'
    exact hne (hheads (hpart.subset hg) (hpart.subset hg') hw hw')
  rcases Nat.lt_or_ge (singles groups).length 2 with hlt | hlength
  · have hfold : foldSingleSymbols groups = groups := if_pos hlt
    rw [hfold]
    exact ⟨hpairwise groups (List.Sublist.refl _), hsome⟩
  · obtain ⟨_, hclass⟩ := hgroups.class_spec (D := D) Fragment.finite_closed hpieces hlength
    have hkept : ∀ {g : Group}, g ∈ others groups → g ∈ groups :=
      fun hg => (List.mem_filter.1 hg).1
    rw [h.foldSingleSymbols_eq hlength]
    refine ⟨List.pairwise_cons.2 ⟨?_, hpairwise _ List.filter_sublist⟩, ?_⟩
    · intro group hgroup w hw hw'
      obtain ⟨x, hx, hwx⟩ := (hclass w).1 hw
      obtain ⟨single, hsingle, rfl⟩ := List.mem_map.1 hx
      have heq := hheads (List.mem_filter.1 hsingle).1 (hkept hgroup) hwx hw'
      have hno := (List.mem_filter.1 hgroup).2
      rw [← heq] at hno
      simp [hx] at hno
    · refine List.forall_mem_cons.2 ⟨?_, fun group hgroup => hsome group (hkept hgroup)⟩
      obtain ⟨x, hx⟩ := List.exists_mem_of_ne_nil _ (List.ne_nil_of_length_pos
        (by omega : 0 < (singles groups).length))
      obtain ⟨single, hsingle, rfl⟩ := List.mem_map.1 hx
      obtain ⟨w, hw⟩ := hsome single (List.mem_filter.1 hsingle).1
      exact ⟨w, (hclass w).2 ⟨_, hx, hw⟩⟩

/-- What groups of words are merged into starts with atoms that are apart. -/
theorem SymbolHeads.apart_merged {groups : List Group} (h : SymbolHeads groups)
    (hgroups : Grouped groups) (hpieces : ∀ chain ∈ members groups, AllPieces .finite chain)
    {limit levels : Nat} {merged : List Chain}
    (hmerged : ((foldSingleSymbols groups).mapM fun group =>
      mergeWithin limit levels group.chains).outcome = .ok merged) : Apart D merged := by
  have hfolded := hgroups.fold
  obtain ⟨hpairwise, hsome⟩ := h.pairwise_foldSingleSymbols (D := D) hgroups hpieces
  have hhead : ∀ group ∈ foldSingleSymbols groups, ∀ chain,
      (mergeWithin limit levels group.chains).outcome = .ok chain →
        ∀ w, w ∈ headLanguage D chain ↔ w ∈ atomLanguage D group.head := by
    intro group hgroup chain hchain w
    obtain ⟨later, rfl⟩ := List.head?_eq_some_iff.1 (head_mergeWithin
      (hfolded.nonempty group hgroup) (hfolded.starts group hgroup) hchain)
    exact mem_headLanguage_cons
  constructor
  · apply pairwise_outcome_mapM hpairwise _ hmerged
    intro g hg g' hg' hapart chain chain' hchain hchain' w hw hw'
    exact hapart w ((hhead g hg chain hchain w).1 hw) ((hhead g' hg' chain' hchain' w).1 hw')
  · intro chain hin
    obtain ⟨group, hgroup, hchain⟩ := exists_of_mem_outcome_mapM hmerged hin
    obtain ⟨w, hw⟩ := hsome group hgroup
    exact ⟨w, (hhead group hgroup chain hchain w).2 hw⟩

theorem allPieces_merged {groups : List Group} (hgroups : Grouped groups)
    (hne : groups ≠ []) (hpieces : ∀ chain ∈ members groups, AllPieces .finite chain)
    {limit levels : Nat} {merged : List Chain}
    (hmerged : ((foldSingleSymbols groups).mapM fun group =>
      mergeWithin limit levels group.chains).outcome = .ok merged) :
    ∀ c ∈ merged, AllPieces .finite c := by
  obtain ⟨_, hchainsne, hfoldpieces, _⟩ := hgroups.foldSingleSymbols_spec
    (D := ⟨fun _ => True, fun _ _ => True⟩) Fragment.finite_closed hne hpieces
  intro c hc
  obtain ⟨group, hgroup, hchain⟩ := exists_of_mem_outcome_mapM hmerged hc
  have hfaithful := faithful_mergeWithin (D := ⟨fun _ => True, fun _ _ => True⟩)
    Fragment.finite_closed limit levels
  exact (hfaithful _ _ (hchainsne group hgroup)
    (fun chain hin => hfoldpieces chain (mem_members.2 ⟨group, hgroup, hin⟩)) hchain).1

/-! ### Words and levels -/

/-- Two words of a group are not both of one character. -/
theorem exists_length_two_le {chains : List Chain} {group : Group} (hnodup : chains.Nodup)
    (hgroup : group ∈ groupByHead chains) (hseveral : 1 < group.chains.length) :
    ∃ chain ∈ chains, 2 ≤ chain.length := by
  have hstarts := (grouped_groupByHead chains).starts group hgroup
  obtain ⟨head, _, rfl⟩ := List.mem_map.1 hgroup
  by_contra hshort
  push Not at hshort
  have hall : ∀ chain ∈ chains.filter fun chain => chain.head? = some head, chain = [head] := by
    intro chain hchain
    obtain ⟨later, rfl⟩ := List.head?_eq_some_iff.1 (hstarts chain hchain)
    have hlength := hshort _ (List.mem_filter.1 hchain).1
    rw [List.length_cons] at hlength
    rw [List.eq_nil_of_length_eq_zero (by omega : later.length = 0)]
  have hsubset : (chains.filter fun chain => chain.head? = some head) ⊆ [[head]] :=
    fun chain hchain => List.mem_singleton.2 (hall chain hchain)
  have hle := (List.subperm_of_subset (hnodup.sublist List.filter_sublist) hsubset).length_le
  exact absurd hseveral (Nat.not_lt.2 hle)

/-- **Merging different words takes as many levels as there are characters behind their
    shared front, and one level at least.** -/
theorem succeeds_mergeWithin_of_isWord (limit : Nat) {levels : Nat} {chains : List Chain}
    (hlevels : 0 < levels) (hwords : ∀ c ∈ chains, IsWord c) (hnodup : chains.Nodup)
    (hlength : ∀ c ∈ chains, c.length ≤ (sharedFront chains).length + levels) :
    (mergeWithin limit levels chains).Succeeds := by
  induction levels generalizing chains with
  | zero => exact absurd hlevels (Nat.lt_irrefl 0)
  | succ levels ih =>
    apply succeeds_mergeWithin_succ
    intro htwo
    apply succeeds_mergeStep
    rintro ⟨several, hin, hseveral⟩
    have hmiddle : ∀ middle ∈ (factor chains).middles, middle.length ≤ levels + 1 := by
      intro middle hmiddle
      have hfront : (factor chains).front = sharedFront chains := rfl
      have hle := hlength _ (around_mem_of_mem_middles hmiddle)
      rw [List.length_append, List.length_append, hfront] at hle
      omega
    have hwordsmiddle := isWord_of_mem_middles hwords
    have hmiddles := nodup_middles hnodup
    obtain ⟨long, hlong, hlonglength⟩ := exists_length_two_le hmiddles hin hseveral
    have hmore : 0 < levels := by
      have hle := hmiddle long hlong
      omega
    have hgroups := grouped_groupByHead (factor chains).middles
    have hheads := symbolHeads_groupByHead hwordsmiddle
    have hpieces : ∀ chain ∈ members (groupByHead (factor chains).middles),
        AllPieces .finite chain := fun chain hchain =>
      (hwordsmiddle chain (mem_members_groupByHead.1 hchain).1).allPieces
    apply succeeds_mergeGroups
    · intro group hgroup
      rcases hheads.chains_of_mem_foldSingleSymbols hgroup with hold | hclass
      · -- what is left of these words starts alike, so the next front is not empty
        have hsub := sublist_of_mem_groupByHead hold
        have hfront : 1 ≤ (sharedFront group.chains).length :=
          (isPrefix_front_of_heads (hgroups.nonempty group hold)
            (hgroups.starts group hold)).length_le
        apply ih hmore (fun c hc => hwordsmiddle c (hsub.subset hc)) (hmiddles.sublist hsub)
        intro c hc
        have hle := hmiddle c (hsub.subset hc)
        omega
      · apply succeeds_mergeWithin_of_length_lt_two hmore
        rw [hclass]
        exact Nat.one_lt_two
    · intro merged hmerged
      have hapart : Apart ⟨fun _ => True, fun _ _ => True⟩ merged :=
        hheads.apart_merged hgroups hpieces hmerged
      have hmergedpieces := allPieces_merged hgroups (List.ne_nil_of_mem hin) hpieces hmerged
      constructor
      · apply succeeds_mergeTails
        intro tail _
        exact (hapart.distinctHeads.sublist List.filter_sublist).succeeds_mergeWithin hmore limit
      · intro remaining hremaining
        have hlast := hapart.mergeTails Fragment.finite_closed hmergedpieces hremaining
        exact hlast.distinctHeads.succeeds_mergeWithin hmore limit

end Chain

/-! ### Lists of words -/

namespace WordList

theorem isWord_chain {options : Options} (h : options.specials = []) (word : String) :
    Chain.IsWord (options.chain word) := by
  intro a ha
  rw [chain_of_specials h] at ha
  obtain ⟨c, _, rfl⟩ := List.mem_map.1 ha
  exact ⟨c, rfl⟩

theorem chain_injective {options : Options} (h : options.specials = []) {a b : String}
    (hchain : options.chain a = options.chain b) : a = b := by
  rw [chain_of_specials h, chain_of_specials h] at hchain
  exact String.toList_injective
    (List.map_injective_iff.2 (fun _ _ => Symbol.ofChar_injective) hchain)

theorem exists_decodeWords (index : Nat) {encoded : List (List UInt8)}
    (h : ∀ bytes ∈ encoded, ∃ word, decodeUtf8 bytes = .ok word) :
    ∃ words, decodeWords index encoded = .ok words := by
  induction encoded generalizing index with
  | nil => exact ⟨[], rfl⟩
  | cons bytes later ih =>
    obtain ⟨⟨word, hword⟩, hlater⟩ := List.forall_mem_cons.1 h
    obtain ⟨words, hwords⟩ := ih (index + 1) hlater
    exact ⟨word :: words, by rw [decodeWords, hword, hwords]; rfl⟩

theorem succeeds_synthesize {options : Options} (hspecials : options.specials = [])
    {words : List String} (hne : words ≠ [])
    (h : ∀ word ∈ words, word.length ≤ options.depthLimit + 1) :
    (synthesize options words).Succeeds := by
  have hmerge : (Chain.merge options.depthLimit
      ((sortDistinct words).map options.chain)).Succeeds := by
    apply Chain.succeeds_mergeWithin_of_isWord _ (Nat.succ_pos _)
    · intro c hc
      obtain ⟨word, _, rfl⟩ := List.mem_map.1 hc
      exact isWord_chain hspecials word
    · exact (nodup_sortDistinct words).map fun _ _ => chain_injective hspecials
    · intro c hc
      obtain ⟨word, hword, rfl⟩ := List.mem_map.1 hc
      have hle := h word (mem_sortDistinct.1 hword)
      rw [chain_of_specials hspecials, List.length_map, String.length_toList]
      omega
  obtain ⟨merged, hmerged⟩ := hmerge
  obtain ⟨whole, hwhole⟩ := Chain.succeeds_alternation [merged] false
  unfold synthesize
  rw [if_neg (by simpa using hne)]
  exact succeeds_bind_iff.2 ⟨merged, hmerged, succeeds_bind_iff.2
    ⟨whole, hwhole, succeeds_bind_iff.2 ⟨(), rfl, succeeds_pure _⟩⟩⟩

/-- **A limit rejects no list of words that are at most one character longer.**  However many
    words there are, with the assertion in front or without it, an expression is found as soon
    as there is a word and the longest one has at most one character more than merging may
    recurse.  With the usual limit of 256 these are the words of up to 257 characters. -/
theorem exists_outcome_synthesizeEncoded {options : Options} (hspecials : options.specials = [])
    {encoded : List (List UInt8)} (hne : encoded ≠ [])
    (h : ∀ bytes ∈ encoded, ∃ word, decodeUtf8 bytes = .ok word ∧
      word.length ≤ options.depthLimit + 1) :
    ∃ pattern, (synthesizeEncoded options encoded).outcome = .ok pattern := by
  obtain ⟨words, hwords⟩ := exists_decodeWords 0 fun bytes hbytes =>
    (h bytes hbytes).imp fun _ hword => hword.1
  have hmem : ∀ word, word ∈ words ↔ ∃ bytes ∈ encoded, decodeUtf8 bytes = .ok word :=
    fun _ => mem_decodeWords hwords
  have hwordsne : words ≠ [] := by
    obtain ⟨bytes, hbytes⟩ := List.exists_mem_of_ne_nil encoded hne
    obtain ⟨word, hword, _⟩ := h bytes hbytes
    exact List.ne_nil_of_mem ((hmem word).2 ⟨bytes, hbytes, hword⟩)
  have hlength : ∀ word ∈ words, word.length ≤ options.depthLimit + 1 := by
    intro word hin
    obtain ⟨bytes, hbytes, hdecoded⟩ := (hmem word).1 hin
    obtain ⟨other, hother, hle⟩ := h bytes hbytes
    cases hdecoded.symm.trans hother
    exact hle
  unfold synthesizeEncoded
  rw [hwords]
  exact succeeds_synthesize hspecials hwordsne hlength

/-- The words `ab`, `ac` and `éb` have two characters: one recursion is enough for them, and
    needed. -/
theorem exists_outcome_synthesizeEncoded_three_words :
    (∃ pattern, (synthesizeEncoded ⟨[], true, 1⟩
      [[0x61, 0x62], [0x61, 0x63], [0xC3, 0xA9, 0x62]]).outcome = .ok pattern) ∧
    (synthesizeEncoded ⟨[], true, 0⟩
      [[0x61, 0x62], [0x61, 0x63], [0xC3, 0xA9, 0x62]]).outcome = .error (.recursionLimit 0) := by
  refine ⟨exists_outcome_synthesizeEncoded rfl (List.cons_ne_nil _ _) ?_, by decide +kernel⟩
  simp only [List.forall_mem_cons, List.not_mem_nil, false_implies, implies_true, and_true]
  exact ⟨⟨"ab", by decide +kernel, by decide⟩, ⟨"ac", by decide +kernel, by decide⟩,
    ⟨"éb", by decide +kernel, by decide⟩⟩

end WordList

end RegexText
