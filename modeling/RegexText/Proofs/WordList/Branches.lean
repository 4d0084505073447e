/-
  RegexText/Proofs/WordList/Branches.lean
  =======================================
  **Alternations of words are told apart by one character, and folded into classes.**

  Words are grouped by their first characters.  The expressions of the groups begin
  with these characters or, where single ones have been folded, with a class of them,
  so they are spread, and stay so when shared tails are merged.

  A merged group is a single atom only if it is a single word of one character.  If
  there are two such words of class-safe symbols they are folded, so beside the class
  there is no further symbol or class.
-/
import RegexText.Proofs.Chain.Spread
import RegexText.Proofs.WordList.Lookahead

namespace RegexText

open Text Regular Traced

namespace Symbol

variable {D : Dialect}

theorem orderly_ofChar (c : Char) : Chain.Orderly .finite D (ofChar c) :=
  ⟨_, ⟨within_unitOf c, trivial, trivial⟩, nofun, text_unitOf c⟩

/-- The symbol of a character is no bracket expression, so it is one that classes can hold. -/
theorem isClassSafe_of_symbolOrClass {c : Char} (h : Chain.SymbolOrClass (ofChar c)) :
    isClassSafe (ofChar c) = true := by
  rcases (Chain.symbolOrClass_iff Fragment.finite_closed (within_unitOf c)
    (text_unitOf c)).1 h with hsafe | ⟨content, hunit⟩
  · rwa [text_unitOf, String.ofList_toList] at hsafe
  · have hbracket := (Regex.unit.inj hunit).1
    unfold unitOf at hbracket
    split_ifs at hbracket

end Symbol

namespace Chain

variable {D : Dialect}

/-! ### Words that are alone in their groups -/

theorem IsWord.allOrderly {chain : Chain} (h : IsWord chain) : AllOrderly .finite D chain := by
  intro a ha
  obtain ⟨c, rfl⟩ := h a ha
  exact Symbol.orderly_ofChar c

/-- Different words that are alone in their groups are ready for an alternation. -/
theorem ready_of_isWord {chains : List Chain} (hwords : ∀ c ∈ chains, IsWord c)
    (hnodup : chains.Nodup) (hone : ∀ group ∈ groupByHead chains, group.chains.length ≤ 1) :
    Ready .finite D (members (groupByHead chains)) := by
  have hgroups := grouped_groupByHead chains
  have hmember : ∀ {chain}, chain ∈ members (groupByHead chains) →
      IsWord chain ∧ ∃ c later, chain = Symbol.ofChar c :: later := by
    intro chain hchain
    obtain ⟨hin, hne⟩ := mem_members_groupByHead.1 hchain
    obtain ⟨a, later, rfl⟩ := List.exists_cons_of_ne_nil hne
    obtain ⟨c, rfl⟩ := hwords _ hin a (List.mem_cons_self ..)
    exact ⟨hwords _ hin, c, later, rfl⟩
  refine ⟨nodup_members_groupByHead hnodup, fun chain hchain =>
    (mem_members_groupByHead.1 hchain).2, fun chain hchain => (hmember hchain).1.allOrderly,
    fun chain hchain w hw => ?_, fun a ha b hb hab w hw hw' => ?_, fun x y hx _ _ hx' _ => ?_⟩
  · obtain ⟨_, c, later, rfl⟩ := hmember hchain
    exact ⟨c, Symbol.mem_atomLanguage_ofChar.1 (mem_headLanguage_cons.1 hw)⟩
  · -- words that begin alike would be in one group
    obtain ⟨group, hgroup, hin⟩ := mem_members.1 ha
    obtain ⟨group', hgroup', hin'⟩ := mem_members.1 hb
    have hstart := hgroups.starts group hgroup a hin
    have hstart' := hgroups.starts group' hgroup' b hin'
    obtain ⟨_, c, later, rfl⟩ := hmember ha
    obtain ⟨_, d, later', rfl⟩ := hmember hb
    rw [mem_headLanguage_cons, Symbol.mem_atomLanguage_ofChar] at hw hw'
    cases hw.symm.trans hw'
    cases hgroups.eq_of_head hgroup hgroup' (Option.some.inj (hstart.symm.trans hstart'))
    have hsubset : [Symbol.ofChar c :: later, Symbol.ofChar c :: later'] ⊆ group.chains :=
      List.forall_mem_cons.2 ⟨hin, List.forall_mem_singleton.2 hin'⟩
    have hle := (List.subperm_of_subset (List.nodup_cons.2
      ⟨fun h => hab (List.mem_singleton.1 h), List.nodup_singleton _⟩) hsubset).length_le
    exact absurd (hle.trans (hone group hgroup)) (Nat.not_succ_le_self 1)
  · obtain ⟨_, c, later, hc⟩ := hmember hx
    cases hc
    exact Symbol.isClassSafe_of_symbolOrClass hx'

/-! ### Groups of words -/

/-- Groups of different words. -/
structure WordGroups (groups : List Group) : Prop where
  grouped : Grouped groups
  heads : SymbolHeads groups
  words : ∀ chain ∈ members groups, IsWord chain
  nodup : ∀ group ∈ groups, group.chains.Nodup

theorem wordGroups_groupByHead {chains : List Chain} (hwords : ∀ c ∈ chains, IsWord c)
    (hnodup : chains.Nodup) : WordGroups (groupByHead chains) where
  grouped := grouped_groupByHead chains
  heads := symbolHeads_groupByHead hwords
  words chain hchain := hwords chain (mem_members_groupByHead.1 hchain).1
  nodup _ hgroup := hnodup.sublist (sublist_of_mem_groupByHead hgroup)

theorem eq_of_mergeWithin_singleton {limit levels : Nat} {only chain : Chain}
    (h : (mergeWithin limit levels [only]).outcome = .ok chain) : chain = only := by
  rcases cases_of_mergeWithin (List.cons_ne_nil _ _) h with heq | ⟨_, _, htwo, _⟩
  · exact (List.singleton_inj.1 heq).symm
  · exact absurd htwo (Nat.not_succ_le_self 1)

/-- Different words that start alike are merged into several atoms. -/
theorem eq_singleton_of_mergeWithin {limit levels : Nat} {chains : List Chain} {head : String}
    (hne : chains ≠ []) (hnodup : chains.Nodup)
    (hhead : ∀ c ∈ chains, c.head? = some head) {x : String}
    (h : (mergeWithin limit levels chains).outcome = .ok [x]) : chains = [[x]] := by
  rcases cases_of_mergeWithin hne h with hsingle | ⟨fewer, _, htwo, hstep⟩
  · exact hsingle
  · rcases cases_of_mergeStep hstep with ⟨hempty, _⟩ | ⟨_, e, _, hend⟩
    · -- words with nothing behind their front would be one word
      have hsubset : (factor chains).middles ⊆ [[]] := fun middle hmiddle =>
        List.mem_singleton.2 (List.isEmpty_iff.1 (List.all_eq_true.1 hempty middle hmiddle))
      have hle := (List.subperm_of_subset (nodup_middles hnodup) hsubset).length_le
      rw [length_middles] at hle
      exact absurd (htwo.trans hle) (Nat.not_succ_le_self 1)
    · -- behind the front, which is not empty, there is an expression
      obtain ⟨later, hfront⟩ := isPrefix_front_of_heads hne hhead
      rw [← hfront] at hend
      cases later <;> cases hend

namespace WordGroups

variable {groups : List Group} {limit levels : Nat}

theorem allPieces (h : WordGroups groups) : ∀ chain ∈ members groups, AllPieces .finite chain :=
  fun chain hchain => (h.words chain hchain).allPieces

/-- The class of single symbols is orderly, and matches single characters. -/
theorem class_spec (h : WordGroups groups) (hlength : 2 ≤ (singles groups).length) :
    Orderly .finite D (Symbol.characterClass (sortDistinct (singles groups))) ∧
      ∀ w ∈ atomLanguage D (Symbol.characterClass (sortDistinct (singles groups))),
        ∃ c, w = [c] := by
  have hmember : ∀ x ∈ singles groups, Symbol.isClassSafe x = true ∧ ∃ c, x = Symbol.ofChar c := by
    intro x hx
    obtain ⟨hsafe, hchain⟩ := h.grouped.mem_members_of_mem_singles hx
    exact ⟨hsafe, h.words _ hchain x (List.mem_singleton_self x)⟩
  constructor
  · obtain ⟨a, ha, b, hb, hab⟩ := h.grouped.exists_ne_of_le hlength
    refine orderly_characterClass Fragment.finite_closed (fun x hx => ?_)
      (mem_sortDistinct.2 ha) (mem_sortDistinct.2 hb) hab
    obtain ⟨hsafe, c, rfl⟩ := hmember x (mem_sortDistinct.1 hx)
    exact ⟨hsafe, Symbol.orderly_ofChar c⟩
  · obtain ⟨_, hlanguage⟩ :=
      h.grouped.class_spec (D := D) Fragment.finite_closed h.allPieces hlength
    intro w hw
    obtain ⟨x, hx, hwx⟩ := (hlanguage w).1 hw
    obtain ⟨_, c, rfl⟩ := hmember x hx
    exact ⟨c, Symbol.mem_atomLanguage_ofChar.1 hwx⟩

/-- Either nothing is folded, or the class stands in front of groups that are no single
    symbols. -/
theorem fold_cases (h : WordGroups groups) (D : Dialect) :
    foldSingleSymbols groups = groups ∨ ∃ x later,
      foldSingleSymbols groups = ⟨x, [[x]]⟩ :: later ∧ Orderly .finite D x ∧
        (∀ w ∈ atomLanguage D x, ∃ c, w = [c]) ∧
          ∀ group ∈ later, group ∈ groups ∧ isSingleSymbol group = false := by
  rcases Nat.lt_or_ge (singles groups).length 2 with hlt | hlength
  · exact .inl (if_pos hlt)
  · obtain ⟨horderly, hsingle⟩ := h.class_spec (D := D) hlength
    refine .inr ⟨_, _, h.heads.foldSingleSymbols_eq hlength, horderly, hsingle,
      fun group hgroup => ?_⟩
    obtain ⟨hin, hno⟩ := List.mem_filter.1 hgroup
    refine ⟨hin, ?_⟩
    rw [← Bool.not_eq_true, ← h.grouped.mem_singles hin]
    simpa using hno

/-- The words of a group are merged into a chain that begins with its character. -/
theorem exists_head (h : WordGroups groups) {group : Group} (hgroup : group ∈ groups)
    {chain : Chain} (hchain : (mergeWithin limit levels group.chains).outcome = .ok chain) :
    ∃ c later, chain = Symbol.ofChar c :: later := by
  obtain ⟨c, hc⟩ := h.heads group hgroup
  have hhead := head_mergeWithin (h.grouped.nonempty group hgroup)
    (h.grouped.starts group hgroup) hchain
  rw [hc] at hhead
  exact ⟨c, List.head?_eq_some_iff.1 hhead⟩

/-- A group that is merged into just a symbol or a class is a single symbol. -/
theorem isSingleSymbol_of_mergeWithin (h : WordGroups groups) {group : Group}
    (hgroup : group ∈ groups) {x : String}
    (hchain : (mergeWithin limit levels group.chains).outcome = .ok [x])
    (hx : SymbolOrClass x) : isSingleSymbol group = true := by
  have hchains := eq_singleton_of_mergeWithin (h.grouped.nonempty group hgroup)
    (h.nodup group hgroup) (h.grouped.starts group hgroup) hchain
  have hhead : some x = some group.head := by
    apply h.grouped.starts group hgroup [x]
    rw [hchains]
    exact List.mem_singleton_self _
  obtain ⟨c, later, hc⟩ := h.exists_head hgroup hchain
  cases hc
  rw [isSingleSymbol, hchains, ← Option.some.inj hhead]
  exact Symbol.isClassSafe_of_symbolOrClass hx

/-- Chains that begin with characters become no classes. -/
theorem beside_of_mem (h : WordGroups groups) {part : List Group}
    (hpart : ∀ group ∈ part, group ∈ groups) {chains : List Chain}
    (hchains : (part.mapM fun group => mergeWithin limit levels group.chains).outcome =
      .ok chains) : chains.Pairwise Beside := by
  refine List.pairwise_of_forall_mem_list fun a ha b hb x y back hx hy hx' hy' => ?_
  obtain ⟨g, hg, hga⟩ := exists_of_mem_outcome_mapM hchains ha
  obtain ⟨g', hg', hgb⟩ := exists_of_mem_outcome_mapM hchains hb
  obtain ⟨c, later, hc⟩ := h.exists_head (hpart g hg) hga
  obtain ⟨d, later', hd⟩ := h.exists_head (hpart g' hg') hgb
  cases hx.symm.trans hc
  cases hy.symm.trans hd
  exact ⟨Symbol.isClassSafe_of_symbolOrClass hx', Symbol.isClassSafe_of_symbolOrClass hy'⟩

/-- A folded group is merged into a chain that begins with a character, or into the class
    alone. -/
theorem cases_of_mem_fold (h : WordGroups groups) {group : Group}
    (hgroup : group ∈ foldSingleSymbols groups) {chain : Chain}
    (hchain : (mergeWithin limit levels group.chains).outcome = .ok chain) :
    (group ∈ groups ∧ ∃ c later, chain = Symbol.ofChar c :: later) ∨
      ∃ x, chain = [x] ∧ Orderly .finite D x ∧ ∀ w ∈ atomLanguage D x, ∃ c, w = [c] := by
  rcases h.fold_cases D with hfold | ⟨x, later, hfold, horderly, hsingle, hlater⟩
  · rw [hfold] at hgroup
    exact .inl ⟨hgroup, h.exists_head hgroup hchain⟩
  · rw [hfold] at hgroup
    rcases List.mem_cons.1 hgroup with rfl | hin
    · exact .inr ⟨x, eq_of_mergeWithin_singleton hchain, horderly, hsingle⟩
    · exact .inl ⟨(hlater group hin).1, h.exists_head (hlater group hin).1 hchain⟩

section merged

variable {merged : List Chain}
  (hmerged : ((foldSingleSymbols groups).mapM fun group =>
    mergeWithin limit levels group.chains).outcome = .ok merged)

include hmerged

/-- Beside the class no other chain is just a symbol, for then it would have been folded. -/
theorem beside_merged (h : WordGroups groups) : merged.Pairwise Beside := by
  rcases h.fold_cases ⟨fun _ => True, fun _ _ => True⟩ with hfold | ⟨x, later, hfold, _, _, hlater⟩
  · rw [hfold] at hmerged
    exact h.beside_of_mem (fun _ hgroup => hgroup) hmerged
  · rw [hfold] at hmerged
    obtain ⟨first, rest, hfirst, hrest, rfl⟩ := outcome_mapM_cons.1 hmerged
    refine List.pairwise_cons.2 ⟨fun b hb y z back hy hz _ hz' => ?_,
      h.beside_of_mem (fun group hgroup => (hlater group hgroup).1) hrest⟩
    obtain ⟨group, hgroup, hgb⟩ := exists_of_mem_outcome_mapM hrest hb
    obtain ⟨hin, hno⟩ := hlater group hgroup
    cases hy.symm.trans (eq_of_mergeWithin_singleton hfirst)
    cases hz
    exact absurd (h.isSingleSymbol_of_mergeWithin hin hgb hz') (Bool.eq_false_iff.1 hno)

/-- **The groups are merged into chains that are spread**, if the words of each group are merged
    into an orderly chain. -/
theorem spread_merged (h : WordGroups groups)
    (hmerge : ∀ group ∈ groups, ∀ chain,
      (mergeWithin limit levels group.chains).outcome = .ok chain → AllOrderly .finite D chain) :
    Spread .finite D merged := by
  refine ⟨h.heads.apart_merged h.grouped h.allPieces hmerged, fun chain hin w hw => ?_,
    fun chain hin => ?_, h.beside_merged hmerged⟩
  · obtain ⟨group, hgroup, hchain⟩ := exists_of_mem_outcome_mapM hmerged hin
    rcases h.cases_of_mem_fold (D := D) hgroup hchain with
      ⟨_, c, later, rfl⟩ | ⟨x, rfl, _, hsingle⟩
    · exact ⟨c, Symbol.mem_atomLanguage_ofChar.1 (mem_headLanguage_cons.1 hw)⟩
    · exact hsingle w (mem_headLanguage_cons.1 hw)
  · obtain ⟨group, hgroup, hchain⟩ := exists_of_mem_outcome_mapM hmerged hin
    rcases h.cases_of_mem_fold (D := D) hgroup hchain with ⟨hgroup, _⟩ | ⟨x, rfl, horderly, _⟩
    · exact hmerge group hgroup chain hchain
    · exact List.forall_mem_singleton.2 horderly

/-- What stands in front of one more atom is the symbol of a character. -/
theorem isClassSafe_of_pair (h : WordGroups groups) {x tail : String} (hin : [x, tail] ∈ merged)
    (hx : SymbolOrClass x) : Symbol.isClassSafe x = true := by
  obtain ⟨group, hgroup, hchain⟩ := exists_of_mem_outcome_mapM hmerged hin
  rcases h.cases_of_mem_fold (D := ⟨fun _ => True, fun _ _ => True⟩) hgroup hchain with
    ⟨_, c, later, heq⟩ | ⟨y, heq, _⟩
  · cases heq
    exact Symbol.isClassSafe_of_symbolOrClass hx
  · cases heq

end merged

/-- Groups whose words are merged into orderly chains become an orderly expression. -/
theorem orderly_mergeGroups (h : WordGroups groups) (hne : groups ≠ [])
    (hmerge : ∀ group ∈ groups, ∀ chain,
      (mergeWithin limit levels group.chains).outcome = .ok chain → AllOrderly .finite D chain)
    {e : String} (he : (mergeGroups (mergeWithin limit levels) groups).outcome = .ok e) :
    Orderly .finite D e := by
  obtain ⟨merged, hmerged, he⟩ := outcome_bind_eq_ok_iff.1 he
  obtain ⟨remaining, hremaining, he⟩ := outcome_bind_eq_ok_iff.1 he
  obtain ⟨chain, hchain, he⟩ := outcome_bind_eq_ok_iff.1 he
  cases he
  have hmergedne : merged ≠ [] := by
    obtain ⟨hfoldne, _⟩ := h.grouped.foldSingleSymbols_spec (D := D) Fragment.finite_closed hne
      h.allPieces
    rintro rfl
    exact hfoldne (List.length_eq_zero_iff.1 (length_of_outcome_mapM hmerged).symm)
  have hspread := h.spread_merged hmerged hmerge
  obtain ⟨hremainingne, _⟩ := mergeTails_spec (D := D)
    (faithful_mergeWithin Fragment.finite_closed limit levels) hmergedne
    (fun c hc => (hspread.orderly c hc).allPieces) hremaining
  have hrest := hspread.mergeTails Fragment.finite_closed
    (fun x tail hin hx => h.isClassSafe_of_pair hmerged hin hx) hremaining
  obtain ⟨hchainne, horderly⟩ :=
    hrest.allOrderly_mergeWithin Fragment.finite_closed hremainingne hchain
  exact orderly_join horderly hchainne

end WordGroups

/-! ### Merging words -/

/-- The expression for what is left of different words is orderly, if fewer words are merged
    into orderly chains. -/
theorem orderly_mergeMiddles_of_isWord {limit levels : Nat} {middles : List Chain}
    (hmerge : ∀ {part : List Chain}, (∀ c ∈ part, IsWord c) → part.Nodup → part ≠ [] →
      ∀ chain, (mergeWithin limit levels part).outcome = .ok chain → AllOrderly .finite D chain)
    (hwords : ∀ c ∈ middles, IsWord c) (hnodup : middles.Nodup)
    (hne : ¬ middles.all List.isEmpty = true) {e : String}
    (he : (mergeMiddles (mergeWithin limit levels) middles).outcome = .ok e) :
    Orderly .finite D e := by
  have hmembers := members_groupByHead_ne_nil hne
  rcases cases_of_mergeMiddles he with ⟨_, inner, hinner, he⟩ | ⟨hone, he⟩
  · have hgroups := wordGroups_groupByHead hwords hnodup
    have horderly : Orderly .finite D inner := by
      refine hgroups.orderly_mergeGroups (fun hnil => hmembers (by rw [hnil]; rfl))
        (fun group hgroup => ?_) hinner
      have hsub := sublist_of_mem_groupByHead hgroup
      exact hmerge (fun c hc => hwords c (hsub.subset hc)) (hgroups.nodup group hgroup)
        (hgroups.grouped.nonempty group hgroup)
    split at he
    · exact orderly_makeOptional Fragment.finite_closed horderly he
    · cases he
      exact horderly
  · exact orderly_alternation Fragment.finite_closed (ready_of_isWord hwords hnodup hone)
      hmembers he

/-- **Merging different words keeps every alternation proper**, with any number of levels. -/
theorem allOrderly_mergeWithin_of_isWord {limit levels : Nat} {chains : List Chain}
    (hwords : ∀ c ∈ chains, IsWord c) (hnodup : chains.Nodup) (hne : chains ≠ []) {chain : Chain}
    (h : (mergeWithin limit levels chains).outcome = .ok chain) :
    AllOrderly .finite D chain := by
  induction levels generalizing chains chain with
  | zero => cases h
  | succ levels ih =>
    rcases cases_of_mergeWithin hne h with rfl | ⟨fewer, heq, _, hstep⟩
    · exact (hwords chain (List.mem_singleton_self chain)).allOrderly
    · cases heq
      obtain ⟨middle, hmiddle⟩ := List.exists_mem_of_ne_nil _ (middles_ne_nil hne)
      have haround := (hwords _ (around_mem_of_mem_middles hmiddle)).allOrderly (D := D)
      have hfront : AllOrderly .finite D (factor chains).front := fun a ha =>
        haround a (List.mem_append_left _ (List.mem_append_left _ ha))
      have hback : AllOrderly .finite D (factor chains).back := fun a ha =>
        haround a (List.mem_append_right _ ha)
      rcases cases_of_mergeStep hstep with ⟨_, rfl⟩ | ⟨hsome, e, he, rfl⟩
      · exact hfront
      · have hexpression := orderly_mergeMiddles_of_isWord (D := D)
          (fun hpart hdistinct hpartne chain => ih hpart hdistinct hpartne)
          (isWord_of_mem_middles hwords) (nodup_middles hnodup) hsome he
        exact List.forall_mem_append.2 ⟨hfront, List.forall_mem_cons.2 ⟨hexpression, hback⟩⟩

end Chain

/-! ### Lists of words -/

namespace WordList

/-- Is a text empty or, if an assertion may be put in front, an assertion that a bracket
    expression matches the next character? -/
def IsFront (options : Options) (front : String) : Prop :=
  front = "" ∨ options.lookahead = true ∧ ∃ content bracket,
    front = "(?=[" ++ String.ofList content ++ "])" ∧ Bracket.read? content = some bracket

theorem isFront_assertion {options : Options} (hspecials : options.specials = [])
    (words : List String) {r : Expression} (hr : WellFormed r) {whole : String}
    (htext : r.text = whole.toList) : IsFront options (assertion options words whole) := by
  unfold assertion
  simp only
  split
  · rename_i hwants
    have hlookahead : options.lookahead = true := by
      simp only [wantsLookahead, Bool.and_eq_true] at hwants
      exact hwants.1.1.1.1
    have hl : ∀ w, w ∈ ({w | ∃ word ∈ words, word.toList = w} : Language Char) ↔
        ∃ word ∈ words, word.toList = w := fun _ => Iff.rfl
    have htells := (wantsLookahead_iff hspecials hlookahead hl hr htext).1 hwants
    obtain ⟨content, bracket, hclass, hread, _⟩ :=
      class_initials_spec hspecials hl htells.several htells.no_nul
    refine .inr ⟨hlookahead, content, bracket, ?_, hread⟩
    apply String.toList_injective
    simp [hclass]
  · exact .inl rfl

/-- What is synthesized without special texts, behind its front: an expression all of whose
    alternations are proper. -/
theorem exists_proper_tree {options : Options} (hspecials : options.specials = [])
    {encoded : List (List UInt8)} {pattern : String}
    (h : (synthesizeEncoded options encoded).outcome = .ok pattern) :
    ∃ front whole r, pattern = front ++ whole ∧ IsFront options front ∧
      read whole.toList = some r ∧ r.IsSequence ∧ ∀ D, r.EachAlternation (Chain.Proper D) := by
  unfold synthesizeEncoded at h
  split at h
  · cases h
  · rename_i words _
    obtain ⟨hwords, merged, whole, hmerged, hwhole, hpattern⟩ := synthesize_eq_ok_iff.1 h
    cases (Chain.outcome_alternation_singleton merged).symm.trans hwhole
    have horderly : ∀ D, Chain.AllOrderly .finite D merged := by
      intro D
      apply Chain.allOrderly_mergeWithin_of_isWord _ _ _ hmerged
      · intro chain hchain
        obtain ⟨word, _, rfl⟩ := List.mem_map.1 hchain
        exact isWord_chain hspecials word
      · exact (nodup_sortDistinct words).map fun _ _ => chain_injective hspecials
      · obtain ⟨word, hword⟩ := List.exists_mem_of_ne_nil words hwords
        exact List.ne_nil_of_mem (List.mem_map_of_mem (mem_sortDistinct.2 hword))
    have htree : ∀ D, ∃ r, Chain.IsOrderly .finite D r ∧
        read (Chain.join merged).toList = some r := by
      intro D
      obtain ⟨r, hr, htext, _⟩ := Chain.exists_tree_join (horderly D)
      exact ⟨r, hr, read_eq_some_iff.2 ⟨hr.within.wellFormed Fragment.finite_closed, htext⟩⟩
    obtain ⟨r, hr, hread⟩ := htree ⟨fun _ => True, fun _ _ => True⟩
    obtain ⟨hwf, htext⟩ := read_eq_some_iff.1 hread
    refine ⟨_, _, r, hpattern, isFront_assertion hspecials words hwf htext, hread, hr.sequence,
      fun D => ?_⟩
    obtain ⟨s, hs, hread'⟩ := htree D
    cases hread.symm.trans hread'
    exact hs.alternations

/-- **Alternations are deterministic at their head.**  Whatever the limit, and with an assertion
    in front or without it: if there is an expression for some words, then in each of its
    alternations, however deep, no branch matches the empty text, and no two branches match
    texts that begin with the same character. -/
theorem deterministic_synthesizeEncoded {options : Options} (hspecials : options.specials = [])
    {encoded : List (List UInt8)} {pattern : String}
    (h : (synthesizeEncoded options encoded).outcome = .ok pattern) :
    ∃ front whole r, pattern = front ++ whole ∧ IsFront options front ∧
      read whole.toList = some r ∧ r.IsSequence ∧ ∀ D, r.EachAlternation (Deterministic D) := by
  obtain ⟨front, whole, r, hpattern, hfront, hread, hseq, hproper⟩ :=
    exists_proper_tree hspecials h
  exact ⟨front, whole, r, hpattern, hfront, hread, hseq, fun D => (hproper D).imp fun _ => And.left⟩

/-- The words `ax`, `bx`, `e`, `f`, `gp`, `gqr` and `gqs`, with an alternation inside another
    one. -/
theorem deterministic_synthesizeEncoded_seven_words :
    (synthesizeEncoded ⟨[], true, 3⟩ [[0x61, 0x78], [0x62, 0x78], [0x65], [0x66], [0x67, 0x70],
      [0x67, 0x71, 0x72], [0x67, 0x71, 0x73]]).outcome =
        .ok "(?=[abefg])(?:[ef]|g(?:p|q[rs])|[ab]x)" ∧
    ∃ front whole r, "(?=[abefg])(?:[ef]|g(?:p|q[rs])|[ab]x)" = front ++ whole ∧
      IsFront ⟨[], true, 3⟩ front ∧ read whole.toList = some r ∧ r.IsSequence ∧
        ∀ D, r.EachAlternation (Deterministic D) := by
  have hrun : (synthesizeEncoded ⟨[], true, 3⟩ [[0x61, 0x78], [0x62, 0x78], [0x65], [0x66],
      [0x67, 0x70], [0x67, 0x71, 0x72], [0x67, 0x71, 0x73]]).outcome =
        .ok "(?=[abefg])(?:[ef]|g(?:p|q[rs])|[ab]x)" := by decide +kernel
  exact ⟨hrun, deterministic_synthesizeEncoded rfl hrun⟩

/-- **Folding into classes is complete.**  Whatever the limit, and with an assertion in front or
    without it: if there is an expression for some words, then none of its alternations, however
    deep, has two branches that are just a class-safe symbol or a bracket expression. -/
theorem folded_synthesizeEncoded {options : Options} (hspecials : options.specials = [])
    {encoded : List (List UInt8)} {pattern : String}
    (h : (synthesizeEncoded options encoded).outcome = .ok pattern) :
    ∃ front whole r, pattern = front ++ whole ∧ IsFront options front ∧
      read whole.toList = some r ∧ r.IsSequence ∧ r.EachAlternation Folded := by
  obtain ⟨front, whole, r, hpattern, hfront, hread, hseq, hproper⟩ :=
    exists_proper_tree hspecials h
  exact ⟨front, whole, r, hpattern, hfront, hread, hseq,
    (hproper ⟨fun _ => True, fun _ _ => True⟩).imp fun _ => And.right⟩

/-- The empty word, `a`, `ab`, `b`, `bc` and `c`: of the three words of one character only one is
    a branch. -/
theorem folded_synthesizeEncoded_six_words :
    (synthesizeEncoded .default [[], [0x61], [0x61, 0x62], [0x62], [0x62, 0x63], [0x63]]).outcome =
      .ok "(?:c|ab?|bc?)?" ∧
    ∃ front whole r, "(?:c|ab?|bc?)?" = front ++ whole ∧ IsFront .default front ∧
      read whole.toList = some r ∧ r.IsSequence ∧ r.EachAlternation Folded := by
  have hrun : (synthesizeEncoded .default
      [[], [0x61], [0x61, 0x62], [0x62], [0x62, 0x63], [0x63]]).outcome =
        .ok "(?:c|ab?|bc?)?" := by decide +kernel
  exact ⟨hrun, folded_synthesizeEncoded rfl hrun⟩

end WordList

end RegexText
