/-
  RegexText/Proofs/Chain/Groups.lean
  ==================================
  **Groups of chains, and folding the groups of one symbol.**

  Grouping sorts the non-empty chains by their first atoms.  Folding then replaces
  the groups of one class-safe symbol by a group for their class.  The heads
  differ, so such a group is known by its head; what folding drops is what the
  class matches.

  A class that is written down already may be the head of a group, and then the
  new class joins that group.
-/
import RegexText.Chain.Merge
import RegexText.Proofs.Chain.Language

namespace RegexText.Chain

open Text Regular

variable {F : Fragment} {D : Dialect}

/-! ### Grouping -/

def members (groups : List Group) : List Chain := groups.flatMap Group.chains

theorem mem_members {groups : List Group} {chain : Chain} :
    chain ∈ members groups ↔ ∃ group ∈ groups, chain ∈ group.chains := List.mem_flatMap

/-- Groups with different heads, whose chains start with their heads. -/
structure Grouped (groups : List Group) : Prop where
  distinct : (groups.map Group.head).Nodup
  starts : ∀ group ∈ groups, ∀ chain ∈ group.chains, chain.head? = some group.head
  nonempty : ∀ group ∈ groups, group.chains ≠ []

/-- A group is known by its head. -/
theorem Grouped.eq_of_head {groups : List Group} (h : Grouped groups) {a b : Group}
    (ha : a ∈ groups) (hb : b ∈ groups) (hhead : a.head = b.head) : a = b :=
  List.inj_on_of_nodup_map h.distinct ha hb hhead

theorem grouped_groupByHead (chains : List Chain) : Grouped (groupByHead chains) where
  distinct := by
    have hmap : (groupByHead chains).map Group.head =
        (chains.filterMap List.head?).eraseDups := by
      simp [groupByHead, Function.comp_def]
    rw [hmap]
    exact nodup_eraseDups _
  starts := by
    intro group hgroup chain hchain
    obtain ⟨head, _, rfl⟩ := List.mem_map.1 hgroup
    simpa using (List.mem_filter.1 hchain).2
  nonempty := by
    intro group hgroup
    obtain ⟨head, hhead, rfl⟩ := List.mem_map.1 hgroup
    obtain ⟨chain, hchain, hstarts⟩ := List.mem_filterMap.1 (List.mem_eraseDups.1 hhead)
    exact List.ne_nil_of_mem (List.mem_filter.2 ⟨hchain, by simpa using hstarts⟩)

theorem sublist_of_mem_groupByHead {chains : List Chain} {group : Group}
    (h : group ∈ groupByHead chains) : group.chains.Sublist chains := by
  obtain ⟨head, _, rfl⟩ := List.mem_map.1 h
  exact List.filter_sublist

theorem mem_members_groupByHead {chains : List Chain} {chain : Chain} :
    chain ∈ members (groupByHead chains) ↔ chain ∈ chains ∧ chain ≠ [] := by
  rw [mem_members]
  constructor
  · rintro ⟨group, hgroup, hchain⟩
    refine ⟨(sublist_of_mem_groupByHead hgroup).subset hchain, ?_⟩
    rintro rfl
    cases (grouped_groupByHead chains).starts group hgroup [] hchain
  · rintro ⟨hchain, hne⟩
    obtain ⟨head, later, rfl⟩ := List.exists_cons_of_ne_nil hne
    refine ⟨_, List.mem_map.2 ⟨head, ?_, rfl⟩, List.mem_filter.2 ⟨hchain, by simp⟩⟩
    exact List.mem_eraseDups.2 (List.mem_filterMap.2 ⟨_, hchain, rfl⟩)

theorem members_groupByHead_ne_nil {chains : List Chain}
    (hne : ¬ chains.all List.isEmpty = true) : members (groupByHead chains) ≠ [] := by
  intro hnil
  apply hne
  rw [List.all_eq_true]
  intro chain hchain
  by_contra hchainne
  have hin := mem_members_groupByHead.2 ⟨hchain, by simpa using hchainne⟩
  rw [hnil] at hin
  cases hin

theorem nodup_members_groupByHead {chains : List Chain} (h : chains.Nodup) :
    (members (groupByHead chains)).Nodup := by
  have hgroups := grouped_groupByHead chains
  refine List.nodup_flatMap.2 ⟨fun group hgroup => ?_, ?_⟩
  · exact h.sublist (sublist_of_mem_groupByHead hgroup)
  · refine (List.Pairwise.and_mem.1 (List.pairwise_map.1 hgroups.distinct)).imp ?_
    rintro a b ⟨ha, hb, hne⟩ chain hin hin'
    have hhead := hgroups.starts a ha chain hin
    rw [hgroups.starts b hb chain hin', Option.some.injEq] at hhead
    exact hne hhead.symm

/-! ### Folding -/

theorem Grouped.chains_of_isSingleSymbol {groups : List Group} (h : Grouped groups)
    {group : Group} (hgroup : group ∈ groups) (hsingle : isSingleSymbol group = true) :
    group.chains = [[group.head]] ∧ Symbol.isClassSafe group.head = true := by
  unfold isSingleSymbol at hsingle
  split at hsingle
  · rename_i x hchains
    have hstarts := h.starts group hgroup [x] (by rw [hchains]; exact List.mem_singleton_self _)
    rw [List.head?_cons, Option.some.injEq] at hstarts
    rw [hchains, hstarts]
    exact ⟨rfl, hsingle⟩
  · cases hsingle

def singles (groups : List Group) : List String :=
  (groups.filter isSingleSymbol).map Group.head

def others (groups : List Group) : List Group :=
  groups.filter fun group => !(singles groups).contains group.head

theorem Grouped.mem_singles {groups : List Group} (h : Grouped groups) {group : Group}
    (hgroup : group ∈ groups) :
    group.head ∈ singles groups ↔ isSingleSymbol group = true := by
  constructor
  · intro hin
    obtain ⟨other, hother, hhead⟩ := List.mem_map.1 hin
    obtain ⟨hother, hsingle⟩ := List.mem_filter.1 hother
    rwa [h.eq_of_head hother hgroup hhead] at hsingle
  · intro hsingle
    exact List.mem_map_of_mem (List.mem_filter.2 ⟨hgroup, hsingle⟩)

theorem Grouped.mem_members_of_mem_singles {groups : List Group} (h : Grouped groups)
    {x : String} (hx : x ∈ singles groups) :
    Symbol.isClassSafe x = true ∧ [x] ∈ members groups := by
  obtain ⟨group, hgroup, rfl⟩ := List.mem_map.1 hx
  obtain ⟨hgroup, hsingle⟩ := List.mem_filter.1 hgroup
  obtain ⟨hchains, hsafe⟩ := h.chains_of_isSingleSymbol hgroup hsingle
  refine ⟨hsafe, mem_members.2 ⟨group, hgroup, ?_⟩⟩
  rw [hchains]
  exact List.mem_singleton_self _

/-- What the chains of all groups match is matched by a symbol or by another group. -/
theorem Grouped.mem_union_members {groups : List Group} (h : Grouped groups) {w : List Char} :
    w ∈ union D (members groups) ↔
      (∃ x ∈ singles groups, w ∈ atomLanguage D x) ∨ w ∈ union D (members (others groups)) := by
  simp only [mem_union, mem_members]
  constructor
  · rintro ⟨chain, ⟨group, hgroup, hchain⟩, hw⟩
    by_cases hsingle : isSingleSymbol group = true
    · obtain ⟨hchains, _⟩ := h.chains_of_isSingleSymbol hgroup hsingle
      rw [hchains, List.mem_singleton] at hchain
      subst hchain
      exact .inl ⟨group.head, (h.mem_singles hgroup).2 hsingle, by simpa using hw⟩
    · have hother : group ∈ others groups := by
        refine List.mem_filter.2 ⟨hgroup, ?_⟩
        simpa using fun hin => hsingle ((h.mem_singles hgroup).1 hin)
      exact .inr ⟨chain, ⟨group, hother, hchain⟩, hw⟩
  · rintro (⟨x, hx, hw⟩ | ⟨chain, ⟨group, hgroup, hchain⟩, hw⟩)
    · obtain ⟨_, hchain⟩ := h.mem_members_of_mem_singles hx
      exact ⟨[x], mem_members.1 hchain, by simpa using hw⟩
    · exact ⟨chain, ⟨group, (List.mem_filter.1 hgroup).1, hchain⟩, hw⟩

/-- Joining the new class to the group that starts with it leaves the other chains as they
    were. -/
theorem mem_joined {groups : List Group} (h : Grouped groups) (head : String) {chain : Chain} :
    (chain ∈ ((groups.find? fun group => group.head == head).map Group.chains).getD [] ∨
      ∃ group ∈ groups.filter (fun group => group.head != head), chain ∈ group.chains) ↔
    chain ∈ members groups := by
  rw [mem_members]
  constructor
  · rintro (hjoined | ⟨group, hgroup, hchain⟩)
    · cases hfind : groups.find? fun group => group.head == head with
      | none =>
        rw [hfind] at hjoined
        cases hjoined
      | some group =>
        rw [hfind] at hjoined
        exact ⟨group, List.mem_of_find?_eq_some hfind, hjoined⟩
    · exact ⟨group, (List.mem_filter.1 hgroup).1, hchain⟩
  · rintro ⟨group, hgroup, hchain⟩
    by_cases hhead : group.head = head
    · cases hfind : groups.find? fun group => group.head == head with
      | none =>
        have hno := List.find?_eq_none.1 hfind group hgroup
        simp [hhead] at hno
      | some found =>
        have hfound : found.head = head := by simpa using List.find?_some hfind
        have heq := h.eq_of_head (List.mem_of_find?_eq_some hfind) hgroup
          (hfound.trans hhead.symm)
        subst heq
        exact .inl hchain
    · exact .inr ⟨group, List.mem_filter.2 ⟨hgroup, by simpa using hhead⟩, hchain⟩

theorem foldSingleSymbols_of_le {groups : List Group} (h : 2 ≤ (singles groups).length) :
    foldSingleSymbols groups =
      ⟨Symbol.characterClass (sortDistinct (singles groups)),
        (((others groups).find? fun group =>
            group.head == Symbol.characterClass (sortDistinct (singles groups))).map
          Group.chains).getD [] ++
            [[Symbol.characterClass (sortDistinct (singles groups))]]⟩ ::
        (others groups).filter fun group =>
          group.head != Symbol.characterClass (sortDistinct (singles groups)) := by
  have hnot : ¬ (singles groups).length < 2 := by omega
  exact if_neg hnot

theorem Grouped.nodup_singles {groups : List Group} (h : Grouped groups) :
    (singles groups).Nodup :=
  h.distinct.sublist (List.filter_sublist.map Group.head)

/-- There are different symbols to fold. -/
theorem Grouped.exists_ne_of_le {groups : List Group} (h : Grouped groups)
    (hlength : 2 ≤ (singles groups).length) :
    ∃ a ∈ singles groups, ∃ b ∈ singles groups, a ≠ b := by
  rw [← List.toFinset_card_of_nodup h.nodup_singles] at hlength
  simpa only [List.mem_toFinset] using Finset.one_lt_card.1 hlength

theorem Grouped.rest {groups : List Group} (h : Grouped groups) : Grouped (others groups) where
  distinct := h.distinct.sublist (List.filter_sublist.map Group.head)
  starts group hgroup := h.starts group (List.mem_filter.1 hgroup).1
  nonempty group hgroup := h.nonempty group (List.mem_filter.1 hgroup).1

/-- Folding keeps groups apart, and each starts with its head. -/
theorem Grouped.fold {groups : List Group} (h : Grouped groups) :
    Grouped (foldSingleSymbols groups) := by
  rcases Nat.lt_or_ge (singles groups).length 2 with hlt | hlength
  · have hfold : foldSingleSymbols groups = groups := if_pos hlt
    rwa [hfold]
  · rw [foldSingleSymbols_of_le hlength]
    generalize Symbol.characterClass (sortDistinct (singles groups)) = head
    constructor
    · refine List.nodup_cons.2 ⟨?_, h.rest.distinct.sublist (List.filter_sublist.map Group.head)⟩
      intro hin
      obtain ⟨group, hgroup, hhead⟩ := List.mem_map.1 hin
      have hne := (List.mem_filter.1 hgroup).2
      rw [hhead] at hne
      simp at hne
    · refine List.forall_mem_cons.2 ⟨?_, fun group hgroup =>
        h.rest.starts group (List.mem_filter.1 hgroup).1⟩
      intro chain hchain
      rcases List.mem_append.1 hchain with hjoined | hnew
      · cases hfind : (others groups).find? fun group => group.head == head with
        | none =>
          rw [hfind] at hjoined
          cases hjoined
        | some group =>
          rw [hfind] at hjoined
          have hhead : group.head = head := by simpa using List.find?_some hfind
          exact hhead ▸ h.rest.starts group (List.mem_of_find?_eq_some hfind) chain hjoined
      · rw [List.mem_singleton.1 hnew]
        rfl
    · refine List.forall_mem_cons.2 ⟨?_, fun group hgroup =>
        h.rest.nonempty group (List.mem_filter.1 hgroup).1⟩
      exact List.append_ne_nil_of_right_ne_nil _ (List.cons_ne_nil _ _)

theorem Grouped.class_spec (hF : F.Closed) {groups : List Group} (h : Grouped groups)
    (hpieces : ∀ chain ∈ members groups, AllPieces F chain)
    (hlength : 2 ≤ (singles groups).length) :
    IsPiece F (Symbol.characterClass (sortDistinct (singles groups))) ∧
      ∀ w, w ∈ atomLanguage D (Symbol.characterClass (sortDistinct (singles groups))) ↔
        ∃ x ∈ singles groups, w ∈ atomLanguage D x := by
  have hsafe : ∀ x ∈ sortDistinct (singles groups),
      Symbol.isClassSafe x = true ∧ IsPiece F x := by
    intro x hx
    obtain ⟨hsafe, hchain⟩ := h.mem_members_of_mem_singles (mem_sortDistinct.1 hx)
    exact ⟨hsafe, hpieces _ hchain x (List.mem_singleton_self x)⟩
  obtain ⟨a, ha, b, hb, hab⟩ := h.exists_ne_of_le hlength
  obtain ⟨hpiece, hlanguage⟩ := characterClass_spec (D := D) hF hsafe (mem_sortDistinct.2 ha)
    (mem_sortDistinct.2 hb) hab
  refine ⟨hpiece, ?_⟩
  intro w
  rw [hlanguage]
  simp only [mem_sortDistinct]

/-- **Folding symbols into a class keeps what the groups match.** -/
theorem Grouped.foldSingleSymbols_spec (hF : F.Closed) {groups : List Group} (h : Grouped groups)
    (hne : groups ≠ []) (hpieces : ∀ chain ∈ members groups, AllPieces F chain) :
    foldSingleSymbols groups ≠ [] ∧
      (∀ group ∈ foldSingleSymbols groups, group.chains ≠ []) ∧
      (∀ chain ∈ members (foldSingleSymbols groups), AllPieces F chain) ∧
      union D (members (foldSingleSymbols groups)) = union D (members groups) := by
  rcases Nat.lt_or_ge (singles groups).length 2 with hlt | hlength
  · have hfold : foldSingleSymbols groups = groups := if_pos hlt
    rw [hfold]
    exact ⟨hne, h.nonempty, hpieces, rfl⟩
  · obtain ⟨hclass, hlanguage⟩ := h.class_spec (D := D) hF hpieces hlength
    rw [foldSingleSymbols_of_le hlength]
    generalize Symbol.characterClass (sortDistinct (singles groups)) = head at hclass hlanguage ⊢
    have hjoined : ∀ chain, chain ∈ members (⟨head, (((others groups).find? fun group =>
          group.head == head).map Group.chains).getD [] ++ [[head]]⟩ ::
        (others groups).filter fun group => group.head != head) ↔
          chain ∈ members (others groups) ∨ chain = [head] := by
      intro chain
      rw [← mem_joined h.rest head]
      simp only [mem_members, List.mem_cons, exists_eq_or_imp, List.mem_append, List.not_mem_nil,
        or_false]
      exact or_right_comm
    refine ⟨List.cons_ne_nil _ _, ?_, ?_, ?_⟩
    · intro group hgroup
      rcases List.mem_cons.1 hgroup with rfl | hother
      · exact List.append_ne_nil_of_right_ne_nil _ (List.cons_ne_nil _ _)
      · exact h.rest.nonempty group (List.mem_filter.1 hother).1
    · intro chain hchain
      rcases (hjoined chain).1 hchain with hother | rfl
      · obtain ⟨group, hgroup, hin⟩ := mem_members.1 hother
        exact hpieces chain (mem_members.2 ⟨group, (List.mem_filter.1 hgroup).1, hin⟩)
      · intro a ha
        rw [List.mem_singleton.1 ha]
        exact hclass
    · ext w
      rw [h.mem_union_members, ← hlanguage, mem_union, mem_union]
      simp only [hjoined]
      constructor
      · rintro ⟨chain, hother | rfl, hw⟩
        · exact .inr ⟨chain, hother, hw⟩
        · exact .inl (by simpa using hw)
      · rintro (hw | ⟨chain, hother, hw⟩)
        · exact ⟨[head], .inr rfl, by simpa using hw⟩
        · exact ⟨chain, .inl hother, hw⟩

end RegexText.Chain
