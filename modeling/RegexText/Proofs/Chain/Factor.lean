/-
  RegexText/Proofs/Chain/Factor.lean
  ==================================
  **Taking shared fronts and backs off chains loses nothing.**

  Every chain is its middle between the shared front and the shared back.  The
  front is the longest one that there is, so the middles do not all start alike.
  When all middles are empty the back is empty too: the chains are equally long
  then, so the back is one atom shorter than what is left of them behind the
  front.
-/
import Mathlib.Data.List.Nodup
import RegexText.Chain

namespace RegexText.Chain

/-! ### Shared fronts and backs -/

theorem isPrefix_commonFront_left (as bs : Chain) : commonFront as bs <+: as := by
  fun_induction commonFront as bs with
  | case1 as b bs ih => exact (List.prefix_cons_inj b).2 ih
  | case2 => exact List.nil_prefix
  | case3 => exact List.nil_prefix

theorem isPrefix_commonFront_right (as bs : Chain) : commonFront as bs <+: bs := by
  fun_induction commonFront as bs with
  | case1 as b bs ih => exact (List.prefix_cons_inj b).2 ih
  | case2 => exact List.nil_prefix
  | case3 => exact List.nil_prefix

theorem isPrefix_foldl_commonFront (front : Chain) (chains : List Chain) :
    chains.foldl commonFront front <+: front ∧
      ∀ chain ∈ chains, chains.foldl commonFront front <+: chain := by
  induction chains generalizing front with
  | nil => exact ⟨List.prefix_rfl, by simp⟩
  | cons chain chains ih =>
    obtain ⟨hfront, hchains⟩ := ih (commonFront front chain)
    refine ⟨hfront.trans (isPrefix_commonFront_left _ _), List.forall_mem_cons.2 ⟨?_, hchains⟩⟩
    exact hfront.trans (isPrefix_commonFront_right _ _)

theorem isPrefix_sharedFront {chains : List Chain} {chain : Chain} (h : chain ∈ chains) :
    sharedFront chains <+: chain := by
  cases chains with
  | nil => cases h
  | cons first later =>
    obtain ⟨hfirst, hlater⟩ := isPrefix_foldl_commonFront first later
    rcases List.mem_cons.1 h with rfl | hmem
    · exact hfirst
    · exact hlater chain hmem

theorem isPrefix_commonFront {front as bs : Chain} (ha : front <+: as) (hb : front <+: bs) :
    front <+: commonFront as bs := by
  induction front generalizing as bs with
  | nil => exact List.nil_prefix
  | cons x front ih =>
    obtain ⟨as, rfl⟩ := ha
    obtain ⟨bs, rfl⟩ := hb
    rw [List.cons_append, List.cons_append, commonFront, if_pos rfl, List.prefix_cons_inj]
    exact ih (List.prefix_append _ _) (List.prefix_append _ _)

theorem isPrefix_foldl_commonFront_of_forall {front first : Chain} {chains : List Chain}
    (hfirst : front <+: first) (h : ∀ chain ∈ chains, front <+: chain) :
    front <+: chains.foldl commonFront first := by
  induction chains generalizing first with
  | nil => exact hfirst
  | cons chain chains ih =>
    obtain ⟨hchain, hchains⟩ := List.forall_mem_cons.1 h
    exact ih (isPrefix_commonFront hfirst hchain) hchains

/-- The shared front is the longest one. -/
theorem isPrefix_sharedFront_of_forall {front : Chain} {chains : List Chain} (hne : chains ≠ [])
    (h : ∀ chain ∈ chains, front <+: chain) : front <+: sharedFront chains := by
  obtain ⟨first, later, rfl⟩ := List.exists_cons_of_ne_nil hne
  obtain ⟨hfirst, hlater⟩ := List.forall_mem_cons.1 h
  exact isPrefix_foldl_commonFront_of_forall hfirst hlater

theorem isSuffix_sharedBack {chains : List Chain} {chain : Chain} (h : chain ∈ chains) :
    sharedBack chains <:+ chain := by
  have hfront : sharedFront (chains.map List.reverse) <+: chain.reverse :=
    isPrefix_sharedFront (List.mem_map_of_mem h)
  have hreverse := List.reverse_suffix.2 ((List.take_prefix (backBound chains) _).trans hfront)
  rw [List.reverse_reverse] at hreverse
  exact hreverse

theorem length_sharedBack_le (chains : List Chain) :
    (sharedBack chains).length ≤ backBound chains := by
  rw [sharedBack, List.length_reverse]
  exact List.length_take_le _ _

/-! ### Factoring -/

theorem front_append_drop {chains : List Chain} {chain : Chain} (h : chain ∈ chains) :
    sharedFront chains ++ chain.drop (sharedFront chains).length = chain :=
  List.prefix_iff_eq_append.1 (isPrefix_sharedFront h)

/-- What is left behind the front is a middle and the back. -/
theorem take_append_back {chains : List Chain} {rest : Chain}
    (h : rest ∈ chains.map (·.drop (sharedFront chains).length)) :
    rest.take (rest.length - (factor chains).back.length) ++ (factor chains).back = rest :=
  List.suffix_iff_eq_append.1 (isSuffix_sharedBack h)

/-- **Every chain is its middle between the shared front and the shared back.** -/
theorem map_middles_factor (chains : List Chain) :
    (factor chains).middles.map
      (fun middle => (factor chains).front ++ middle ++ (factor chains).back) = chains := by
  have hmiddles : (factor chains).middles =
      (chains.map (·.drop (sharedFront chains).length)).map fun rest =>
        rest.take (rest.length - (factor chains).back.length) := rfl
  rw [hmiddles, List.map_map, List.map_map]
  conv => rhs; rw [← List.map_id chains]
  apply List.map_congr_left
  intro chain hchain
  simp only [Function.comp_apply, List.append_assoc, take_append_back (List.mem_map_of_mem hchain)]
  exact front_append_drop hchain

theorem length_middles (chains : List Chain) :
    (factor chains).middles.length = chains.length := by
  simp [factor]

theorem nodup_middles {chains : List Chain} (h : chains.Nodup) :
    (factor chains).middles.Nodup := by
  rw [← map_middles_factor chains] at h
  exact h.of_map _

theorem middles_ne_nil {chains : List Chain} (hne : chains ≠ []) :
    (factor chains).middles ≠ [] := by
  intro hnil
  have hmap := map_middles_factor chains
  rw [hnil, List.map_nil] at hmap
  exact hne hmap.symm

theorem around_mem_of_mem_middles {chains : List Chain} {middle : Chain}
    (h : middle ∈ (factor chains).middles) :
    (factor chains).front ++ middle ++ (factor chains).back ∈ chains := by
  have hmem := List.mem_map_of_mem
    (f := fun middle => (factor chains).front ++ middle ++ (factor chains).back) h
  rwa [map_middles_factor] at hmem

/-- The middles do not all start with the same atom. -/
theorem not_forall_head_middles {chains : List Chain} (hne : chains ≠ []) (head : String) :
    ¬ ∀ middle ∈ (factor chains).middles, middle.head? = some head := by
  intro hall
  have hlonger : (factor chains).front ++ [head] <+: sharedFront chains := by
    apply isPrefix_sharedFront_of_forall hne
    intro chain hchain
    rw [← map_middles_factor chains] at hchain
    obtain ⟨middle, hmiddle, rfl⟩ := List.mem_map.1 hchain
    obtain ⟨later, rfl⟩ := List.head?_eq_some_iff.1 (hall middle hmiddle)
    exact ⟨later ++ (factor chains).back, by simp⟩
  have hlength := hlonger.length_le
  rw [List.length_append, List.length_singleton] at hlength
  exact absurd hlength (Nat.not_succ_le_self _)

/-- The back stops one atom short of chains that are equally long. -/
theorem backBound_of_forall_length {chains : List Chain} {n : Nat} (hne : chains ≠ [])
    (h : ∀ chain ∈ chains, chain.length = n) : backBound chains = n - 1 := by
  have hlengths : chains.map List.length = List.replicate chains.length n := by
    rw [List.eq_replicate_iff]
    refine ⟨List.length_map _, ?_⟩
    intro k hk
    obtain ⟨chain, hchain, rfl⟩ := List.mem_map.1 hk
    exact h chain hchain
  have hpos : 0 < chains.length := List.length_pos_iff.2 hne
  have hshortest : shortest chains = n := by
    rw [shortest, hlengths, List.min?_replicate_of_pos hpos, Option.getD_some]
  have hlongest : longest chains = n := by
    rw [longest, hlengths, List.max?_replicate_of_pos hpos, Option.getD_some]
  rw [backBound, hshortest, hlongest, if_pos rfl]

/-- If nothing lies between the front and the back, the front is everything. -/
theorem back_eq_nil_of_middles {chains : List Chain} (hne : chains ≠ [])
    (h : (factor chains).middles.all List.isEmpty = true) : (factor chains).back = [] := by
  have hlength : ∀ rest ∈ chains.map (·.drop (sharedFront chains).length),
      rest.length = (factor chains).back.length := by
    intro rest hrest
    have hmiddle : rest.take (rest.length - (factor chains).back.length) = [] :=
      List.isEmpty_iff.1 (List.all_eq_true.1 h _ (List.mem_map_of_mem hrest))
    have happend := take_append_back hrest
    rw [hmiddle, List.nil_append] at happend
    exact congrArg List.length happend.symm
  have hbound := length_sharedBack_le (chains.map (·.drop (sharedFront chains).length))
  rw [backBound_of_forall_length (by simpa using hne) hlength] at hbound
  have hback : (factor chains).back.length ≤ (factor chains).back.length - 1 := hbound
  exact List.eq_nil_of_length_eq_zero (by omega)

end RegexText.Chain
