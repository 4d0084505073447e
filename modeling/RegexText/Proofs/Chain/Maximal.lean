/-
  RegexText/Proofs/Chain/Maximal.lean
  ===================================
  **Factoring takes off all that chains share.**

  The front is the longest one, so the middles do not all start alike.  The back
  is the longest one within a bound, and the bound stands in the way only of
  chains that are all the same: chains of different lengths may lose all of the
  shortest one, and what equally long chains share at their ends is shorter than
  they are as soon as two of them differ.  So the middles do not all end alike
  either.

  This is about middles that have a first and a last atom.  An empty middle has
  none, and beside it nothing more can be taken off the others.
-/
import RegexText.Proofs.Chain.Factor
import RegexText.Proofs.Chain.Merge

namespace RegexText.Chain

/-- Are there two chains of which `atom?` picks different atoms, such as their first ones? -/
def DifferAt (atom? : Chain → Option String) (chains : List Chain) : Prop :=
  ∃ c ∈ chains, ∃ d ∈ chains, ∃ a b, atom? c = some a ∧ atom? d = some b ∧ a ≠ b

variable {chains : List Chain}

/-! ### The shortest and the longest -/

theorem le_longest {chain : Chain} (h : chain ∈ chains) : chain.length ≤ longest chains :=
  List.le_max?_getD_of_mem (List.mem_map_of_mem h)

theorem exists_length_eq_shortest (hne : chains ≠ []) :
    ∃ chain ∈ chains, chain.length = shortest chains := by
  cases hmin : (chains.map List.length).min? with
  | none => exact absurd (List.map_eq_nil_iff.1 (List.min?_eq_none_iff.1 hmin)) hne
  | some least =>
    obtain ⟨chain, hchain, hlength⟩ := List.mem_map.1 (List.min?_mem hmin)
    exact ⟨chain, hchain, by rw [hlength, shortest, hmin, Option.getD_some]⟩

/-! ### Chains of which two differ -/

section Differing

variable (h : ∃ c ∈ chains, ∃ d ∈ chains, c ≠ d)

include h

/-- What all of them end with is within the bound of the back. -/
theorem length_sharedFront_reverse_le :
    (sharedFront (chains.map List.reverse)).length ≤ backBound chains := by
  obtain ⟨c, hc, d, hd, hcd⟩ := h
  have hfronts : ∀ chain ∈ chains,
      sharedFront (chains.map List.reverse) <+: chain.reverse :=
    fun chain hchain => isPrefix_sharedFront (List.mem_map_of_mem hchain)
  have hshortest : (sharedFront (chains.map List.reverse)).length ≤ shortest chains := by
    obtain ⟨chain, hchain, hlength⟩ := exists_length_eq_shortest (List.ne_nil_of_mem hc)
    have hle := (hfronts chain hchain).length_le
    rwa [List.length_reverse, hlength] at hle
  unfold backBound
  split
  · -- one atom more would make it all of every chain
    rename_i hequal
    by_contra hmore
    have hwhole : ∀ chain ∈ chains,
        sharedFront (chains.map List.reverse) = chain.reverse := by
      intro chain hchain
      apply (hfronts chain hchain).eq_of_length_le
      have hle := le_longest hchain
      rw [List.length_reverse]
      omega
    exact hcd (List.reverse_injective ((hwhole c hc).symm.trans (hwhole d hd)))
  · exact hshortest

/-- Two of them differ behind the front. -/
theorem exists_ne_rests :
    ∃ c ∈ chains.map (·.drop (sharedFront chains).length),
      ∃ d ∈ chains.map (·.drop (sharedFront chains).length), c ≠ d := by
  obtain ⟨c, hc, d, hd, hcd⟩ := h
  refine ⟨_, List.mem_map_of_mem hc, _, List.mem_map_of_mem hd, ?_⟩
  intro hrest
  apply hcd
  rw [← front_append_drop hc, ← front_append_drop hd, hrest]

/-- The middles do not all end in the same atom. -/
theorem not_forall_getLast_middles (last : String) :
    ¬ ∀ middle ∈ (factor chains).middles, middle.getLast? = some last := by
  intro hall
  have hrests := exists_ne_rests h
  have hback : (factor chains).back.reverse =
      sharedFront ((chains.map (·.drop (sharedFront chains).length)).map List.reverse) := by
    have hbounded : (factor chains).back =
        sharedBack (chains.map (·.drop (sharedFront chains).length)) := rfl
    rw [hbounded, sharedBack, List.reverse_reverse]
    exact List.take_of_length_le (length_sharedFront_reverse_le hrests)
  have hlonger : (factor chains).back.reverse ++ [last] <+:
      sharedFront ((chains.map (·.drop (sharedFront chains).length)).map List.reverse) := by
    obtain ⟨c, hc, _⟩ := hrests
    apply isPrefix_sharedFront_of_forall (by simpa using List.ne_nil_of_mem hc)
    intro reversed hreversed
    obtain ⟨rest, hrest, rfl⟩ := List.mem_map.1 hreversed
    have hmiddle : rest.take (rest.length - (factor chains).back.length) ∈
        (factor chains).middles := List.mem_map_of_mem hrest
    obtain ⟨earlier, hearlier⟩ := List.getLast?_eq_some_iff.1 (hall _ hmiddle)
    rw [← take_append_back hrest, hearlier]
    exact ⟨earlier.reverse, by simp⟩
  have hlength := hlonger.length_le
  rw [← hback, List.length_append, List.length_singleton] at hlength
  exact absurd hlength (Nat.not_succ_le_self _)

theorem exists_middle_ne_nil : ∃ middle ∈ (factor chains).middles, middle ≠ [] := by
  obtain ⟨c, hc, d, hd, hcd⟩ := h
  by_contra hnone
  push Not at hnone
  have hsame : ∀ chain ∈ chains, chain = (factor chains).front ++ (factor chains).back := by
    intro chain hchain
    rw [← map_middles_factor chains] at hchain
    obtain ⟨middle, hmiddle, rfl⟩ := List.mem_map.1 hchain
    rw [hnone middle hmiddle, List.append_nil]
  exact hcd ((hsame c hc).trans (hsame d hd).symm)

/-- Equally long chains have equally long middles, so that none is empty. -/
theorem middle_ne_nil_of_length (hlength : ∀ c ∈ chains, ∀ d ∈ chains, c.length = d.length)
    {middle : Chain} (hmiddle : middle ∈ (factor chains).middles) : middle ≠ [] := by
  rintro rfl
  obtain ⟨other, hother, hsome⟩ := exists_middle_ne_nil h
  have hequal := hlength _ (around_mem_of_mem_middles hmiddle) _
    (around_mem_of_mem_middles hother)
  have hpos := List.length_pos_iff.2 hsome
  simp only [List.length_append, List.length_nil] at hequal
  omega

/-- Where the middles are not all alike, two of them differ, unless one has no atom there. -/
theorem differAt_middles {atom? : Chain → Option String}
    (hatom : ∀ chain, chain ≠ [] → (atom? chain).isSome)
    (hnot : ∀ atom, ¬ ∀ middle ∈ (factor chains).middles, atom? middle = some atom)
    (hfull : [] ∉ (factor chains).middles) : DifferAt atom? (factor chains).middles := by
  obtain ⟨middle, hmiddle, hsome⟩ := exists_middle_ne_nil h
  obtain ⟨a, ha⟩ := Option.isSome_iff_exists.1 (hatom middle hsome)
  obtain ⟨other, hother, hdiffers⟩ : ∃ other ∈ (factor chains).middles,
      atom? other ≠ some a := by
    have hexists := hnot a
    push Not at hexists
    exact hexists
  have hfilled : other ≠ [] := by
    rintro rfl
    exact hfull hother
  obtain ⟨b, hb⟩ := Option.isSome_iff_exists.1 (hatom other hfilled)
  refine ⟨middle, hmiddle, other, hother, a, b, ha, hb, ?_⟩
  rintro rfl
  exact hdiffers hb

/-- They are merged into one expression between what they share. -/
theorem exists_expression_of_mergeWithin {limit levels : Nat} {chain : Chain}
    (hmerge : (mergeWithin limit levels chains).outcome = .ok chain) :
    ∃ expression, chain = (factor chains).front ++ expression :: (factor chains).back := by
  obtain ⟨middle, hmiddle, hsome⟩ := exists_middle_ne_nil h
  obtain ⟨c, hc, d, hd, hcd⟩ := h
  rcases cases_of_mergeWithin (List.ne_nil_of_mem hc) hmerge with hsingle | ⟨_, _, _, hstep⟩
  · rw [hsingle] at hc hd
    exact absurd ((List.mem_singleton.1 hc).trans (List.mem_singleton.1 hd).symm) hcd
  · rcases cases_of_mergeStep hstep with ⟨hempty, _⟩ | ⟨_, expression, _, hchain⟩
    · exact absurd (List.isEmpty_iff.1 (List.all_eq_true.1 hempty middle hmiddle)) hsome
    · exact ⟨expression, hchain⟩

end Differing

/-- **Factoring loses nothing, and takes off all that chains share.**  Chains that are not all the
    same are their middles between one front and one back, in the same order, and merging leaves
    both as they are.  Some middle is not empty, and none is if the chains are equally long.  If no
    middle is empty, two of them start with different atoms, and two end in different ones. -/
theorem maximal_factor (h : ∃ c ∈ chains, ∃ d ∈ chains, c ≠ d) :
    (factor chains).middles.map
        (fun middle => (factor chains).front ++ middle ++ (factor chains).back) = chains ∧
      (∀ limit levels chain, (mergeWithin limit levels chains).outcome = .ok chain →
        ∃ expression, chain = (factor chains).front ++ expression :: (factor chains).back) ∧
      (∃ middle ∈ (factor chains).middles, middle ≠ []) ∧
      ((∀ c ∈ chains, ∀ d ∈ chains, c.length = d.length) →
        ∀ middle ∈ (factor chains).middles, middle ≠ []) ∧
      ([] ∈ (factor chains).middles ∨
        DifferAt List.head? (factor chains).middles ∧
          DifferAt List.getLast? (factor chains).middles) := by
  have hne : chains ≠ [] := by
    obtain ⟨c, hc, _⟩ := h
    exact List.ne_nil_of_mem hc
  refine ⟨map_middles_factor chains, fun _ _ _ => exists_expression_of_mergeWithin h,
    exists_middle_ne_nil h, fun hlength _ => middle_ne_nil_of_length h hlength, ?_⟩
  by_cases hempty : [] ∈ (factor chains).middles
  · exact .inl hempty
  · refine .inr ⟨?_, ?_⟩
    · exact differAt_middles h (fun _ => List.isSome_head?.2) (not_forall_head_middles hne) hempty
    · exact differAt_middles h (fun _ => List.getLast?_isSome.2) (not_forall_getLast_middles h)
        hempty

/-- Three chains of four atoms share their first atom and their last one.  Behind the first, two
    start alike; in front of the last, two end alike. -/
theorem maximal_factor_three_chains :
    (∃ c ∈ [["b", "o", "a", "t"], ["b", "e", "a", "t"], ["b", "o", "o", "t"]],
      ∃ d ∈ [["b", "o", "a", "t"], ["b", "e", "a", "t"], ["b", "o", "o", "t"]], c ≠ d) ∧
    factor [["b", "o", "a", "t"], ["b", "e", "a", "t"], ["b", "o", "o", "t"]] =
      ⟨["b"], [["o", "a"], ["e", "a"], ["o", "o"]], ["t"]⟩ ∧
    [["o", "a"], ["e", "a"], ["o", "o"]].map (fun middle => ["b"] ++ middle ++ ["t"]) =
      [["b", "o", "a", "t"], ["b", "e", "a", "t"], ["b", "o", "o", "t"]] ∧
    (∃ expression, ["b", "(?:o[ao]|ea)", "t"] = ["b"] ++ expression :: ["t"]) ∧
    (∀ middle ∈ [["o", "a"], ["e", "a"], ["o", "o"]], middle ≠ []) ∧
    DifferAt List.head? [["o", "a"], ["e", "a"], ["o", "o"]] ∧
    DifferAt List.getLast? [["o", "a"], ["e", "a"], ["o", "o"]] := by
  have hdiffer : ∃ c ∈ [["b", "o", "a", "t"], ["b", "e", "a", "t"], ["b", "o", "o", "t"]],
      ∃ d ∈ [["b", "o", "a", "t"], ["b", "e", "a", "t"], ["b", "o", "o", "t"]], c ≠ d := by decide
  have hfactor : factor [["b", "o", "a", "t"], ["b", "e", "a", "t"], ["b", "o", "o", "t"]] =
      ⟨["b"], [["o", "a"], ["e", "a"], ["o", "o"]], ["t"]⟩ := by decide +kernel
  have hmerge : (mergeWithin 2 3
      [["b", "o", "a", "t"], ["b", "e", "a", "t"], ["b", "o", "o", "t"]]).outcome =
        .ok ["b", "(?:o[ao]|ea)", "t"] := by decide +kernel
  obtain ⟨hsplit, hmerged, _, hfilled, hends⟩ := maximal_factor hdiffer
  rw [hfactor] at hsplit hmerged hfilled hends
  exact ⟨hdiffer, hfactor, hsplit, hmerged 2 3 _ hmerge, hfilled (by decide),
    hends.resolve_left (by decide)⟩

end RegexText.Chain
