/-
  RegexText/Proofs/CategoryEscape/Ranges.lean
  ===========================================
  **The ranges of some categories are their code units.**

  Ranges are built from the last run of a table to the first.  A run in front of a
  range that begins where the run ends is joined to that range, so ranges never
  touch, and every unit of every selected run is in one of them.  None of this
  depends on what the table says, only on its runs not being empty.
-/
import RegexText.Proofs.Translation

namespace RegexText.CategoryEscape

open Unicode (Category CategoryRuns)

/-! ### Ranges -/

namespace UnitRange

def Contains (range : UnitRange) (u : Nat) : Prop := range.first ≤ u ∧ u ≤ range.last

/-- Is a range not empty, from `low` on and below `high`? -/
def Within (low high : Nat) (range : UnitRange) : Prop :=
  low ≤ range.first ∧ range.first ≤ range.last ∧ range.last < high

end UnitRange

/-- Are some ranges ascending, disjoint and without two neighbours that touch? -/
def Separate (ranges : List UnitRange) : Prop :=
  ranges.Pairwise fun range later => range.last + 1 < later.first

/-- A range in front of some others, joined to the next if it touches it. -/
def joined (range : UnitRange) : List UnitRange → List UnitRange
  | [] => [range]
  | next :: later =>
    if next.first = range.last + 1 then ⟨range.first, next.last⟩ :: later
    else range :: next :: later

section Joined

variable (range : UnitRange) {later : List UnitRange} {high : Nat}

theorem within_of_mem_joined (hrange : range.first ≤ range.last ∧ range.last < high)
    (hlater : ∀ next ∈ later, next.Within (range.last + 1) high) :
    ∀ next ∈ joined range later, next.Within range.first high := by
  intro next h
  have hbehind : ∀ next ∈ later, next.Within range.first high := by
    intro next hnext
    obtain ⟨hfirst, hle, hlast⟩ := hlater next hnext
    exact ⟨by omega, hle, hlast⟩
  unfold joined at h
  split at h
  · rw [List.mem_singleton.1 h]
    exact ⟨Nat.le_refl _, hrange⟩
  · rename_i following others
    split_ifs at h
    · rcases List.mem_cons.1 h with rfl | hmem
      · obtain ⟨hfirst, hle, hlast⟩ := hbehind following (List.mem_cons_self ..)
        exact ⟨Nat.le_refl _, Nat.le_trans hfirst hle, hlast⟩
      · exact hbehind next (List.mem_cons_of_mem _ hmem)
    · rcases List.mem_cons.1 h with rfl | hmem
      · exact ⟨Nat.le_refl _, hrange⟩
      · exact hbehind next hmem

theorem separate_joined (hlater : ∀ next ∈ later, next.Within (range.last + 1) high)
    (h : Separate later) : Separate (joined range later) := by
  unfold joined
  split
  · exact List.pairwise_singleton _ _
  · rename_i next others
    obtain ⟨hnext, hothers⟩ := List.pairwise_cons.1 h
    split_ifs with htouch
    · exact List.pairwise_cons.2 ⟨hnext, hothers⟩
    · have hfirst := hlater next (List.mem_cons_self ..)
      refine List.pairwise_cons.2 ⟨fun following hmem => ?_, h⟩
      rcases List.mem_cons.1 hmem with rfl | hmem
      · exact Nat.lt_of_le_of_ne hfirst.1 (Ne.symm htouch)
      · have hbehind := hnext following hmem
        have hle := hfirst.2.1
        have hlow := hfirst.1
        omega

theorem exists_contains_joined_iff (hrange : range.first ≤ range.last)
    (hlater : ∀ next ∈ later, next.Within (range.last + 1) high) {u : Nat} :
    (∃ next ∈ joined range later, next.Contains u) ↔
      range.Contains u ∨ ∃ next ∈ later, next.Contains u := by
  unfold joined
  split
  · simp
  · rename_i next others
    split_ifs with htouch
    · -- the joined range contains what the two contain
      have hle := (hlater next (List.mem_cons_self ..)).2.1
      have hboth : UnitRange.Contains ⟨range.first, next.last⟩ u ↔
          range.Contains u ∨ next.Contains u := by
        simp only [UnitRange.Contains]
        omega
      simp only [List.mem_cons, exists_eq_or_imp, hboth, or_assoc]
    · simp only [List.mem_cons, exists_eq_or_imp]

end Joined

/-! ### Ranges from any table -/

/-- How many codes a table covers. -/
def codeCount : CategoryRuns → Nat
  | [] => 0
  | run :: runs => run.1 + codeCount runs

variable {selected : Category → Bool} {start : Nat} {runs : CategoryRuns}

theorem rangesFrom_cons {length : Nat} (hlength : 0 < length) (category : Category) :
    rangesFrom selected start ((length, category) :: runs) =
      if selected category then
        joined ⟨start, start + length - 1⟩ (rangesFrom selected (start + length) runs)
      else rangesFrom selected (start + length) runs := by
  have hlast : start + length - 1 + 1 = start + length := by omega
  rw [rangesFrom]
  cases rangesFrom selected (start + length) runs with
  | nil => rfl
  | cons next later => simp only [joined, hlast]

theorem within_of_mem_rangesFrom (hruns : ∀ run ∈ runs, 0 < run.1) :
    ∀ range ∈ rangesFrom selected start runs, range.Within start (start + codeCount runs) := by
  induction runs generalizing start with
  | nil => simp [rangesFrom]
  | cons run runs ih =>
    obtain ⟨length, category⟩ := run
    have hlength : 0 < length := hruns _ (List.mem_cons_self ..)
    have ih := @ih (start + length) fun run hrun => hruns run (List.mem_cons_of_mem _ hrun)
    have htotal : start + codeCount ((length, category) :: runs) =
        start + length + codeCount runs := by
      rw [codeCount]
      exact (Nat.add_assoc ..).symm
    have hlast : start + length - 1 + 1 = start + length := by omega
    rw [rangesFrom_cons hlength, htotal]
    split_ifs
    · refine within_of_mem_joined ⟨start, start + length - 1⟩ ?_ (hlast.symm ▸ ih)
      simp only
      omega
    · intro range hrange
      obtain ⟨hfirst, hle, hbelow⟩ := ih range hrange
      exact ⟨by omega, hle, hbelow⟩

theorem separate_rangesFrom (hruns : ∀ run ∈ runs, 0 < run.1) :
    Separate (rangesFrom selected start runs) := by
  induction runs generalizing start with
  | nil => exact .nil
  | cons run runs ih =>
    obtain ⟨length, category⟩ := run
    have hlength : 0 < length := hruns _ (List.mem_cons_self ..)
    have hlater : ∀ run ∈ runs, 0 < run.1 := fun run hrun =>
      hruns run (List.mem_cons_of_mem _ hrun)
    have hlast : start + length - 1 + 1 = start + length := by omega
    rw [rangesFrom_cons hlength]
    split_ifs
    · have hwithin : ∀ next ∈ rangesFrom selected (start + length) runs,
          next.Within (start + length - 1 + 1) (start + length + codeCount runs) := by
        rw [hlast]
        exact within_of_mem_rangesFrom hlater
      exact separate_joined _ hwithin (ih hlater)
    · exact ih hlater

/-- **What the ranges contain**: the codes of the table whose category is selected. -/
theorem exists_contains_rangesFrom_iff (hruns : ∀ run ∈ runs, 0 < run.1) {u : Nat} :
    (∃ range ∈ rangesFrom selected start runs, range.Contains u) ↔
      start ≤ u ∧ u < start + codeCount runs ∧ selected (runs.at (u - start)) = true := by
  induction runs generalizing start with
  | nil =>
    simp only [rangesFrom, codeCount, List.not_mem_nil, false_and, exists_false, false_iff]
    omega
  | cons run runs ih =>
    obtain ⟨length, category⟩ := run
    have hlength : 0 < length := hruns _ (List.mem_cons_self ..)
    have hlater : ∀ run ∈ runs, 0 < run.1 := fun run hrun =>
      hruns run (List.mem_cons_of_mem _ hrun)
    have hlast : start + length - 1 + 1 = start + length := by omega
    have hoffset : u - (start + length) = u - start - length := by omega
    have hwithin : ∀ next ∈ rangesFrom selected (start + length) runs,
        next.Within (start + length - 1 + 1) (start + length + codeCount runs) := by
      rw [hlast]
      exact within_of_mem_rangesFrom hlater
    have hfirst : start ≤ start + length - 1 := by omega
    have hjoined := @exists_contains_joined_iff ⟨start, start + length - 1⟩ _ _ hfirst hwithin u
    have ih := @ih (start + length) hlater
    rw [hoffset] at ih
    rw [rangesFrom_cons hlength, codeCount, CategoryRuns.at]
    by_cases hrun : u - start < length
    · -- such a unit is in no later range
      have hbefore : ¬ start + length ≤ u := by omega
      rw [if_pos hrun]
      split_ifs with hselected
      · rw [hjoined, ih]
        simp only [UnitRange.Contains, hbefore, false_and, or_false, hselected, and_true]
        omega
      · rw [ih]
        simp only [hbefore, false_and, hselected, Bool.false_eq_true, and_false]
    · rw [if_neg hrun]
      have hlater : (start + length ≤ u ∧ u < start + length + codeCount runs ∧
            selected (CategoryRuns.at runs (u - start - length)) = true) ↔
          start ≤ u ∧ u < start + (length + codeCount runs) ∧
            selected (CategoryRuns.at runs (u - start - length)) = true := by
        rw [← Nat.add_assoc, ← and_assoc, ← and_assoc]
        exact and_congr_left' (by omega)
      split_ifs
      · rw [hjoined, ih, hlater, UnitRange.Contains]
        refine or_iff_right ?_
        simp only
        omega
      · rw [ih, hlater]

/-! ### The ranges of some categories -/

/-- Is a code unit among those of some categories or, if `negated`, of all others? -/
def Selected (categories : List Category) (negated : Bool) (u : Nat) : Prop :=
  u < 0x10000 ∧ (negated = false ↔ Unicode.categoryOf u ∈ categories)

theorem pos_of_mem_basicPlane : ∀ run ∈ Unicode.basicPlane, 0 < run.1 := by decide +kernel

theorem codeCount_basicPlane : codeCount Unicode.basicPlane = 0x10000 := by decide +kernel

theorem separate_unitRanges (categories : List Category) (negated : Bool) :
    Separate (unitRanges categories negated) := separate_rangesFrom pos_of_mem_basicPlane

theorem within_of_mem_unitRanges {categories : List Category} {negated : Bool} :
    ∀ range ∈ unitRanges categories negated, range.Within 0 0x10000 := by
  have hwithin := @within_of_mem_rangesFrom
    (fun category => categories.contains category != negated) 0 _ pos_of_mem_basicPlane
  rwa [codeCount_basicPlane] at hwithin

/-- The ranges contain exactly the units that are selected. -/
theorem exists_contains_unitRanges_iff {categories : List Category} {negated : Bool} {u : Nat} :
    (∃ range ∈ unitRanges categories negated, range.Contains u) ↔
      Selected categories negated u := by
  rw [unitRanges, exists_contains_rangesFrom_iff pos_of_mem_basicPlane, codeCount_basicPlane,
    Selected, Unicode.categoryOf]
  constructor
  · rintro ⟨_, hu, hat⟩
    refine ⟨by omega, ?_⟩
    rw [if_pos (by omega)]
    cases negated <;> simpa using hat
  · rintro ⟨hu, hat⟩
    rw [if_pos hu] at hat
    refine ⟨Nat.zero_le u, by omega, ?_⟩
    cases negated <;> simpa using hat

/-! ### No range is missing -/

/-- Every category has a code unit. -/
theorem exists_run (category : Category) : ∃ run ∈ Unicode.basicPlane, run.2 = category := by
  cases category <;> decide +kernel

/-- A name stands for some categories, but not for all of them. -/
theorem exists_mem_of_named? {name : String} {categories : List Category}
    (h : Category.named? name = some categories) :
    (∃ category, category ∈ categories) ∧ ∃ category, category ∉ categories := by
  unfold Category.named? at h
  split at h
  all_goals cases h
  all_goals refine ⟨⟨_, List.mem_cons_self ..⟩, ?_⟩
  all_goals first | exact ⟨.lu, by decide⟩ | exact ⟨.cc, by decide⟩

theorem rangesFrom_ne_nil (hruns : ∀ run ∈ runs, 0 < run.1)
    (h : ∃ run ∈ runs, selected run.2 = true) : rangesFrom selected start runs ≠ [] := by
  have hjoined : ∀ range later, joined range later ≠ [] := by
    intro range later
    unfold joined
    split
    · simp
    · split <;> simp
  induction runs generalizing start with
  | nil =>
    obtain ⟨_, hrun, _⟩ := h
    cases hrun
  | cons run runs ih =>
    obtain ⟨length, category⟩ := run
    rw [rangesFrom_cons (hruns _ (List.mem_cons_self ..))]
    split_ifs with hselected
    · exact hjoined _ _
    · obtain ⟨run, hrun, hother⟩ := h
      rcases List.mem_cons.1 hrun with rfl | hrun
      · exact absurd hother hselected
      · exact ih (fun run hrun => hruns run (List.mem_cons_of_mem _ hrun)) ⟨run, hrun, hother⟩

theorem unitRanges_ne_nil {name : String} {categories : List Category}
    (h : Category.named? name = some categories) (negated : Bool) :
    unitRanges categories negated ≠ [] := by
  obtain ⟨⟨member, hmember⟩, ⟨other, hother⟩⟩ := exists_mem_of_named? h
  refine rangesFrom_ne_nil pos_of_mem_basicPlane ?_
  cases negated with
  | false =>
    obtain ⟨run, hrun, rfl⟩ := exists_run member
    exact ⟨run, hrun, by simpa using hmember⟩
  | true =>
    obtain ⟨run, hrun, rfl⟩ := exists_run other
    exact ⟨run, hrun, by simpa using hother⟩

end RegexText.CategoryEscape
