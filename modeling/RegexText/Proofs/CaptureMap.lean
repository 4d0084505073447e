/-
  RegexText/Proofs/CaptureMap.lean
  ================================
  **Names keep their first place and take their last number.**

  Recording a name that is known changes its number where it stands, and a name
  that is not goes to the end (`insertEntry_map`).  So after any run of records,
  however new and known names follow each other, the map lists each recorded name
  once, in the order of the first records, with the number that looking it up
  finds (`entries_ofList`); and that is the number of its last record.
-/
import Mathlib.Data.Finset.Card
import RegexText.CaptureMap
import RegexText.Proofs.Text.Distinct

namespace RegexText.CaptureMap

open Text

/-- The names, in the order in which they are listed. -/
def names (captures : CaptureMap) : List String := captures.toList.map Prod.fst

/-- The map after some names have been recorded with their numbers, one after the other. -/
def ofList (records : List (String × Nat)) : CaptureMap :=
  records.foldl (fun captures record => captures.insert record.1 record.2) empty

/-! ### One record -/

theorem lookup_insertEntry (name other : String) (index : Nat) (entries : List (String × Nat)) :
    (insertEntry name index entries).lookup other =
      if name = other then some index else entries.lookup other := by
  induction entries with
  | nil =>
    by_cases h : name = other
    · simp [insertEntry, h]
    · simp [insertEntry, h, Ne.symm h]
  | cons entry later ih =>
    obtain ⟨known, number⟩ := entry
    rw [insertEntry]
    by_cases hknown : known = name
    · rw [if_pos hknown]
      by_cases h : name = other
      · simp [hknown, h]
      · have hother : (other == name) = false := by simpa using Ne.symm h
        simp [hknown, h, List.lookup_cons, hother]
    · rw [if_neg hknown, List.lookup_cons, List.lookup_cons, ih]
      by_cases hfound : other = known
      · simp [hfound, Ne.symm hknown]
      · have hother : (other == known) = false := by simpa using hfound
        simp [hother]

theorem get?_insert (captures : CaptureMap) (name other : String) (index : Nat) :
    (captures.insert name index).get? other =
      if name = other then some index else captures.get? other :=
  lookup_insertEntry name other index captures.entries

/-- Recording a name again changes its number only. -/
theorem insertEntry_map {name : String} {index : Nat} {f g : String → Nat} {names : List String}
    (hnodup : names.Nodup) (hname : g name = index) (hother : ∀ n, n ≠ name → g n = f n) :
    insertEntry name index (names.map fun n => (n, f n)) =
      (if name ∈ names then names else names ++ [name]).map fun n => (n, g n) := by
  induction names with
  | nil => simp [insertEntry, hname]
  | cons first names ih =>
    obtain ⟨hfirst, hnames⟩ := List.nodup_cons.1 hnodup
    rw [List.map_cons, insertEntry]
    by_cases hknown : first = name
    · have hsame : names.map (fun n => (n, f n)) = names.map fun n => (n, g n) := by
        apply List.map_congr_left
        intro n hn
        have hne : n ≠ name := by
          rintro rfl
          exact hfirst (hknown ▸ hn)
        rw [hother n hne]
      rw [if_pos hknown, hsame]
      simp [hknown, hname]
    · rw [if_neg hknown, ih hnames]
      by_cases hmem : name ∈ names
      · simp [hmem, hother first hknown]
      · simp [hmem, Ne.symm hknown, hother first hknown]

/-! ### Runs of records -/

theorem ofList_concat (records : List (String × Nat)) (name : String) (index : Nat) :
    ofList (records ++ [(name, index)]) = (ofList records).insert name index := by
  simp [ofList]

/-- What the map lists after a run: each name once, in the order of the first records, with
    the number that looking it up finds. -/
theorem entries_ofList (records : List (String × Nat)) :
    (ofList records).entries = (records.map Prod.fst).eraseDups.map
      fun name => (name, ((ofList records).get? name).getD 0) := by
  induction records using List.reverseRecOn with
  | nil => rfl
  | append_singleton records record ih =>
    obtain ⟨name, index⟩ := record
    have hself : (((ofList records).insert name index).get? name).getD 0 = index := by
      rw [get?_insert, if_pos rfl, Option.getD_some]
    have hothers : ∀ n, n ≠ name → (((ofList records).insert name index).get? n).getD 0 =
        ((ofList records).get? n).getD 0 := by
      intro n hn
      rw [get?_insert, if_neg (Ne.symm hn)]
    have hentries := insertEntry_map (nodup_eraseDups (records.map Prod.fst)) hself hothers
    rw [← ih] at hentries
    rw [ofList_concat, List.map_append, List.map_singleton, eraseDups_concat]
    exact hentries

theorem names_ofList (records : List (String × Nat)) :
    (ofList records).names = (records.map Prod.fst).eraseDups := by
  rw [names, toList, entries_ofList, List.map_map]
  exact List.map_id _

/-- Looking a name up goes through the records from the last one back. -/
theorem get?_ofList (records : List (String × Nat)) (name : String) :
    (ofList records).get? name = records.reverse.lookup name := by
  induction records using List.reverseRecOn with
  | nil => rfl
  | append_singleton records record ih =>
    obtain ⟨known, index⟩ := record
    rw [ofList_concat, get?_insert, ih, List.reverse_concat, List.lookup_cons]
    by_cases h : known = name
    · simp [h]
    · have hother : (name == known) = false := by simpa using Ne.symm h
      rw [if_neg h, hother]

theorem get?_ofList_eq_some_iff {records : List (String × Nat)} {name : String} {index : Nat} :
    (ofList records).get? name = some index ↔
      ∃ earlier later, records = earlier ++ (name, index) :: later ∧
        name ∉ later.map Prod.fst := by
  rw [get?_ofList, List.lookup_eq_some_iff]
  constructor
  · rintro ⟨later, earlier, hrecords, hnone⟩
    refine ⟨earlier.reverse, later.reverse, ?_, ?_⟩
    · rw [← List.reverse_reverse records, hrecords]
      simp
    · rw [List.map_reverse, List.mem_reverse, List.mem_map]
      rintro ⟨record, hrecord, rfl⟩
      exact absurd rfl (bne_iff_ne.1 (hnone record hrecord))
  · rintro ⟨earlier, later, rfl, hnone⟩
    refine ⟨later.reverse, earlier.reverse, by simp, ?_⟩
    intro record hrecord
    refine bne_iff_ne.2 ?_
    rintro rfl
    exact hnone (List.mem_map_of_mem (List.mem_reverse.1 hrecord))

theorem get?_ofList_eq_none_iff {records : List (String × Nat)} {name : String} :
    (ofList records).get? name = none ↔ name ∉ records.map Prod.fst := by
  rw [get?_ofList, List.lookup_eq_none_iff]
  constructor
  · intro h hmem
    obtain ⟨record, hrecord, rfl⟩ := List.mem_map.1 hmem
    exact absurd rfl (bne_iff_ne.1 (h record (List.mem_reverse.2 hrecord)))
  · intro h record hrecord
    refine bne_iff_ne.2 ?_
    rintro rfl
    exact h (List.mem_map_of_mem (List.mem_reverse.1 hrecord))

/-- The pairs are the names with what looking them up finds. -/
theorem toList_ofList (records : List (String × Nat)) :
    (ofList records).toList.map (fun entry => (entry.1, some entry.2)) =
      (ofList records).names.map fun name => (name, (ofList records).get? name) := by
  rw [names_ofList, toList, entries_ofList, List.map_map]
  apply List.map_congr_left
  intro name hname
  cases hget : (ofList records).get? name with
  | none => exact absurd (List.mem_eraseDups.1 hname) (get?_ofList_eq_none_iff.1 hget)
  | some index => simp [hget]

theorem size_ofList (records : List (String × Nat)) :
    (ofList records).size = (records.map Prod.fst).toFinset.card := by
  have hset : (records.map Prod.fst).toFinset = (records.map Prod.fst).eraseDups.toFinset := by
    ext name
    rw [List.mem_toFinset, List.mem_toFinset, List.mem_eraseDups]
  rw [hset, List.toFinset_card_of_nodup (nodup_eraseDups _), ← names_ofList, names, List.length_map]
  rfl

/-- **A run of records leaves the names in their first order and with their last numbers.**
    The names are pairwise distinct, are those that were recorded, and are listed in the order in
    which each was recorded first.  A name has the number of its last record, and none if it was
    never recorded.  The map is as large as there are different names, and empty if it has none.
    Its pairs are the names, in that order, with their numbers. -/
theorem insertionOrdered_ofList (records : List (String × Nat)) :
    (ofList records).names.Nodup ∧
      (∀ name, name ∈ (ofList records).names ↔ name ∈ records.map Prod.fst) ∧
      (ofList records).names.Pairwise (fun a b =>
        (records.map Prod.fst).idxOf a < (records.map Prod.fst).idxOf b) ∧
      (∀ name index, (ofList records).get? name = some index ↔
        ∃ earlier later, records = earlier ++ (name, index) :: later ∧
          name ∉ later.map Prod.fst) ∧
      (∀ name, (ofList records).get? name = none ↔ name ∉ records.map Prod.fst) ∧
      (ofList records).size = (records.map Prod.fst).toFinset.card ∧
      ((ofList records).isEmpty = true ↔ (ofList records).size = 0) ∧
      (ofList records).toList.map (fun entry => (entry.1, some entry.2)) =
        (ofList records).names.map fun name => (name, (ofList records).get? name) := by
  have hnames := names_ofList records
  refine ⟨?_, ?_, ?_, fun _ _ => get?_ofList_eq_some_iff, fun _ => get?_ofList_eq_none_iff,
    size_ofList records, ?_, toList_ofList records⟩
  · rw [hnames]
    exact nodup_eraseDups _
  · intro name
    rw [hnames, List.mem_eraseDups]
  · rw [hnames]
    exact pairwise_idxOf_eraseDups _
  · exact List.isEmpty_iff_length_eq_zero

example : (ofList [("a", 1), ("b", 2), ("a", 4)]).toList = [("a", 4), ("b", 2)] := by decide

end RegexText.CaptureMap
