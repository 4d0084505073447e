/-
  RegexText/Proofs/CommandLine/Directory.lean
  ===========================================
  **What writing a file changes, and what it leaves.**

  A file that could be opened for writing holds what is written to it, and every
  other place leads to what it led to before.  The places on the way to the file
  need an argument: they are folders because something is behind them, and would
  be so by the new entry alone.  But a path is followed through folders only, and
  what holds a folder is one itself.
-/
import Mathlib.Tactic.SplitIfs
import RegexText.CommandLine.Run
import RegexText.Proofs.CommandLine.Platform

namespace RegexText.CommandLine.Directory

variable {d opened : Directory} {path : String} {content : List UInt8}
  {place others start : List String} {names : List String} {entry : Entry}

/-! ### Entries -/

section Entries

variable {entries : List (List String × Entry)}

theorem lookup_insertEntry_self :
    (insertEntry place entry entries).lookup place = some entry := by
  induction entries with
  | nil => simp [insertEntry]
  | cons first entries ih =>
    by_cases h : first.1 = place
    · rw [insertEntry, if_pos h, h, List.lookup_cons_self]
    · have hne : (place == first.1) = false := beq_false_of_ne (Ne.symm h)
      rw [insertEntry, if_neg h, List.lookup_cons, hne]
      exact ih

theorem lookup_insertEntry_of_ne (h : others ≠ place) :
    (insertEntry place entry entries).lookup others = entries.lookup others := by
  induction entries with
  | nil =>
    have hne : (others == place) = false := beq_false_of_ne h
    rw [insertEntry, List.lookup_cons, hne]
  | cons first entries ih =>
    by_cases hfirst : first.1 = place
    · have hne : (others == first.1) = false := beq_false_of_ne (hfirst ▸ h)
      rw [insertEntry, if_pos hfirst, List.lookup_cons, List.lookup_cons, hne]
    · rw [insertEntry, if_neg hfirst, List.lookup_cons, List.lookup_cons, ih]

theorem any_insertEntry (p : List String → Bool) :
    ((insertEntry place entry entries).any fun known => p known.1) =
      (p place || entries.any fun known => p known.1) := by
  induction entries with
  | nil => simp [insertEntry]
  | cons first entries ih =>
    by_cases h : first.1 = place
    · simp [insertEntry, h]
    · simp only [insertEntry, if_neg h, List.any_cons, ih]
      rw [← Bool.or_assoc, ← Bool.or_assoc, Bool.or_comm (p first.1)]

end Entries

/-! ### Single places -/

theorem entry?_put_self : entry? (d.put place content) place = some (.file content) := by
  rw [ entry?, put, lookup_insertEntry_self]

/-- Is everything that holds a place a folder, unless it is known to be something else? -/
def IsHeld (d : Directory) (place : List String) : Prop :=
  ∀ others, others.isPrefixOf place = true → others ≠ place → d.entries.lookup others = none →
    d.entry? others = some .folder

/-- Putting a file somewhere shows at no other place. -/
theorem entry?_put_of_ne (hheld : d.IsHeld place) (h : others ≠ place) :
    entry? (d.put place content) others = d.entry? others := by
  cases hknown : d.entries.lookup others with
  | some known => rw [ entry?, entry?, put, lookup_insertEntry_of_ne h, hknown]
  | none =>
    cases hbefore : others.isPrefixOf place with
    | true =>
      rw [hheld others hbefore h hknown, entry?, put]
      simp only [lookup_insertEntry_of_ne h, hknown,
        any_insertEntry fun known => others.isPrefixOf known, hbefore, Bool.true_or, if_true]
    | false =>
      rw [ entry?, entry?, put]
      simp only [lookup_insertEntry_of_ne h, hknown,
        any_insertEntry fun known => others.isPrefixOf known, hbefore, Bool.false_or]

/-! ### Following a path -/

theorem isHeld_root (d : Directory) : d.IsHeld [] := by
  intro others hbefore hne
  exact absurd (List.prefix_nil.1 (List.isPrefixOf_iff_prefix.1 hbefore)) hne

theorem isHeld_home (d : Directory) : d.IsHeld d.home := by
  intro others hbefore _ hknown
  rw [ entry?, hknown]
  simp only [hbefore, if_true, ite_self]

/-- A step from a folder leads to a place that folders hold. -/
theorem isHeld_step (hheld : d.IsHeld place) (hfolder : d.entry? place = some .folder)
    (name : String) : d.IsHeld (step place name) := by
  unfold step
  split_ifs with hstay hup
  · exact hheld
  · intro others hbefore _ hknown
    have hwithin := List.isPrefixOf_iff_prefix.1 hbefore
    have hplace := hwithin.trans (List.dropLast_prefix place)
    by_cases hsame : others = place
    · exact hsame ▸ hfolder
    · exact hheld others (List.isPrefixOf_iff_prefix.2 hplace) hsame hknown
  · intro others hbefore hne hknown
    rcases List.prefix_concat_iff.1 (List.isPrefixOf_iff_prefix.1 hbefore) with hend | hplace
    · exact absurd hend hne
    · by_cases hsame : others = place
      · exact hsame ▸ hfolder
      · exact hheld others (List.isPrefixOf_iff_prefix.2 hplace) hsame hknown

theorem follow_cons {name : String} (h : d.follow start (name :: names) = .ok place) :
    d.entry? start = some .folder ∧ d.follow (step start name) names = .ok place := by
  rw [follow] at h
  split at h
  · exact ⟨‹_›, h⟩
  · cases h
  · cases h
  · cases h

theorem isHeld_of_follow (h : d.follow start names = .ok place) (hstart : d.IsHeld start) :
    d.IsHeld place := by
  induction names generalizing start with
  | nil =>
    cases h
    exact hstart
  | cons name names ih =>
    rcases follow_cons h with ⟨hfolder, hrest⟩
    exact ih hrest (isHeld_step hstart hfolder name)

/-- A file is put where no path leads through, so paths lead where they led. -/
theorem follow_put {q : List String} (h : d.follow start names = .ok q) (hheld : d.IsHeld place)
    (hplace : d.entry? place ≠ some .folder) :
    (d.put place content).follow start names = .ok q := by
  induction names generalizing start with
  | nil => exact h
  | cons name names ih =>
    rcases follow_cons h with ⟨hfolder, hrest⟩
    have hne : start ≠ place := by
      rintro rfl
      exact hplace hfolder
    rw [follow, entry?_put_of_ne hheld hne, hfolder]
    exact ih hrest

theorem isHeld_of_find (h : d.find path = .ok place) : d.IsHeld place := by
  rw [find] at h
  split_ifs at h
  · exact isHeld_of_follow h (isHeld_root d)
  · exact isHeld_of_follow h (isHeld_home d)

theorem find_put (h : d.find path = .ok place) (hplace : d.entry? place ≠ some .folder) :
    (d.put place content).find path = .ok place := by
  have hheld := isHeld_of_find h
  rw [find] at h ⊢
  split_ifs at h ⊢ with hempty habsolute
  · exact follow_put h hheld hplace
  · exact follow_put h hheld hplace

/-! ### Files -/

/-- A file that is put where a path leads is what the path leads to. -/
theorem content?_put (h : d.find path = .ok place) (hplace : d.entry? place ≠ some .folder) :
    (d.put place content).content? path = some content := by
  rw [content?, find_put h hplace]
  simp only [entry?_put_self]

/-- A path that can be opened for writing leads to a place that is empty or holds a file. -/
theorem of_create_eq_ok (h : d.create path = .ok opened) :
    ∃ place, d.find path = .ok place ∧ d.entry? place ≠ some .folder ∧
      opened = d.put place [] := by
  unfold create at h
  cases hfind : d.find path with
  | error error =>
    rw [hfind] at h
    cases h
  | ok place =>
    rw [hfind] at h
    simp only [Bind.bind, Except.bind] at h
    split at h
    · cases h
    · cases h
    · rename_i hfolder _
      split at h
      · cases h
      · cases h
        exact ⟨place, rfl, hfolder, rfl⟩

theorem of_content?_eq_some (h : d.content? path = some content) :
    ∃ place, d.find path = .ok place ∧ d.entry? place = some (.file content) := by
  unfold content? at h
  split at h
  · cases h
  · rename_i place hfind
    split at h
    · rename_i held hentry
      cases h
      exact ⟨place, hfind, hentry⟩
    · cases h

theorem content?_create (h : d.create path = .ok opened) : opened.content? path = some [] := by
  rcases of_create_eq_ok h with ⟨place, hfind, hplace, rfl⟩
  exact content?_put hfind hplace

theorem content?_append (h : d.content? path = some content) (bytes : List UInt8) :
    (d.append path bytes).content? path = some (content ++ bytes) := by
  rcases of_content?_eq_some h with ⟨place, hfind, hplace⟩
  have hwritten : d.append path bytes = d.put place (content ++ bytes) := by
    simp only [append, hfind, h, Option.getD_some]
  rw [hwritten]
  exact content?_put hfind (by simp [hplace])

/-- **What is written to a file that could be opened shows at no other place.** -/
theorem entry?_append_of_create (h : d.create path = .ok opened) (bytes : List UInt8) :
    ∃ place, d.find path = .ok place ∧
      ∀ others, others ≠ place → entry? (opened.append path bytes) others = d.entry? others := by
  rcases of_create_eq_ok h with ⟨place, hfind, hplace, rfl⟩
  have hheld := isHeld_of_find hfind
  have hfind' : (d.put place []).find path = .ok place := find_put hfind hplace
  refine ⟨place, hfind, ?_⟩
  intro others hne
  simp only [append, hfind']
  rw [entry?_put_of_ne (isHeld_of_find hfind') hne, entry?_put_of_ne hheld hne]

end RegexText.CommandLine.Directory

namespace RegexText.CommandLine

/-! ### The standard platform -/

variable {settings : LogSettings} {time : String}

theorem shows_iff {level : Level} : settings.shows level = true ↔ settings.Shows level := by
  unfold LogSettings.shows LogSettings.Shows
  cases settings.level with
  | none => simp
  | some least => simp

theorem stamp_of_time (hblank : ' ' ∉ time.toList) (hline : '\n' ∉ time.toList) (stamped : Bool) :
    Stamp stamped (if stamped then time ++ " " else "") := by
  cases stamped with
  | false => exact .absent
  | true => exact .time hblank hline

theorem logged_lines (hblank : ' ' ∉ time.toList) (hline : '\n' ∉ time.toList)
    (settings : LogSettings) (records : List Record) :
    Logged settings records (settings.lines time records) := by
  induction records with
  | nil => exact .nil
  | cons record records ih =>
    by_cases hshows : settings.shows record.level = true
    · have hlines : settings.lines time (record :: records) =
          settings.line time record ++ "\n" ++ settings.lines time records := by
        rw [LogSettings.lines, List.filter_cons, if_pos hshows]
        simp [LogSettings.lines, unlines]
      rw [hlines]
      exact .shown (shows_iff.1 hshows) (stamp_of_time hblank hline settings.stamped) ih
    · have hlines : settings.lines time (record :: records) = settings.lines time records := by
        rw [LogSettings.lines, List.filter_cons, if_neg hshows]
        rfl
      rw [hlines]
      exact .hidden (mt shows_iff.2 hshows) ih

/-- **The standard platform keeps to what is documented.** -/
theorem lawful_standard (hblank : ' ' ∉ time.toList) (hline : '\n' ∉ time.toList) :
    (standard time).Lawful Directory.content? where
  logged := logged_lines hblank hline
  content_create := Directory.content?_create
  content_append := Directory.content?_append

end RegexText.CommandLine
