/-
  RegexText/Proofs/CategoryEscape/Content.lean
  ============================================
  **What stands between brackets is a union.**

  A class matches what its parts match: texts that the target reads by itself,
  category escapes, and hyphens that make no range.  Each part is written out by
  itself, so the items of the whole are those of the parts, as long as nothing takes
  hold of what comes behind it.

  Hyphens need care.  In the source a hyphen beside a category escape is a hyphen, but
  what is written for a category begins and ends with units, and a hyphen between two
  units makes a range of them.  It does not if it is the last part or if nothing is in
  front of it that could begin a range: if it is the first part, or stands behind a
  range.  So `[+-\p{Zp}]` is no union.
-/
import RegexText.Proofs.CategoryEscape.Units

namespace RegexText.CategoryEscape

open Text Target

/-! ### Texts without category escapes -/

/-- Does a text hold no category escape? -/
def NoCategory (cs : List Char) : Prop :=
  ∀ letter after, letter = 'p' ∨ letter = 'P' → ¬ PairAt cs letter after

theorem expands_of_plain {inClass : Bool} {cs : List Char} (hcs : Complete cs) (h : NoCategory cs) :
    Source.Expands inClass false cs cs := by
  induction hcs with
  | nil => exact .nil
  | @pair c cs _ ih =>
    have hc : ¬ (c = 'p' ∨ c = 'P') := fun hletter =>
      h c cs hletter (pairAt_pair_iff.2 (.inl ⟨rfl, rfl⟩))
    exact (Source.Expands.pair hc).append
      (ih fun letter after hletter hpair => h letter after hletter (pairAt_pair_iff.2 (.inr hpair)))
  | @single c cs hc _ _ ih =>
    have hsingle : Source.Expands inClass false [c] _ := .single hc
    have hdot : (if c = '.' then dotText false else [c]) = [c] := by
      split_ifs with hdot
      · rw [hdot]
        rfl
      · rfl
    rw [hdot] at hsingle
    exact hsingle.append
      (ih fun letter after hletter hpair => h letter after hletter ((pairAt_single_iff hc).2 hpair))

/-! ### Parts -/

/-- A part of the text between two brackets. -/
inductive Part where
  /-- Characters, escapes and ranges without a category escape. -/
  | text (cs : List Char)
  | category (spelling : Source.CategorySpelling)
  /-- A hyphen that makes no range. -/
  | hyphen

namespace Part

def source : Part → List Char
  | text cs => cs
  | category spelling => spelling.text
  | hyphen => ['-']

/-- What becomes of a part. -/
def written : Part → List Char
  | text cs => cs
  | category spelling => spelling.ranges spelling.negated
  | hyphen => ['-']

/-- Does a part match a code unit? -/
def Matches (M : Meaning) (u : Nat) : Part → Prop
  | text cs => ∃ items, contents? cs = some items ∧ ∃ item ∈ items, item.Matches M u
  | category spelling => ∃ categories, spelling.categories? = some categories ∧
      Selected categories spelling.negated u
  | hyphen => u = '-'.toNat

/-- Can a part stand by itself?  Hyphens at either end of a text are parts of their own. -/
def IsLegal : Part → Prop
  | text cs => cs ≠ [] ∧ (contents? cs).isSome = true ∧ NoCategory cs ∧ cs.head? ≠ some '-' ∧
      ¬ EndsInHyphen cs
  | category spelling => spelling.categories?.isSome = true
  | hyphen => True

theorem isLegal_text {cs : List Char} {items : List Item} (h : contents? cs = some items)
    (hne : cs ≠ []) (hcs : '\\' ∉ cs) (hhead : cs.head? ≠ some '-')
    (hlast : cs.getLast? ≠ some '-') : IsLegal (.text cs) :=
  ⟨hne, Option.isSome_of_eq_some h,
    fun _ _ _ => not_pairAt_of_forall fun _ hc heq => hcs (heq ▸ hc), hhead,
    not_endsInHyphen hlast⟩

/-- Does an escape in a part take in characters behind it? -/
def Reaches (behind : List Char) : Part → Prop
  | text cs => ReachesInto cs behind
  | _ => False

/-- Is a range the last that is written for a part? -/
def EndsInRange (part : Part) : Prop :=
  ∃ items, contents? part.written = some items ∧ Target.EndsInRange items

end Part

/-- Does no part take hold of what is written behind it?  In front of a hyphen that is not the
    last part there must be a range, if anything is. -/
def Unattached : List Part → Prop
  | [] => True
  | part :: parts =>
    ¬ part.Reaches (parts.flatMap Part.written) ∧
      (parts.head? = some .hyphen → parts = [.hyphen] ∨ part.EndsInRange) ∧ Unattached parts

/-! ### Reading parts -/

/-- What the target makes of a part, in front of others. -/
structure Part.Read (part : Part) (as : List Atom) (xs : List Item) : Prop where
  alone : atoms? part.written = some as
  atoms : ∀ behind, ¬ part.Reaches behind →
    atoms? (part.written ++ behind) = (atoms? behind).map (as ++ ·)
  items : items? as = some xs
  denotes : ∀ M u, (∃ item ∈ xs, item.Matches M u) ↔ part.Matches M u
  head : as ≠ [] ∧ (as.head? = some .hyphen → part = .hyphen)
  last : as.getLast? = some .hyphen → part = .hyphen

namespace Part.Read

variable {part : Part}

theorem hyphen : Part.Read .hyphen [.hyphen] [.atom .hyphen] where
  alone := by rw [Part.written, atoms?_hyphen, atoms?_nil, Option.map_some]
  atoms behind _ := atoms?_hyphen behind
  items := rfl
  denotes M u := by simp [Part.Matches, Item.Matches, Atom.Matches]
  head := ⟨List.cons_ne_nil _ _, fun _ => rfl⟩
  last _ := rfl

theorem text {cs : List Char} (h : Part.IsLegal (.text cs)) :
    ∃ as xs, Part.Read (.text cs) as xs := by
  obtain ⟨hne, hsome, _, hhead, hlast⟩ := h
  obtain ⟨xs, hcontents⟩ := Option.isSome_iff_exists.1 hsome
  obtain ⟨as, has, hxs⟩ := Option.bind_eq_some_iff.1 hcontents
  refine ⟨as, xs, has, fun behind hseam => atoms?_append has hseam, hxs, fun M u => ?_,
    ⟨?_, ?_⟩, ?_⟩
  · simp only [Part.Matches, hcontents, Option.some.injEq, exists_eq_left']
  · rintro rfl
    exact hne (eq_nil_of_atoms? has)
  · exact fun heq => absurd heq (head?_atoms_ne_hyphen has hhead)
  · exact fun heq => absurd heq (getLast?_atoms_ne_hyphen has hlast)

theorem category {spelling : Source.CategorySpelling}
    (h : Part.IsLegal (.category spelling)) : ∃ as xs, Part.Read (.category spelling) as xs := by
  obtain ⟨categories, hcategories⟩ := Option.isSome_iff_exists.1 h
  have hwritten := spelling.ranges_eq hcategories spelling.negated
  have hne : unitRanges categories spelling.negated ≠ [] := by
    cases spelling with
    | short capital name => exact unitRanges_ne_nil hcategories _
    | braced capital caret name => exact unitRanges_ne_nil hcategories _
  refine ⟨(unitRanges categories spelling.negated).flatMap UnitRange.atoms,
    (unitRanges categories spelling.negated).flatMap UnitRange.items, ?_, fun behind _ => ?_, ?_,
    fun M u => ?_, ?_, fun heq => absurd heq getLast?_rangesAtoms_ne⟩
  · have halone := atoms?_rangesText (@within_of_mem_unitRanges categories spelling.negated) []
    rw [List.append_nil, atoms?_nil, Option.map_some, List.append_nil] at halone
    rw [Part.written, hwritten, halone]
  · rw [Part.written, hwritten]
    exact atoms?_rangesText within_of_mem_unitRanges behind
  · simpa [items?] using
      @items?_rangesAtoms (unitRanges categories spelling.negated) [] noOperator_nil
  · rw [denote_unitRanges]
    simp only [Part.Matches, hcategories, Option.some.injEq, exists_eq_left']
  · obtain ⟨range, later, hranges⟩ := List.exists_cons_of_ne_nil hne
    obtain ⟨⟨as, hatoms⟩, _⟩ := range.exists_atoms_eq
    rw [hranges, List.flatMap_cons, hatoms]
    exact ⟨List.cons_ne_nil _ _, fun heq => by cases heq⟩

end Part.Read

theorem Part.IsLegal.exists_read {part : Part} (h : part.IsLegal) :
    ∃ as xs, Part.Read part as xs := by
  cases part with
  | text cs => exact Part.Read.text h
  | category spelling => exact Part.Read.category h
  | hyphen => exact ⟨_, _, .hyphen⟩

theorem Part.Read.eq_of_hyphen {part : Part} {as : List Atom} {xs : List Item}
    (h : part.Read as xs) (hsame : part = .hyphen) : as = [.hyphen] ∧ xs = [.atom .hyphen] := by
  rw [hsame] at h
  have halone := h.alone
  rw [Part.written, atoms?_hyphen, atoms?_nil, Option.map_some] at halone
  cases halone
  have hitems := h.items
  cases hitems
  exact ⟨rfl, rfl⟩

theorem Part.Read.endsInRange_iff {part : Part} {as : List Atom} {xs : List Item}
    (h : part.Read as xs) : part.EndsInRange ↔ Target.EndsInRange xs := by
  have hcontents : contents? part.written = some xs := by
    rw [contents?, h.alone, Option.bind_some, h.items]
  simp only [Part.EndsInRange, hcontents, Option.some.injEq, exists_eq_left']

/-- What the target makes of several parts. -/
structure ReadAll (parts : List Part) (as : List Atom) (xs : List Item) : Prop where
  atoms : atoms? (parts.flatMap Part.written) = some as
  items : items? as = some xs
  denotes : ∀ M u, (∃ item ∈ xs, item.Matches M u) ↔ ∃ part ∈ parts, part.Matches M u
  head : as.head? = some .hyphen → parts.head? = some .hyphen
  hyphen : parts = [.hyphen] → as = [.hyphen]

/-- **Parts are read one by one.** -/
theorem exists_readAll {parts : List Part} (hlegal : ∀ part ∈ parts, part.IsLegal)
    (hparts : Unattached parts) : ∃ as xs, ReadAll parts as xs := by
  induction parts with
  | nil => exact ⟨[], [], atoms?_nil, rfl, by simp, nofun, nofun⟩
  | cons part parts ih =>
    obtain ⟨hreach, hhyphen, hparts⟩ := hparts
    obtain ⟨pas, pxs, hpart⟩ := (hlegal part (List.mem_cons_self ..)).exists_read
    obtain ⟨as, xs, hrest⟩ := ih (fun p hp => hlegal p (List.mem_cons_of_mem _ hp)) hparts
    have hatoms : atoms? ((part :: parts).flatMap Part.written) = some (pas ++ as) := by
      rw [List.flatMap_cons, hpart.atoms _ hreach, hrest.atoms]
      rfl
    have hoperator : ¬ part.EndsInRange → NoOperator as := by
      intro hrange h
      rcases hhyphen (hrest.head h) with hsingle | hends
      · exact hrest.hyphen hsingle
      · exact absurd hends hrange
    have hitems : items? (pas ++ as) = some (pxs ++ xs) := by
      by_cases hsame : part = .hyphen
      · obtain ⟨rfl, rfl⟩ := hpart.eq_of_hyphen hsame
        have hnext := hoperator (mt hpart.endsInRange_iff.1 (not_endsInRange_singleton _))
        rw [List.singleton_append, items?_cons hnext.ne, hrest.items]
        rfl
      · have hparted : Parted pas pxs as := by
          by_cases hrange : part.EndsInRange
          · exact .inl (hpart.endsInRange_iff.1 hrange)
          · exact .inr ⟨mt hpart.last hsame, hoperator hrange⟩
        rw [items?_append hpart.items hparted, hrest.items]
        rfl
    refine ⟨pas ++ as, pxs ++ xs, hatoms, hitems, fun M u => ?_, fun h => ?_, fun h => ?_⟩
    · simp only [List.mem_append, or_and_right, exists_or, hpart.denotes, hrest.denotes,
        List.mem_cons, exists_eq_left]
    · obtain ⟨a, later, rfl⟩ := List.exists_cons_of_ne_nil hpart.head.1
      rw [hpart.head.2 h]
      rfl
    · cases h
      have hnil := hrest.atoms
      rw [List.flatMap_nil, atoms?_nil] at hnil
      cases hnil
      rw [(hpart.eq_of_hyphen rfl).1, List.append_nil]

/-- Nothing is written with a caret in front where there was none. -/
theorem head?_written_ne {parts : List Part} (hlegal : ∀ part ∈ parts, part.IsLegal)
    (h : (parts.flatMap Part.source).head? ≠ some '^') :
    (parts.flatMap Part.written).head? ≠ some '^' := by
  cases parts with
  | nil => simp
  | cons part parts =>
    obtain ⟨as, xs, hread⟩ := (hlegal part (List.mem_cons_self ..)).exists_read
    have hne : part.written ≠ [] := by
      intro hnil
      have halone := hread.alone
      rw [hnil, atoms?_nil] at halone
      cases halone
      exact hread.head.1 rfl
    have hfirst : part.written.head? ≠ some '^' := by
      cases part with
      | text cs =>
        obtain ⟨c, cs, hcs⟩ := List.exists_cons_of_ne_nil hne
        cases hcs
        exact h
      | category spelling => exact head?_rangesText_ne
      | hyphen => decide
    obtain ⟨c, cs, hcs⟩ := List.exists_cons_of_ne_nil hne
    rw [List.flatMap_cons, hcs]
    rwa [hcs] at hfirst

/-! ### The union -/

theorem expands_parts {parts : List Part} (h : ∀ part ∈ parts, part.IsLegal) :
    Source.Expands true false (parts.flatMap Part.source) (parts.flatMap Part.written) := by
  induction parts with
  | nil => exact .nil
  | cons part parts ih =>
    refine .append ?_ (ih fun p hp => h p (List.mem_cons_of_mem _ hp))
    have hpart := h part (List.mem_cons_self ..)
    cases part with
    | text cs =>
      obtain ⟨_, hsome, hplain, _⟩ := hpart
      obtain ⟨xs, hcontents⟩ := Option.isSome_iff_exists.1 hsome
      obtain ⟨as, has, _⟩ := Option.bind_eq_some_iff.1 hcontents
      exact expands_of_plain (complete_of_atoms? has) hplain
    | category spelling => exact Source.Expands.category hpart
    | hyphen => exact .char (by decide) (by decide)

/-- **A class with category escapes is the union of its parts.** -/
theorem union_expand {negated : Bool} {parts : List Part} (hlegal : ∀ part ∈ parts, part.IsLegal)
    (hparts : Unattached parts)
    (hcaret : negated = false → (parts.flatMap Part.source).head? ≠ some '^') :
    ∃ written b,
      (expand true false ((if negated then ['^'] else []) ++ parts.flatMap Part.source)).outcome =
        .ok written ∧
      Class.read? written = some b ∧
      ∀ M u, b.Matches M u ↔ (negated = false ↔ ∃ part ∈ parts, part.Matches M u) := by
  obtain ⟨as, xs, hread⟩ := exists_readAll hlegal hparts
  have hfront : Source.Expands true false (if negated then ['^'] else [])
      (if negated then ['^'] else []) := by
    cases negated with
    | true => exact .char (by decide) (by decide)
    | false => exact .nil
  refine ⟨_, ⟨negated, xs⟩, (hfront.append (expands_parts hlegal)).outcome, ?_, fun M u => ?_⟩
  · rw [Class.read?_caret, contents?, hread.atoms, Option.bind_some, hread.items]
    · rfl
    · exact fun hnegated => head?_written_ne hlegal (hcaret hnegated)
  · rw [Class.matches_iff, hread.denotes]

/-- In `[^-a-c-\p{Nd}-_]` every hyphen but that of the range is a part. -/
theorem union_expand_hyphens :
    ∃ written b,
      (expand true false (['^'] ++ "-a-c-\\p{Nd}-_".toList)).outcome = .ok written ∧
      Class.read? written = some b ∧
      ∀ M u, b.Matches M u ↔ (true = false ↔
        ∃ part ∈ ([.hyphen, .text ['a', '-', 'c'], .hyphen,
          .category (.braced false false ['N', 'd']), .hyphen, .text ['_']] : List Part),
          part.Matches M u) := by
  have hrange : contents? ['a', '-', 'c'] = some [.range 0x61 0x63] := by
    rw [contents?, atoms?_char (by decide) (by decide) (by decide), atoms?_hyphen,
      atoms?_char (by decide) (by decide) (by decide), atoms?_nil]
    rfl
  have hletters : Part.IsLegal (.text ['a', '-', 'c']) :=
    Part.isLegal_text hrange (by decide) (by decide) (by decide) (by decide)
  have hline : Part.IsLegal (.text ['_']) :=
    Part.isLegal_text (contents?_char (by decide) (by decide) (by decide) (by decide))
      (by decide) (by decide) (by decide) (by decide)
  have hdigits : Part.EndsInRange (.category (.braced false false ['N', 'd'])) := by
    exact ⟨_, contents?_rangesText within_of_mem_unitRanges, 0xFF10, 0xFF19, by decide +kernel⟩
  refine @union_expand true [.hyphen, .text ['a', '-', 'c'], .hyphen,
    .category (.braced false false ['N', 'd']), .hyphen, .text ['_']] ?_ ?_ (by decide)
  · simp only [List.forall_mem_cons]
    exact ⟨trivial, hletters, trivial, rfl, trivial, hline, List.forall_mem_nil _⟩
  · have hbehind : ∀ cs parts, (Part.text cs :: parts).head? ≠ some .hyphen := by simp
    exact ⟨id, fun h => absurd h (hbehind _ _), not_reachesInto_of_not_mem (by decide),
      fun _ => .inr ⟨_, hrange, _, _, rfl⟩, id, fun h => absurd h (by simp), id,
      fun _ => .inr hdigits, id, fun h => absurd h (hbehind _ _),
      not_reachesInto_of_not_mem (by decide), fun h => absurd h (by simp), trivial⟩

/-- A hyphen between a unit and what is written for a category makes a range of them: `[+-\p{Zp}]`
    matches the letter `A`. -/
theorem union_expand_beside :
    ∃ written b,
      (expand true false "+-\\p{Zp}".toList).outcome = .ok written ∧
      Class.read? written = some b ∧
      ∀ M, b.Matches M 'A'.toNat ∧
        ¬ ∃ part ∈ ([.text ['+'], .hyphen, .category (.braced false false ['Z', 'p'])] : List Part),
          part.Matches M 'A'.toNat := by
  have hranges : unitRanges [.zp] false = [⟨0x2029, 0x2029⟩] := by decide +kernel
  have hwritten : ∀ spelling, spelling = .braced false false ['Z', 'p'] →
      Source.CategorySpelling.ranges spelling spelling.negated = unitText 0x2029 := by
    rintro _ rfl
    rw [Source.CategorySpelling.ranges_eq rfl, Source.CategorySpelling.negated, bne_self_eq_false,
      hranges]
    rfl
  have hplus : contents? ['+'] = some [.atom (.unit 0x2B)] :=
    contents?_char (by decide) (by decide) (by decide) (by decide)
  have hcontents : contents? (['+', '-'] ++ unitText 0x2029) = some [.range 0x2B 0x2029] := by
    have htail := atoms?_unitText (show 0x2029 < 0x10000 by decide) []
    rw [List.append_nil, atoms?_nil] at htail
    rw [contents?, List.cons_append, atoms?_char (by decide) (by decide) (by decide),
      List.singleton_append, atoms?_hyphen, htail]
    rfl
  have hfront : Source.Expands true false ['+', '-'] ['+', '-'] :=
    .chars (forall_mem_of_all (by decide))
  have hexpand := hfront.append (@Source.Expands.category _ _ (.braced false false ['Z', 'p']) rfl)
  rw [if_pos rfl, hwritten _ rfl] at hexpand
  refine ⟨_, ⟨false, [.range 0x2B 0x2029]⟩, hexpand.outcome, ?_, fun M => ⟨?_, ?_⟩⟩
  · have hread := @Class.read?_caret false (['+', '-'] ++ unitText 0x2029) fun _ => by decide
    rwa [hcontents] at hread
  · rw [Class.matches_iff]
    exact ⟨fun _ => ⟨_, List.mem_singleton_self _, by decide, by decide⟩, fun _ => rfl⟩
  · rintro ⟨part, hpart, hmatches⟩
    simp only [List.mem_cons, List.not_mem_nil, or_false] at hpart
    rcases hpart with rfl | rfl | rfl
    · obtain ⟨items, hitems, item, hitem, hletter⟩ := hmatches
      rw [hplus] at hitems
      cases hitems
      rw [List.mem_singleton.1 hitem] at hletter
      cases hletter
    · cases hmatches
    · obtain ⟨categories, hcategories, hletter⟩ := hmatches
      have hletters : Unicode.categoryOf 'A'.toNat = .lu := by decide +kernel
      cases hcategories
      rw [Selected, hletters] at hletter
      exact absurd (hletter.2.1 rfl) (by decide)

end RegexText.CategoryEscape
