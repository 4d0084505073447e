/-
  RegexText/Proofs/CategoryEscape/Units.lean
  ==========================================
  **Categories are read back as their code units.**

  The target reads each range that is written for some categories as the range that
  it is: a letter or a digit is its own unit, and an escape with four digits ends
  with the fourth, whatever comes behind it.  The text neither begins nor ends with a
  hyphen, so behind a text that does not end with one and in front of one that does
  not begin with one it adds its units and nothing else.

  One thing can still go wrong at the front.  An escape that could go on, such as `\0`,
  takes in the letter or the digit that is written first: `\0` and the decimal digits
  make the range of all units up to `9`.
-/
import RegexText.Proofs.CategoryEscape.Ranges
import RegexText.Proofs.Conversion.Categories
import RegexText.Proofs.Target.Bracket

namespace RegexText.CategoryEscape

open Text Target

/-! ### Numbers of four digits -/

theorem number_concat (base : Nat) (digits : List Char) (d : Char) :
    number base (digits ++ [d]) = base * number base digits + (hexDigit? d).getD 0 := by
  rw [number, List.foldl_concat, number]

theorem hexDigit?_toUpper_digitChar :
    ∀ k < 16, hexDigit? (Nat.digitChar k).toUpper = some k := by decide

theorem number_hexDigits (n : Nat) : number 16 ((hexDigits n).map Char.toUpper) = n := by
  induction n using Nat.strongRecOn with
  | ind n ih =>
    by_cases hn : n < 16
    · rw [hexDigits, Nat.toDigits_of_lt_base hn]
      simp [number, hexDigit?_toUpper_digitChar n hn]
    · have hlast := hexDigit?_toUpper_digitChar (n % 16) (Nat.mod_lt _ (by decide))
      rw [hexDigits, Nat.toDigits_of_base_le (by decide) (by omega), List.map_append,
        List.map_singleton, number_concat, hlast, Option.getD_some]
      rw [← hexDigits, ih (n / 16) (by omega)]
      exact Nat.div_add_mod n 16

theorem number_paddedUpperHex (width n : Nat) : number 16 (paddedUpperHex width n) = n := by
  rw [paddedUpperHex, paddedHex, List.map_append, List.map_replicate]
  generalize width - (hexDigits n).length = zeros
  induction zeros with
  | zero => exact number_hexDigits n
  | succ zeros ih => exact ih

theorem length_paddedUpperHex {width n : Nat} (hwidth : 0 < width) (hn : n < 16 ^ width) :
    (paddedUpperHex width n).length = width := by
  have hle : (hexDigits n).length ≤ width :=
    (Nat.length_toDigits_le_iff (by decide) hwidth).2 hn
  simp only [paddedUpperHex, paddedHex, List.length_map, List.length_append,
    List.length_replicate]
  omega

theorem isSome_hexDigit?_of_mem {width n : Nat} {c : Char} (h : c ∈ paddedUpperHex width n) :
    (hexDigit? c).isSome = true := by
  obtain ⟨k, hk, rfl⟩ := Source.exists_of_mem_paddedUpperHex h
  rw [hexDigit?_toUpper_digitChar k hk]
  rfl

theorem atoms?_number {n : Nat} (hn : n < 0x10000) (rest : List Char) :
    atoms? ('\\' :: 'u' :: (paddedUpperHex 4 n ++ rest)) = (atoms? rest).map (.unit n :: ·) := by
  have hlength : (paddedUpperHex 4 n).length = 4 := length_paddedUpperHex (by decide) hn
  have htake : (paddedUpperHex 4 n ++ rest).take 4 = paddedUpperHex 4 n :=
    List.take_left' hlength
  have hdrop : (paddedUpperHex 4 n ++ rest).drop 4 = rest := List.drop_left' hlength
  have hhex : startsWithHex 4 (paddedUpperHex 4 n ++ rest) = true := by
    rw [startsWithHex, htake, hlength]
    exact List.all_eq_true.2 fun c => isSome_hexDigit?_of_mem
  have hescape : escape 'u' (paddedUpperHex 4 n ++ rest) = ([.unit n], 4) := by
    have hletter : Regular.Shorthand.ofLetter? 'u' = none := by decide
    have hwidth : hexWidth? 'u' = some 4 := by decide
    simp only [escape, hletter, hwidth, hhex, if_true, htake, number_paddedUpperHex]
  rw [atoms?_pair, hescape, hdrop]
  rfl

theorem atoms?_unitText {n : Nat} (hn : n < 0x10000) (rest : List Char) :
    atoms? (unitText n ++ rest) = (atoms? rest).map (.unit n :: ·) := by
  simp only [unitText]
  split_ifs with h
  · obtain ⟨hascii, halnum⟩ := h
    have hunits : ∀ n < 0x80, unitsOf (Char.ofNat n) = [n] := by decide
    have hne : ∀ {d : Char}, d.isAlphanum = false → Char.ofNat n ≠ d :=
      fun hd => Source.ne_of_apply halnum hd
    rw [List.singleton_append, atoms?_char (hne (by decide)) (hne (by decide)) (hne (by decide)),
      hunits n hascii]
    rfl
  · exact atoms?_number hn rest

/-! ### Ranges -/

namespace UnitRange

/-- What a range is cut into. -/
def atoms (range : UnitRange) : List Atom :=
  if range.last ≤ range.first then [.unit range.first]
  else if range.last = range.first + 1 then [.unit range.first, .unit range.last]
  else [.unit range.first, .hyphen, .unit range.last]

/-- What a range is read as. -/
def items (range : UnitRange) : List Item :=
  if range.last ≤ range.first then [.atom (.unit range.first)]
  else if range.last = range.first + 1 then
    [.atom (.unit range.first), .atom (.unit range.last)]
  else [.range range.first range.last]

theorem items?_atoms (range : UnitRange) : items? range.atoms = some range.items := by
  unfold atoms items
  split_ifs with hsingle htwo
  · rfl
  · rfl
  · rw [items?_hyphen_of_unit rfl rfl (by omega)]
    rfl

theorem exists_matches_items_iff {range : UnitRange} (h : range.first ≤ range.last)
    (M : Meaning) (u : Nat) : (∃ item ∈ range.items, item.Matches M u) ↔ range.Contains u := by
  unfold items Contains
  split_ifs with hsingle htwo
  · simp only [List.mem_singleton, exists_eq_left, Item.Matches, Atom.Matches]
    omega
  · simp only [List.mem_cons, List.not_mem_nil, or_false, exists_eq_or_imp, exists_eq_left,
      Item.Matches, Atom.Matches]
    omega
  · simp only [List.mem_singleton, exists_eq_left, Item.Matches]

/-- A unit stands at either end. -/
theorem exists_atoms_eq (range : UnitRange) :
    (∃ as, range.atoms = .unit range.first :: as) ∧ range.atoms.getLast? ≠ some .hyphen := by
  unfold atoms
  split_ifs
  · exact ⟨⟨_, rfl⟩, by simp⟩
  · exact ⟨⟨_, rfl⟩, by simp⟩
  · exact ⟨⟨_, rfl⟩, by simp⟩

theorem noOperator_atoms_append (range : UnitRange) (as : List Atom) :
    NoOperator (range.atoms ++ as) := by
  obtain ⟨⟨later, hatoms⟩, _⟩ := range.exists_atoms_eq
  intro h
  rw [hatoms] at h
  cases h

end UnitRange

theorem atoms?_rangeText {range : UnitRange} (h : range.Within 0 0x10000) (rest : List Char) :
    atoms? (rangeText range ++ rest) = (atoms? rest).map (range.atoms ++ ·) := by
  obtain ⟨_, hle, hlast⟩ := h
  have hfirst : range.first < 0x10000 := Nat.lt_of_le_of_lt hle hlast
  unfold rangeText UnitRange.atoms
  split_ifs
  · rw [atoms?_unitText hfirst]
    rfl
  · rw [List.append_assoc, atoms?_unitText hfirst, atoms?_unitText hlast, Option.map_map]
    rfl
  · rw [List.append_assoc, atoms?_unitText hfirst, List.cons_append, atoms?_hyphen,
      atoms?_unitText hlast, Option.map_map, Option.map_map]
    rfl

variable {ranges : List UnitRange}

theorem atoms?_rangesText (h : ∀ range ∈ ranges, range.Within 0 0x10000) (rest : List Char) :
    atoms? (rangesText ranges ++ rest) =
      (atoms? rest).map (ranges.flatMap UnitRange.atoms ++ ·) := by
  induction ranges with
  | nil => simp [rangesText]
  | cons range ranges ih =>
    rw [rangesText, List.flatMap_cons, ← rangesText, List.append_assoc,
      atoms?_rangeText (h _ (List.mem_cons_self ..)),
      ih fun range hrange => h range (List.mem_cons_of_mem _ hrange), Option.map_map]
    simp only [Function.comp_def, List.flatMap_cons, List.append_assoc]

theorem noOperator_rangesAtoms {as : List Atom} (h : NoOperator as) :
    NoOperator (ranges.flatMap UnitRange.atoms ++ as) := by
  cases ranges with
  | nil => exact h
  | cons range ranges =>
    rw [List.flatMap_cons, List.append_assoc]
    exact range.noOperator_atoms_append _

theorem getLast?_rangesAtoms_ne : (ranges.flatMap UnitRange.atoms).getLast? ≠ some .hyphen := by
  induction ranges using List.reverseRecOn with
  | nil => simp
  | append_singleton ranges range _ =>
    rw [List.flatMap_append, List.flatMap_singleton, List.getLast?_append]
    intro h
    rcases Option.or_eq_some_iff.1 h with hlast | ⟨hnone, _⟩
    · exact range.exists_atoms_eq.2 hlast
    · obtain ⟨⟨later, hatoms⟩, _⟩ := range.exists_atoms_eq
      rw [hatoms] at hnone
      simp at hnone

theorem items?_rangesAtoms {as : List Atom} (h : NoOperator as) :
    items? (ranges.flatMap UnitRange.atoms ++ as) =
      (items? as).map (ranges.flatMap UnitRange.items ++ ·) := by
  induction ranges with
  | nil => simp
  | cons range ranges ih =>
    rw [List.flatMap_cons, List.flatMap_cons, List.append_assoc,
      items?_append range.items?_atoms (.inr ⟨range.exists_atoms_eq.2, noOperator_rangesAtoms h⟩),
      ih, Option.map_map]
    simp only [Function.comp_def, List.append_assoc]

/-! ### What the ranges add -/

/-- Do some items match the code units of a set and no others, whatever the shorthands mean? -/
def Denote (items : List Item) (P : Nat → Prop) : Prop :=
  ∀ M u, (∃ item ∈ items, item.Matches M u) ↔ P u

/-- Does a text between brackets add the code units of a set, and nothing else, to what stands
    around it? -/
def Adds (text : List Char) (P : Nat → Prop) : Prop :=
  ∃ items, Denote items P ∧
    ∀ before after xs ys, contents? before = some xs → contents? after = some ys →
      ¬ EndsInHyphen before → after.head? ≠ some '-' → ¬ ReachesInto before (text ++ after) →
      contents? (before ++ text ++ after) = some (xs ++ items ++ ys)

theorem denote_rangesItems (h : ∀ range ∈ ranges, range.first ≤ range.last) :
    Denote (ranges.flatMap UnitRange.items) fun u => ∃ range ∈ ranges, range.Contains u := by
  intro M u
  constructor
  · rintro ⟨item, hitem, hmatches⟩
    obtain ⟨range, hrange, hitem⟩ := List.mem_flatMap.1 hitem
    exact ⟨range, hrange,
      (UnitRange.exists_matches_items_iff (h range hrange) M u).1 ⟨item, hitem, hmatches⟩⟩
  · rintro ⟨range, hrange, hcontains⟩
    obtain ⟨item, hitem, hmatches⟩ :=
      (UnitRange.exists_matches_items_iff (h range hrange) M u).2 hcontains
    exact ⟨item, List.mem_flatMap.2 ⟨range, hrange, hitem⟩, hmatches⟩

theorem contents?_rangesText (h : ∀ range ∈ ranges, range.Within 0 0x10000) :
    contents? (rangesText ranges) = some (ranges.flatMap UnitRange.items) := by
  have hatoms := atoms?_rangesText h []
  have hitems := @items?_rangesAtoms ranges [] noOperator_nil
  rw [List.append_nil] at hatoms hitems
  rw [contents?, hatoms, atoms?_nil, Option.map_some, List.append_nil, Option.bind_some, hitems]
  simp [items?]

theorem adds_rangesText (h : ∀ range ∈ ranges, range.Within 0 0x10000) :
    Adds (rangesText ranges) fun u => ∃ range ∈ ranges, range.Contains u := by
  refine ⟨_, denote_rangesItems fun range hrange => (h range hrange).2.1, ?_⟩
  intro before after xs ys hbefore hafter hlast hhead hseam
  obtain ⟨as, has, hxs⟩ := Option.bind_eq_some_iff.1 hbefore
  obtain ⟨bs, hbs, hys⟩ := Option.bind_eq_some_iff.1 hafter
  have hbehind : NoOperator bs := fun heq => absurd heq (head?_atoms_ne_hyphen hbs hhead)
  have hparted : Parted as xs (ranges.flatMap UnitRange.atoms ++ bs) :=
    .inr ⟨getLast?_atoms_ne_hyphen has hlast, noOperator_rangesAtoms hbehind⟩
  rw [contents?, List.append_assoc, atoms?_append has hseam, atoms?_rangesText h, hbs]
  simp only [Option.map_some, Option.bind_some]
  rw [items?_append hxs hparted, items?_rangesAtoms hbehind, hys]
  simp only [Option.map_some, List.append_assoc]

/-- Nothing that is written for a range begins with a caret. -/
theorem head?_rangesText_ne : (rangesText ranges).head? ≠ some '^' := by
  have hunit : ∀ n, ∃ c cs, unitText n = c :: cs ∧ c ≠ '^' := by
    intro n
    simp only [unitText]
    split_ifs with h
    · exact ⟨_, _, rfl, Source.ne_of_apply h.2 (by decide)⟩
    · exact ⟨_, _, rfl, by decide⟩
  cases ranges with
  | nil => simp [rangesText]
  | cons range ranges =>
    obtain ⟨c, cs, htext, hc⟩ := hunit range.first
    rw [rangesText, List.flatMap_cons, rangeText, htext]
    split_ifs <;> simpa using hc

theorem denote_unitRanges (categories : List Unicode.Category) (negated : Bool) :
    Denote ((unitRanges categories negated).flatMap UnitRange.items)
      (Selected categories negated) := by
  intro M u
  have hranges : ∀ range ∈ unitRanges categories negated, range.first ≤ range.last :=
    fun range hrange => (within_of_mem_unitRanges range hrange).2.1
  exact (denote_rangesItems hranges M u).trans exists_contains_unitRanges_iff

theorem adds_unitRanges (categories : List Unicode.Category) (negated : Bool) :
    Adds (rangesText (unitRanges categories negated)) (Selected categories negated) := by
  have hadds := @adds_rangesText (unitRanges categories negated) within_of_mem_unitRanges
  simpa only [exists_contains_unitRanges_iff] using hadds

/-- Does a text consist of one bracket expression, with the code units of a set? -/
def IsBracketOf (text : List Char) (P : Nat → Prop) : Prop :=
  ∃ inner b, text = '[' :: inner ++ [']'] ∧ Class.read? inner = some b ∧
    ∀ M u, u < 0x10000 → (b.Matches M u ↔ P u)

theorem isBracketOf_expanded (text : List Char) (categories : List Unicode.Category)
    (negated : Bool) :
    IsBracketOf (Escape.expanded false ⟨text, categories, negated⟩)
      (Selected categories negated) := by
  refine ⟨(if negated then ['^'] else []) ++ rangesText (unitRanges categories false),
    ⟨negated, (unitRanges categories false).flatMap UnitRange.items⟩, ?_, ?_, ?_⟩
  · cases negated <;> rfl
  · rw [Class.read?_caret fun _ => head?_rangesText_ne,
      contents?_rangesText within_of_mem_unitRanges]
    rfl
  · intro M u hu
    rw [Class.matches_iff, denote_unitRanges categories false M u]
    simp only [Selected, hu, true_and, true_iff]

/-- **Category escapes become their code units.** -/
theorem adds_expand (categories : List Unicode.Category) (negated : Bool) :
    Adds (rangesText (unitRanges categories negated)) (Selected categories negated) ∧
    (∀ range ∈ unitRanges categories negated, range.first ≤ range.last) ∧
    Separate (unitRanges categories negated) ∧
    ∀ spelling : Source.CategorySpelling, spelling.categories? = some categories →
      spelling.negated = negated → ∀ inClass dotAll before x after y, Complete before →
      (expand inClass dotAll before).outcome = .ok x →
      (expand inClass dotAll after).outcome = .ok y →
      ∃ written,
        (expand inClass dotAll (before ++ spelling.text ++ after)).outcome =
          .ok (x ++ written ++ y) ∧
        if inClass then written = rangesText (unitRanges categories negated)
        else IsBracketOf written (Selected categories negated) := by
  refine ⟨adds_unitRanges categories negated,
    fun range hrange => (within_of_mem_unitRanges range hrange).2.1,
    separate_unitRanges categories negated, ?_⟩
  rintro spelling hcategories rfl inClass dotAll before x after y hbefore hx hy
  have hspelling := @Source.Expands.category inClass dotAll _ (Option.isSome_of_eq_some hcategories)
  rw [← spelling.expanded_eq hcategories] at hspelling
  refine ⟨_, ((Source.expands_of_complete hbefore hx).append hspelling) _ _ hy, ?_⟩
  cases inClass with
  | true => rfl
  | false => exact isBracketOf_expanded _ _ _

theorem adds_expand_digits :
    (∃ items, Denote items (Selected [.nd] false) ∧
      contents? (['_'] ++ rangesText (unitRanges [.nd] false) ++ ['+']) =
        some ([.atom (.unit 0x5F)] ++ items ++ [.atom (.unit 0x2B)])) ∧
    ∃ written,
      (expand false true (['.'] ++ "\\P{^Nd}".toList ++ ['x'])).outcome =
        .ok ("[\\s\\S]".toList ++ written ++ ['x']) ∧
      IsBracketOf written (Selected [.nd] false) := by
  obtain ⟨⟨items, hdenote, hadds⟩, _, _, hexpand⟩ := adds_expand [.nd] false
  have hline : contents? ['_'] = some [.atom (.unit 0x5F)] :=
    contents?_char (by decide) (by decide) (by decide) (by decide)
  have hplus : contents? ['+'] = some [.atom (.unit 0x2B)] :=
    contents?_char (by decide) (by decide) (by decide) (by decide)
  have hsingle := hadds ['_'] ['+'] _ _ hline hplus (not_endsInHyphen (by decide)) (by decide)
    (not_reachesInto_of_not_mem (by decide))
  obtain ⟨written, hwritten⟩ := hexpand (.braced true true ['N', 'd']) rfl rfl false true ['.'] _
    ['x'] _ (complete_of_all (by decide)) (Source.Expands.single (by decide)).outcome
    (Source.Expands.char (by decide) (by decide)).outcome
  exact ⟨⟨items, hdenote, hsingle⟩, written, hwritten⟩

/-- An escape that could go on takes in the first digit: behind `\0`, the decimal digits add the
    exclamation mark. -/
theorem adds_expand_open :
    ¬ ∀ categories negated before xs after ys, contents? before = some xs →
      contents? after = some ys → ¬ EndsInHyphen before → after.head? ≠ some '-' →
      ∃ zs, contents? (before ++ rangesText (unitRanges categories negated) ++ after) = some zs ∧
        ∀ M u, (∃ item ∈ zs, item.Matches M u) ↔ (∃ item ∈ xs, item.Matches M u) ∨
          Selected categories negated u ∨ ∃ item ∈ ys, item.Matches M u := by
  intro hclaim
  have hnil : contents? [] = some [] := by
    rw [contents?, atoms?_nil]
    rfl
  have hzero : contents? ['\\', '0'] = some [.atom (.unit 0)] := by
    have hescape : escape '0' [] = ([.unit 0], 0) := rfl
    rw [contents?, atoms?_pair, hescape, List.drop_nil, atoms?_nil]
    rfl
  obtain ⟨later, hranges⟩ : ∃ later, unitRanges [.nd] false = ⟨0x30, 0x39⟩ :: later :=
    List.head?_eq_some_iff.1 (by decide +kernel)
  have hlater : ∀ range ∈ later, range.Within 0 0x10000 := fun range hrange =>
    within_of_mem_unitRanges range (hranges ▸ List.mem_cons_of_mem _ hrange)
  have hread : contents? (['\\', '0'] ++ rangesText (⟨0x30, 0x39⟩ :: later)) =
      some (.range 0 0x39 :: later.flatMap UnitRange.items) := by
    have htext : ['\\', '0'] ++ rangesText (⟨0x30, 0x39⟩ :: later) =
        '\\' :: '0' :: '0' :: '-' :: '9' :: rangesText later := rfl
    have hescape : escape '0' ('0' :: '-' :: '9' :: rangesText later) = ([.unit 0], 1) := rfl
    have hnine : atoms? ('9' :: rangesText later) =
        (atoms? (rangesText later)).map (.unit 0x39 :: ·) :=
      atoms?_char (by decide) (by decide) (by decide) _
    obtain ⟨as, has, hitems⟩ := Option.bind_eq_some_iff.1 (contents?_rangesText hlater)
    rw [htext, contents?, atoms?_pair, hescape, List.drop_one, List.tail_cons, atoms?_hyphen,
      hnine, has]
    simp only [Option.map_some, Option.bind_some, List.singleton_append]
    rw [items?_hyphen_of_unit rfl rfl (by decide), hitems]
    rfl
  obtain ⟨zs, hzs, hmatches⟩ := hclaim [.nd] false _ _ [] [] hzero hnil
    (not_endsInHyphen (by decide)) (by decide)
  rw [hranges, List.append_nil, hread] at hzs
  cases hzs
  have hmark : Item.Matches (fun _ _ => False) (.range 0 0x39) 0x21 := ⟨by decide, by decide⟩
  have hcategory : Unicode.categoryOf 0x21 = .po := by decide +kernel
  rcases (hmatches _ 0x21).1 ⟨_, List.mem_cons_self .., hmark⟩ with ⟨item, hitem, hno⟩ | hno | hno
  · rw [List.mem_singleton.1 hitem] at hno
    cases hno
  · rw [Selected, hcategory] at hno
    exact absurd (hno.2.1 rfl) (by decide)
  · obtain ⟨_, hmem, _⟩ := hno
    cases hmem

end RegexText.CategoryEscape
