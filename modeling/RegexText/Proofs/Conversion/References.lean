/-
  RegexText/Proofs/Conversion/References.lean
  ===========================================
  **Backreferences mean the groups of the tree.**

  The converter counts the groups that it has met and keeps a map from names to
  numbers, in which a later group of a name takes the place of an earlier one.
  `capturesOf` is this record for a list of groups, and looking a name up in it
  finds the latest group of that name in the list.
-/
import RegexText.Conversion
import RegexText.Proofs.CaptureMap
import RegexText.Proofs.Conversion.Escapes

namespace RegexText

namespace Source

open Text

/-! ### Captures -/

/-- What the converter knows when some groups have been opened. -/
def capturesOf : Groups → Captures
  | [] => .none
  | name :: earlier => (capturesOf earlier).openGroup name

theorem capturesOf_opened (groups : Groups) : (capturesOf groups).opened = groups.length := by
  induction groups with
  | nil => rfl
  | cons name earlier ih =>
    cases name <;> simp [capturesOf, Captures.openGroup, ih]

theorem get?_capturesOf (groups : Groups) (name : String) :
    (capturesOf groups).names.get? name = groupNumber? groups name := by
  induction groups with
  | nil => rfl
  | cons group earlier ih =>
    cases group with
    | none => simpa [capturesOf, Captures.openGroup, groupNumber?] using ih
    | some known =>
      rw [groupNumber?, capturesOf, Captures.openGroup, CaptureMap.get?_insert,
        capturesOf_opened, ih]
      simp

/-- The names of some groups with their numbers, in the order in which the groups open. -/
def numberedNames : Groups → List (String × Nat)
  | [] => []
  | none :: earlier => numberedNames earlier
  | some name :: earlier => numberedNames earlier ++ [(name, earlier.length + 1)]

theorem map_fst_numberedNames (groups : Groups) :
    (numberedNames groups).map Prod.fst = groups.reverse.filterMap id := by
  induction groups with
  | nil => rfl
  | cons group earlier ih =>
    cases group <;> simp [numberedNames, ih]

/-- The converter records the names one after the other. -/
theorem names_capturesOf_eq_ofList (groups : Groups) :
    (capturesOf groups).names = CaptureMap.ofList (numberedNames groups) := by
  induction groups with
  | nil => rfl
  | cons group earlier ih =>
    cases group with
    | none => exact ih
    | some name =>
      rw [capturesOf, Captures.openGroup, numberedNames, CaptureMap.ofList_concat, ih,
        capturesOf_opened]

/-- **The converter's map of names is that of the tree.** -/
theorem names_capturesOf (groups : Groups) : (capturesOf groups).names = namedGroups groups := by
  have hentries : (capturesOf groups).names.entries = (namedGroups groups).entries := by
    simp only [namedGroups, ← get?_capturesOf, ← map_fst_numberedNames,
      names_capturesOf_eq_ofList]
    exact CaptureMap.entries_ofList _
  exact congrArg CaptureMap.mk hentries

theorem exists_groupNumber? {groups : Groups} {name : String} (h : some name ∈ groups) :
    ∃ number, groupNumber? groups name = some number := by
  induction groups with
  | nil => cases h
  | cons group earlier ih =>
    unfold groupNumber?
    split
    · exact ⟨_, rfl⟩
    · rename_i hne
      rcases List.mem_cons.1 h with heq | hmem
      · exact absurd heq.symm hne
      · exact ih hmem

/-- The number of a name is the place of its last group, with the first group in front. -/
theorem groupNumber?_eq_some_iff {groups : Groups} {name : String} {number : Nat} :
    groupNumber? groups name = some number ↔
      ∃ i, number = i + 1 ∧ groups.reverse[i]? = some (some name) ∧
        ∀ j, i < j → groups.reverse[j]? ≠ some (some name) := by
  induction groups with
  | nil => simp [groupNumber?]
  | cons group earlier ih =>
    have hget : ∀ i, (group :: earlier).reverse[i]? =
        if i = earlier.length then some group else earlier.reverse[i]? := by
      intro i
      rw [List.reverse_cons]
      split
      · rename_i hi
        simp [hi]
      · rename_i hi
        rcases Nat.lt_or_gt_of_ne hi with hlt | hgt
        · exact List.getElem?_append_left (by simpa using hlt)
        · rw [List.getElem?_eq_none (by simp; omega), List.getElem?_eq_none (by simp; omega)]
    rw [groupNumber?]
    by_cases hgroup : group = some name
    · rw [if_pos hgroup, Option.some.injEq]
      constructor
      · rintro rfl
        refine ⟨earlier.length, rfl, by rw [hget, if_pos rfl, hgroup], ?_⟩
        intro j hj
        rw [List.getElem?_eq_none (by simp; omega)]
        exact (Option.some_ne_none _).symm
      · rintro ⟨i, rfl, hi, hlater⟩
        have hlt := (List.getElem?_eq_some_iff.1 hi).1
        rw [List.length_reverse, List.length_cons] at hlt
        have hlast : (group :: earlier).reverse[earlier.length]? = some (some name) := by
          rw [hget, if_pos rfl, hgroup]
        by_contra hne
        exact hlater earlier.length (by omega) hlast
    · have hsame : ∀ i : Nat, (group :: earlier).reverse[i]? = some (some name) ↔
          earlier.reverse[i]? = some (some name) := by
        intro i
        rw [hget]
        split
        · rename_i hi
          rw [hi, List.getElem?_eq_none (by simp)]
          simpa using hgroup
        · rfl
      rw [if_neg hgroup, ih]
      simp only [ne_eq, hsame]

/-- The entries of the map of names, name by name. -/
theorem mem_namedGroups_iff {groups : Groups} {name : String} {number : Nat} :
    (name, number) ∈ (namedGroups groups).toList ↔ groupNumber? groups name = some number := by
  constructor
  · intro h
    obtain ⟨known, hknown, heq⟩ := List.mem_map.1 h
    cases heq
    obtain ⟨group, hgroup, rfl⟩ := List.mem_filterMap.1 (List.mem_eraseDups.1 hknown)
    obtain ⟨found, hfound⟩ := exists_groupNumber? (List.mem_reverse.1 hgroup)
    rw [hfound]
    rfl
  · intro h
    have hmem : some name ∈ groups.reverse := by
      obtain ⟨i, _, hget, _⟩ := groupNumber?_eq_some_iff.1 h
      exact List.mem_of_getElem? hget
    refine List.mem_map.2 ⟨name, ?_, by rw [h]; rfl⟩
    exact List.mem_eraseDups.2 (List.mem_filterMap.2 ⟨some name, hmem, rfl⟩)

theorem capturesOf_opens (groups : Groups) (g : Mark) (endToken : Nat) :
    Conversion.opened (capturesOf groups) (.groupStart g.opener endToken) =
      capturesOf (g.opens groups) := by
  cases g <;> rfl

/-! ### Reading one reference -/

namespace Reference

/-- What a reference refers to, in the terms of the reader. -/
def meaning : Reference → Backreference
  | .named _ name => .named (String.ofList name)
  | .numbered _ digits => .absolute (digitsValue digits)
  | .relative _ digits => .relative (digitsValue digits)

def letter : Reference → Char
  | .named .gBrace _ => 'g'
  | .named _ _ => 'k'
  | .numbered _ _ => 'g'
  | .relative _ _ => 'g'

def tail (r : Reference) : List Char := r.text.drop 2

theorem letter_eq (r : Reference) : r.letter = 'k' ∨ r.letter = 'g' := by
  cases r with
  | named form name => cases form <;> simp [letter]
  | numbered braced digits => exact .inr rfl
  | relative braced digits => exact .inr rfl

theorem text_eq (r : Reference) : r.text = '\\' :: r.letter :: r.tail := by
  cases r with
  | named form name => cases form <;> rfl
  | numbered braced digits => cases braced <;> rfl
  | relative braced digits => cases braced <;> rfl

end Reference

theorem splitClosed_append {close : Char} {text : List Char} (h : close ∉ text)
    (rest : List Char) :
    Backreference.splitClosed close (text ++ close :: rest) = some (text, rest) := by
  obtain ⟨htake, hdrop⟩ := takeWhile_ne_append h rest
  simp only [Backreference.splitClosed, hdrop, htake]

theorem ofText_identifier (letter : Char) {name : List Char} (h : isIdentifier name = true) :
    Backreference.ofText letter name = some (.named (String.ofList name)) := by
  cases name with
  | nil => cases h
  | cons c cs =>
    simp only [isIdentifier, Bool.and_eq_true, Bool.not_eq_true'] at h
    have hhyphen : c ≠ '-' :=
      ne_of_apply (List.all_eq_true.1 h.2 c (List.mem_cons_self ..)) (by decide)
    unfold Backreference.ofText
    split
    · rename_i heq
      exact absurd (List.cons.inj heq).1 hhyphen
    · rename_i heq
      cases heq
      rw [if_neg (by simp [h.1]), if_pos h.2]
    · rename_i heq
      cases heq

theorem eq_digitsValue {digits : List Char} {number : Nat}
    (h : readDigits? digits = some number) : digitsValue digits = number := by
  unfold readDigits? at h
  split at h
  · exact Option.some.inj h
  · cases h

theorem exists_digit_of_readDigits? {digits : List Char} {number : Nat}
    (h : readDigits? digits = some number) :
    ∃ d ds, digits = d :: ds ∧ d.isDigit = true := by
  obtain ⟨hne, hall⟩ := all_isDigit_of_readDigits? h
  cases digits with
  | nil => exact absurd rfl hne
  | cons d ds => exact ⟨d, ds, rfl, hall d (List.mem_cons_self ..)⟩

theorem ofText_digits {digits : List Char} {number : Nat}
    (h : readDigits? digits = some number) :
    Backreference.ofText 'g' digits = some (.absolute (digitsValue digits)) := by
  obtain ⟨d, ds, rfl, hd⟩ := exists_digit_of_readDigits? h
  have hhyphen : d ≠ '-' := ne_of_apply hd (by decide)
  unfold Backreference.ofText
  split
  · rename_i heq
    exact absurd (List.cons.inj heq).1 hhyphen
  · rename_i heq
    cases heq
    rw [if_pos hd, if_pos rfl, h, eq_digitsValue h]
    rfl
  · rename_i heq
    cases heq

theorem ofText_hyphen {digits : List Char} {number : Nat}
    (h : readDigits? digits = some number) :
    Backreference.ofText 'g' ('-' :: digits) = some (.relative (digitsValue digits)) := by
  obtain ⟨d, ds, rfl, hd⟩ := exists_digit_of_readDigits? h
  have hplus : d ≠ '+' := ne_of_apply hd (by decide)
  have hsize : readSize? (d :: ds) = readDigits? (d :: ds) := by
    unfold readSize?
    split
    · rename_i heq
      exact absurd (List.cons.inj heq).1 hplus
    · rfl
  rw [Backreference.ofText, if_pos rfl, hsize, h, eq_digitsValue h]
  rfl

def digitAhead (cs : List Char) : Bool := cs.head?.any Char.isDigit

theorem takeWhile_digits_append {digits : List Char} (h : ∀ c ∈ digits, c.isDigit = true)
    {rest : List Char} (hrest : digitAhead rest = false) :
    (digits ++ rest).takeWhile Char.isDigit = digits ∧
      (digits ++ rest).dropWhile Char.isDigit = rest := by
  refine Text.takeWhile_append_of_stop h ?_
  intro c hc
  rw [digitAhead, Option.mem_def.1 hc] at hrest
  exact hrest

theorem not_mem_identifier {name : List Char} (h : isIdentifier name = true) {close : Char}
    (hclose : Lexeme.isNameChar close = false) : close ∉ name :=
  not_mem_of_all (all_isNameChar_of_isIdentifier h) hclose

theorem not_mem_digits {digits : List Char} {number : Nat}
    (h : readDigits? digits = some number) : '}' ∉ digits :=
  not_mem_of_all (all_isDigit_of_readDigits? h).2 (by decide)

/-- A reference between an opening and a closing character is read up to the latter. -/
theorem read_closed (letter c close : Char) {text : List Char} {meaning : Backreference}
    (hcloser : Backreference.closer? letter c = some close) (htext : close ∉ text)
    (hmeaning : Backreference.ofText letter text = some meaning) (rest : List Char) :
    ∃ spelling, Backreference.read letter (c :: text ++ [close] ++ rest) =
      some (meaning, spelling, rest) := by
  refine ⟨'\\' :: letter :: c :: text ++ [close], ?_⟩
  have hsplit : Backreference.splitClosed close (text ++ [close] ++ rest) = some (text, rest) := by
    rw [List.append_assoc]
    exact splitClosed_append htext rest
  simp only [Backreference.read, List.cons_append, hcloser, hsplit, hmeaning,
    Option.bind_eq_bind, Option.bind_some, Option.pure_def]

/-- A number without braces is read up to the last digit. -/
theorem read_unclosed {text rest : List Char} {meaning : Backreference}
    (hhead : ∀ c ∈ text.head?, Backreference.closer? 'g' c = none)
    (hsplit : Backreference.splitNumber (text ++ rest) = (text, rest))
    (hmeaning : Backreference.ofText 'g' text = some meaning) :
    ∃ spelling, Backreference.read 'g' (text ++ rest) = some (meaning, spelling, rest) := by
  refine ⟨'\\' :: 'g' :: text, ?_⟩
  cases text with
  | nil => cases hmeaning
  | cons c cs =>
    have hcloser := hhead c rfl
    rw [List.cons_append] at hsplit
    simp only [Backreference.read, List.cons_append, hcloser, hsplit, hmeaning, if_true,
      Option.bind_eq_bind, Option.bind_some, Option.pure_def]

theorem closer?_digit {d : Char} (hd : d.isDigit = true) : Backreference.closer? 'g' d = none := by
  have hbrace : d ≠ '{' := ne_of_apply hd (by decide)
  simp [Backreference.closer?, hbrace]

/-- **A legal reference is read up to its end.** -/
theorem read_reference {groups : Groups} {r : Reference} (h : r.isLegal groups = true)
    {rest : List Char} (hrest : r.isOpen = true → digitAhead rest = false) :
    ∃ spelling, Backreference.read r.letter (r.tail ++ rest) =
      some (r.meaning, spelling, rest) := by
  cases r with
  | named form name =>
    simp only [Reference.isLegal, Bool.and_eq_true] at h
    have hidentifier := h.2
    cases form with
    | angle =>
      exact read_closed 'k' '<' '>' (by decide) (not_mem_identifier hidentifier (by decide))
        (ofText_identifier 'k' hidentifier) rest
    | quote =>
      exact read_closed 'k' '\'' '\'' (by decide) (not_mem_identifier hidentifier (by decide))
        (ofText_identifier 'k' hidentifier) rest
    | brace =>
      exact read_closed 'k' '{' '}' (by decide) (not_mem_identifier hidentifier (by decide))
        (ofText_identifier 'k' hidentifier) rest
    | gBrace =>
      exact read_closed 'g' '{' '}' (by decide) (not_mem_identifier hidentifier (by decide))
        (ofText_identifier 'g' hidentifier) rest
  | numbered braced digits =>
    obtain ⟨number, hread, _⟩ := readDigits?_of_isLegal_numbered h
    cases braced with
    | true =>
      exact read_closed 'g' '{' '}' (by decide) (not_mem_digits hread) (ofText_digits hread) rest
    | false =>
      obtain ⟨_, hall⟩ := all_isDigit_of_readDigits? hread
      obtain ⟨htake, hdrop⟩ := takeWhile_digits_append hall (hrest rfl)
      obtain ⟨d, ds, rfl, hd⟩ := exists_digit_of_readDigits? hread
      apply read_unclosed _ _ (ofText_digits hread)
      · rintro c ⟨rfl⟩
        exact closer?_digit hd
      · rw [Backreference.splitNumber, htake, hdrop]
        rintro cs heq
        exact absurd (List.cons.inj heq).1 (ne_of_apply hd (by decide))
  | relative braced digits =>
    obtain ⟨count, hread, _⟩ := readDigits?_of_isLegal_relative h
    cases braced with
    | true =>
      have hbrace : '}' ∉ '-' :: digits := by simp [not_mem_digits hread]
      exact read_closed 'g' '{' '}' (by decide) hbrace (ofText_hyphen hread) rest
    | false =>
      obtain ⟨_, hall⟩ := all_isDigit_of_readDigits? hread
      obtain ⟨htake, hdrop⟩ := takeWhile_digits_append hall (hrest rfl)
      refine read_unclosed ?_ ?_ (ofText_hyphen hread)
      · rintro c ⟨rfl⟩
        decide
      · change Backreference.splitNumber ('-' :: (digits ++ rest)) = ('-' :: digits, rest)
        rw [Backreference.splitNumber, htake, hdrop]

theorem filter_bounds {number last : Nat} (hpos : 1 ≤ number) (hle : number ≤ last) :
    (some number).filter (fun n => 1 ≤ n && n ≤ last) = some number := by
  rw [Option.filter_some, if_pos (by simp [hpos, hle])]

theorem resolve?_relative (groups : Groups) (count : Nat) :
    (capturesOf groups).resolve? (.relative count) =
      (some (groups.length + 1 - count)).filter fun n => 1 ≤ n && n ≤ groups.length := by
  rw [← capturesOf_opened]
  rfl

/-- **A legal reference is resolved to the group that it means.** -/
theorem resolve?_meaning {groups : Groups} {r : Reference} (h : r.isLegal groups = true) :
    (capturesOf groups).resolve? r.meaning = r.target? groups := by
  cases r with
  | named form name =>
    have hresolve : (capturesOf groups).resolve? (.named (String.ofList name)) =
        (groupNumber? groups (String.ofList name)).filter
          (fun n => 1 ≤ n && n ≤ groups.length) := by
      rw [← get?_capturesOf, ← capturesOf_opened]
      rfl
    rw [Reference.meaning, hresolve, Reference.target?]
    cases hnumber : groupNumber? groups (String.ofList name) with
    | none => rfl
    | some number =>
      obtain ⟨hpos, hle⟩ := groupNumber?_le hnumber
      exact filter_bounds hpos hle
  | numbered braced digits =>
    obtain ⟨number, hread, _⟩ := readDigits?_of_isLegal_numbered h
    rw [Reference.meaning, eq_digitsValue hread, Reference.target?, hread, ← capturesOf_opened]
    rfl
  | relative braced digits =>
    obtain ⟨count, hread, hpos, hle⟩ := readDigits?_of_isLegal_relative h
    rw [Reference.meaning, eq_digitsValue hread, resolve?_relative,
      filter_bounds (by omega) (by omega),
      Reference.target?, hread, filter_bounds hpos hle, Option.map_some]

end Source

end RegexText
