/-
  RegexText/Proofs/Target/Escape.lean
  ===================================
  **Characters and escapes between the brackets of the target dialect.**

  The target reads a text as UTF-16 code units, so a character beyond the basic
  plane is two of them.  Behind a backslash it is lenient: `\x` and `\u` that lack
  digits, and `\c` that lacks a letter, stand for their own characters, and a run
  of octal digits is a number.

  How far an escape reaches is seen only from what comes behind it.  `\0` is a unit
  by itself, but in front of `0-9` it takes in the first digit.  `ReachesInto` says
  that this happens at a seam between two texts; where it does not, they are read
  one after the other (`atoms?_append`).
-/
import RegexText.Proofs.Regular.Bracket

namespace RegexText.Target

open Text
open Regular (Shorthand)

/-! ### Atoms -/

/-- What stands between brackets, one after the other. -/
inductive Atom where
  | unit (n : Nat)
  /-- A hyphen without a backslash. -/
  | hyphen
  | shorthand (s : Shorthand) (negated : Bool)
deriving DecidableEq, Repr

/-- The code units of a character: one, or two surrogates. -/
def unitsOf (c : Char) : List Nat :=
  if c.toNat < 0x10000 then [c.toNat]
  else [0xD800 + (c.toNat - 0x10000) / 0x400, 0xDC00 + (c.toNat - 0x10000) % 0x400]

/-! ### Digits -/

def hexDigit? (c : Char) : Option Nat :=
  if '0' ≤ c ∧ c ≤ '9' then some (c.toNat - '0'.toNat)
  else if 'A' ≤ c ∧ c ≤ 'F' then some (c.toNat - 'A'.toNat + 10)
  else if 'a' ≤ c ∧ c ≤ 'f' then some (c.toNat - 'a'.toNat + 10)
  else none

def isOctalDigit (c : Char) : Bool := '0' ≤ c && c ≤ '7'

/-- The number that some digits spell. -/
def number (base : Nat) (digits : List Char) : Nat :=
  digits.foldl (fun value c => base * value + (hexDigit? c).getD 0) 0

/-- Does a text begin with so many hexadecimal digits? -/
def startsWithHex (count : Nat) (cs : List Char) : Bool :=
  (cs.take count).length == count && (cs.take count).all fun c => (hexDigit? c).isSome

/-- The octal digits in front of a text, up to so many. -/
def octalDigits : Nat → List Char → List Char
  | 0, _ => []
  | _, [] => []
  | count + 1, c :: cs => if isOctalDigit c then c :: octalDigits count cs else []

/-- How many octal digits may follow a first one: the number stays below 256. -/
def octalRoom (first : Char) : Nat := if first ≤ '3' then 2 else 1

/-! ### Escapes -/

/-- The letters that stand for control characters. -/
def controlLetter? (c : Char) : Option Nat :=
  if c = 'b' then some 0x08
  else if c = 't' then some 0x09
  else if c = 'n' then some 0x0A
  else if c = 'v' then some 0x0B
  else if c = 'f' then some 0x0C
  else if c = 'r' then some 0x0D
  else none

/-- How many hexadecimal digits belong to the escape of a letter, if they are there. -/
def hexWidth? (c : Char) : Option Nat :=
  if c = 'x' then some 2 else if c = 'u' then some 4 else none

/-- Does a character go together with `\c`? -/
def takesControl (c : Char) : Bool := c.isAlphanum || c == '_'

/-- What the escape stands for that has `c` behind its backslash and `cs` behind that, and how
    many characters of `cs` belong to it. -/
def escape (c : Char) (cs : List Char) : List Atom × Nat :=
  match Shorthand.ofLetter? c, hexWidth? c with
  | some (s, negated), _ => ([.shorthand s negated], 0)
  | none, some width =>
    if startsWithHex width cs then ([.unit (number 16 (cs.take width))], width)
    else ((unitsOf c).map .unit, 0)
  | none, none =>
    if c = 'c' then
      match cs.head?.filter takesControl with
      | some d => ([.unit (d.toNat % 32)], 1)
      | none => ([.unit '\\'.toNat, .unit 'c'.toNat], 0)
    else if isOctalDigit c then
      let digits := octalDigits (octalRoom c) cs
      ([.unit (number 8 (c :: digits))], digits.length)
    else
      match controlLetter? c with
      | some n => ([.unit n], 0)
      | none => ((unitsOf c).map .unit, 0)

/-- Cut a text between brackets into atoms.  It is none if it holds a closing bracket or ends in
    a lone backslash. -/
def atoms? : List Char → Option (List Atom)
  | [] => some []
  | c :: cs =>
    if c = '\\' then
      match cs with
      | [] => none
      | d :: rest => (atoms? (rest.drop (escape d rest).2)).map ((escape d rest).1 ++ ·)
    else if c = ']' then none
    else if c = '-' then (atoms? cs).map (.hyphen :: ·)
    else (atoms? cs).map ((unitsOf c).map .unit ++ ·)
termination_by cs => cs.length
decreasing_by
  · simp only [List.length_drop, List.length_cons]
    omega
  · simp
  · simp

/-! ### How far escapes reach -/

theorem le_length_of_startsWithHex {count : Nat} {cs : List Char}
    (h : startsWithHex count cs = true) : count ≤ cs.length := by
  simp only [startsWithHex, Bool.and_eq_true, beq_iff_eq, List.length_take] at h
  omega

/-- Digits that are there are there whatever follows them. -/
theorem startsWithHex_append {count : Nat} {as bs : List Char}
    (h : startsWithHex count (as ++ bs) = true → count ≤ as.length) :
    startsWithHex count (as ++ bs) = startsWithHex count as := by
  by_cases hlength : count ≤ as.length
  · rw [startsWithHex, startsWithHex, List.take_append_of_le_length hlength]
  · rw [Bool.eq_false_iff.2 (mt h hlength),
      Bool.eq_false_iff.2 (mt le_length_of_startsWithHex hlength)]

theorem octalDigits_append {count : Nat} {as bs : List Char}
    (h : (octalDigits count (as ++ bs)).length ≤ as.length) :
    octalDigits count (as ++ bs) = octalDigits count as := by
  induction count generalizing as with
  | zero => rfl
  | succ count ih =>
    cases as with
    | nil => exact List.eq_nil_of_length_eq_zero (Nat.le_zero.1 h)
    | cons a as =>
      rw [List.cons_append, octalDigits, octalDigits]
      rw [List.cons_append, octalDigits] at h
      split_ifs at h ⊢
      · rw [ih (Nat.le_of_succ_le_succ h)]
      · rfl

/-- The octal digits are a front of the text. -/
theorem take_length_octalDigits (count : Nat) (cs : List Char) :
    cs.take (octalDigits count cs).length = octalDigits count cs := by
  induction count generalizing cs with
  | zero => rfl
  | succ count ih =>
    cases cs with
    | nil => rfl
    | cons c cs =>
      rw [octalDigits]
      split_ifs
      · rw [List.length_cons, List.take_succ_cons, ih]
      · rfl

theorem isOctalDigit_of_mem {count : Nat} {cs : List Char} {c : Char}
    (h : c ∈ octalDigits count cs) : isOctalDigit c = true := by
  induction count generalizing cs with
  | zero => cases h
  | succ count ih =>
    cases cs with
    | nil => cases h
    | cons d ds =>
      rw [octalDigits] at h
      split_ifs at h with hd
      · rcases List.mem_cons.1 h with rfl | hmem
        · exact hd
        · exact ih hmem
      · cases h

/-- What belongs to an escape holds no backslash. -/
theorem ne_backslash_of_mem_take_escape {c d : Char} {cs : List Char}
    (h : d ∈ cs.take (escape c cs).2) : d ≠ '\\' := by
  rintro rfl
  unfold escape at h
  split at h
  · cases h
  · split_ifs at h with hhex
    · have hall := (Bool.and_eq_true_iff.1 hhex).2
      exact absurd (List.all_eq_true.1 hall _ h) (by decide)
    · cases h
  · split_ifs at h with hcontrol hoctal
    · split at h
      · rename_i control hhead
        obtain ⟨hhead, htakes⟩ := Option.filter_eq_some_iff.1 hhead
        obtain ⟨rest, rfl⟩ := List.head?_eq_some_iff.1 hhead
        rw [← List.mem_singleton.1 h] at htakes
        cases htakes
      · cases h
    · rw [take_length_octalDigits] at h
      exact absurd (isOctalDigit_of_mem h) (by decide)
    · split at h <;> cases h

/-- An escape that ends in the first text does not see the second. -/
theorem escape_append {c : Char} {as bs : List Char}
    (h : (escape c (as ++ bs)).2 ≤ as.length) : escape c (as ++ bs) = escape c as := by
  unfold escape at h ⊢
  split at h
  · rfl
  · rename_i width _ _
    have hstarts : startsWithHex width (as ++ bs) = startsWithHex width as := by
      apply startsWithHex_append
      intro hstarts
      simpa only [hstarts, if_true] using h
    rw [hstarts]
    split_ifs with hhex
    · rw [List.take_append_of_le_length (le_length_of_startsWithHex hhex)]
    · rfl
  · split_ifs at h ⊢ with hcontrol hoctal
    · cases as with
      | nil =>
        -- without a character of its own the escape is `\c` alone
        have hhead : bs.head?.filter takesControl = none := by
          cases hhead : bs.head?.filter takesControl with
          | none => rfl
          | some d =>
            rw [List.nil_append, hhead] at h
            exact absurd h (Nat.not_succ_le_zero 0)
        rw [List.nil_append, hhead]
        rfl
      | cons a as => rfl
    · rw [octalDigits_append h]
    · rfl

/-! ### Reading on -/

@[simp] theorem atoms?_nil : atoms? [] = some [] := by
  rw [atoms?.eq_def]

theorem atoms?_pair (c : Char) (cs : List Char) :
    atoms? ('\\' :: c :: cs) =
      (atoms? (cs.drop (escape c cs).2)).map ((escape c cs).1 ++ ·) := by
  rw [atoms?.eq_def]
  simp only [if_true]

theorem atoms?_hyphen (cs : List Char) : atoms? ('-' :: cs) = (atoms? cs).map (.hyphen :: ·) := by
  rw [atoms?.eq_def]
  simp

theorem atoms?_char {c : Char} (hbackslash : c ≠ '\\') (hclose : c ≠ ']') (hhyphen : c ≠ '-')
    (cs : List Char) : atoms? (c :: cs) = (atoms? cs).map ((unitsOf c).map .unit ++ ·) := by
  rw [atoms?.eq_def]
  simp only [if_neg hbackslash, if_neg hclose, if_neg hhyphen]

/-! ### Seams -/

/-- Does an escape in the first text take in characters of the second? -/
def ReachesInto (as bs : List Char) : Prop :=
  ∃ before c inner, as = before ++ '\\' :: c :: inner ∧ Complete before ∧
    inner.length < (escape c (inner ++ bs)).2

theorem ReachesInto.append_left {as bs : List Char} (h : ReachesInto as bs) {front : List Char}
    (hfront : Complete front) : ReachesInto (front ++ as) bs := by
  obtain ⟨before, c, inner, rfl, hbefore, hlength⟩ := h
  exact ⟨front ++ before, c, inner, by rw [List.append_assoc], hfront.append hbefore, hlength⟩

theorem not_reachesInto_of_not_mem {as bs : List Char} (h : '\\' ∉ as) :
    ¬ ReachesInto as bs := by
  rintro ⟨before, c, inner, rfl, _⟩
  exact h (by simp)

/-- **Texts are read one after the other where no escape reaches across the seam.** -/
theorem atoms?_append {as bs : List Char} {xs : List Atom} (h : atoms? as = some xs)
    (hseam : ¬ ReachesInto as bs) : atoms? (as ++ bs) = (atoms? bs).map (xs ++ ·) := by
  fun_induction atoms? as generalizing xs with
  | case1 =>
    cases h
    simp
  | case2 => cases h
  | case3 d rest ih =>
    obtain ⟨later, hlater, rfl⟩ := Option.map_eq_some_iff.1 h
    have hle : (escape d (rest ++ bs)).2 ≤ rest.length :=
      Nat.le_of_not_lt fun hlt => hseam ⟨[], d, rest, rfl, .nil, hlt⟩
    have hescape := escape_append hle
    rw [hescape] at hle
    have hfront : Complete ('\\' :: d :: rest.take (escape d rest).2) :=
      .pair d (complete_of_forall fun _ => ne_backslash_of_mem_take_escape)
    have hinner : ¬ ReachesInto (rest.drop (escape d rest).2) bs := by
      intro hreaches
      apply hseam
      simpa using hreaches.append_left hfront
    rw [List.cons_append, List.cons_append, atoms?_pair, hescape,
      List.drop_append_of_le_length hle, ih hlater hinner, Option.map_map]
    simp only [Function.comp_def, List.append_assoc]
  | case4 => cases h
  | case5 rest _ _ ih =>
    obtain ⟨later, hlater, rfl⟩ := Option.map_eq_some_iff.1 h
    have hfront : Complete ['-'] := complete_of_all (by decide)
    have hinner : ¬ ReachesInto rest bs := fun hreaches => hseam (hreaches.append_left hfront)
    rw [List.cons_append, atoms?_hyphen, ih hlater hinner, Option.map_map]
    rfl
  | case6 c rest hbackslash hclose hhyphen ih =>
    obtain ⟨later, hlater, rfl⟩ := Option.map_eq_some_iff.1 h
    have hfront : Complete [c] := .single hbackslash id .nil
    have hinner : ¬ ReachesInto rest bs := fun hreaches => hseam (hreaches.append_left hfront)
    rw [List.cons_append, atoms?_char hbackslash hclose hhyphen, ih hlater hinner,
      Option.map_map]
    simp only [Function.comp_def, List.append_assoc]

/-- A text that is read does not end inside a pair. -/
theorem complete_of_atoms? {cs : List Char} {xs : List Atom} (h : atoms? cs = some xs) :
    Complete cs := by
  fun_induction atoms? cs generalizing xs with
  | case1 => exact .nil
  | case2 => cases h
  | case3 d rest ih =>
    obtain ⟨later, hlater, _⟩ := Option.map_eq_some_iff.1 h
    have hfront : Complete (rest.take (escape d rest).2) :=
      complete_of_forall fun _ => ne_backslash_of_mem_take_escape
    have hrest := hfront.append (ih hlater)
    rw [List.take_append_drop] at hrest
    exact .pair d hrest
  | case4 => cases h
  | case5 rest hbackslash _ ih =>
    obtain ⟨later, hlater, _⟩ := Option.map_eq_some_iff.1 h
    exact .single hbackslash id (ih hlater)
  | case6 c rest hbackslash _ _ ih =>
    obtain ⟨later, hlater, _⟩ := Option.map_eq_some_iff.1 h
    exact .single hbackslash id (ih hlater)

/-! ### Hyphens at the ends -/

/-- Is a hyphen without a backslash the last character of a text? -/
def EndsInHyphen (cs : List Char) : Prop := ∃ front, Complete front ∧ cs = front ++ ['-']

theorem not_endsInHyphen {cs : List Char} (h : cs.getLast? ≠ some '-') : ¬ EndsInHyphen cs := by
  rintro ⟨front, _, rfl⟩
  simp at h

theorem unitsOf_ne_nil (c : Char) : (unitsOf c).map Atom.unit ≠ [] := by
  unfold unitsOf
  split <;> simp

theorem hyphen_not_mem_unitsOf (c : Char) : Atom.hyphen ∉ (unitsOf c).map Atom.unit := by
  simp

/-- An escape stands for something, and never for a bare hyphen. -/
theorem atoms_of_escape (c : Char) (cs : List Char) :
    (escape c cs).1 ≠ [] ∧ Atom.hyphen ∉ (escape c cs).1 := by
  have hunits := And.intro (unitsOf_ne_nil c) (hyphen_not_mem_unitsOf c)
  unfold escape
  split
  · simp
  · split_ifs
    · simp
    · exact hunits
  · split_ifs
    · split <;> simp
    · simp
    · split
      · simp
      · exact hunits

theorem eq_nil_of_atoms? {cs : List Char} (h : atoms? cs = some []) : cs = [] := by
  unfold atoms? at h
  split at h
  · rfl
  · split_ifs at h
    · split at h
      · cases h
      · obtain ⟨later, _, heq⟩ := Option.map_eq_some_iff.1 h
        exact absurd (List.append_eq_nil_iff.1 heq).1 (atoms_of_escape _ _).1
    · simp at h
    · obtain ⟨later, _, heq⟩ := Option.map_eq_some_iff.1 h
      exact absurd (List.append_eq_nil_iff.1 heq).1 (unitsOf_ne_nil _)

theorem head?_atoms_ne_hyphen {cs : List Char} {xs : List Atom} (h : atoms? cs = some xs)
    (hhead : cs.head? ≠ some '-') : xs.head? ≠ some .hyphen := by
  have hfront : ∀ {front later : List Atom}, front ≠ [] → Atom.hyphen ∉ front →
      (front ++ later).head? ≠ some .hyphen := by
    intro front later hne hmem heq
    obtain ⟨a, as, rfl⟩ := List.exists_cons_of_ne_nil hne
    exact hmem (List.mem_of_mem_head? heq)
  unfold atoms? at h
  split at h
  · cases h
    simp
  · split_ifs at h with hbackslash hclose hhyphen
    · split at h
      · cases h
      · obtain ⟨later, _, rfl⟩ := Option.map_eq_some_iff.1 h
        exact hfront (atoms_of_escape _ _).1 (atoms_of_escape _ _).2
    · exact absurd (congrArg some hhyphen) hhead
    · obtain ⟨later, _, rfl⟩ := Option.map_eq_some_iff.1 h
      exact hfront (unitsOf_ne_nil _) (hyphen_not_mem_unitsOf _)

theorem getLast?_atoms_ne_hyphen {cs : List Char} {xs : List Atom} (h : atoms? cs = some xs)
    (hlast : ¬ EndsInHyphen cs) : xs.getLast? ≠ some .hyphen := by
  have hbehind : ∀ {front later : List Atom}, Atom.hyphen ∉ front →
      later.getLast? ≠ some .hyphen → (front ++ later).getLast? ≠ some .hyphen := by
    intro front later hmem hlater heq
    rw [List.getLast?_append, Option.or_eq_some_iff] at heq
    rcases heq with heq | ⟨_, heq⟩
    · exact hlater heq
    · exact hmem (List.mem_of_mem_getLast? heq)
  have hrest : ∀ {front rest : List Char}, Complete front →
      ¬ EndsInHyphen (front ++ rest) → ¬ EndsInHyphen rest := by
    rintro front _ hfront hno ⟨inner, hinner, rfl⟩
    exact hno ⟨front ++ inner, hfront.append hinner, (List.append_assoc ..).symm⟩
  fun_induction atoms? cs generalizing xs with
  | case1 =>
    cases h
    simp
  | case2 => cases h
  | case3 d rest ih =>
    obtain ⟨later, hlater, rfl⟩ := Option.map_eq_some_iff.1 h
    have hfront : Complete ('\\' :: d :: rest.take (escape d rest).2) :=
      .pair d (complete_of_forall fun _ => ne_backslash_of_mem_take_escape)
    refine hbehind (atoms_of_escape d rest).2 (ih hlater (hrest hfront ?_))
    simpa using hlast
  | case4 => cases h
  | case5 rest _ _ ih =>
    obtain ⟨later, hlater, rfl⟩ := Option.map_eq_some_iff.1 h
    intro heq
    cases later with
    | nil =>
      rw [eq_nil_of_atoms? hlater] at hlast
      exact hlast ⟨[], .nil, rfl⟩
    | cons a later =>
      rw [List.getLast?_cons_cons] at heq
      have hfront : Complete ['-'] := complete_of_all (by decide)
      exact ih hlater (hrest hfront hlast) heq
  | case6 c rest hbackslash _ _ ih =>
    obtain ⟨later, hlater, rfl⟩ := Option.map_eq_some_iff.1 h
    have hfront : Complete [c] := .single hbackslash id .nil
    exact hbehind (hyphen_not_mem_unitsOf c) (ih hlater (hrest hfront hlast))

end RegexText.Target
