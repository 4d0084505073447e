/-
  RegexText/Proofs/Regular/Bracket.lean
  =====================================
  **What the text between two brackets means.**

  The text is cut into members: characters, escapes and hyphens.  A hyphen
  between two characters makes a range of them; at either end, and next to a
  shorthand, it is a character like any other.  A caret in front negates.

  The reading is a cautious one.  An unescaped opening bracket is a character,
  but where it might open a POSIX class, as in `[[:alpha:]]`, the text is not
  read at all; neither is an escape of a letter other than the shorthands and
  `\x00`, a range of no characters, or an empty text.  What is read here is read
  alike in every dialect that reads characters.  A dialect that reads code units
  agrees where all characters have one unit; a character of two is two members to
  it.

  Which characters the dot and the shorthands match does depend on the dialect,
  so it is a parameter of the meaning.
-/
import Mathlib.Tactic.SplitIfs
import RegexText.Proofs.Text.Unescaped

namespace RegexText.Regular

open Text

/-! ### Shorthands -/

/-- The shorthands without their case: `\d`, `\w` and `\s`. -/
inductive Shorthand where
  | digit | word | space
deriving DecidableEq, Repr

/-- The letter of a shorthand, which is a capital one for the complement. -/
def Shorthand.letter : Shorthand → Bool → Char
  | .digit, negated => if negated then 'D' else 'd'
  | .word, negated => if negated then 'W' else 'w'
  | .space, negated => if negated then 'S' else 's'

/-- The shorthand of a letter, and whether the letter negates it. -/
def Shorthand.ofLetter? (c : Char) : Option (Shorthand × Bool) :=
  if c = 'd' then some (.digit, false)
  else if c = 'D' then some (.digit, true)
  else if c = 'w' then some (.word, false)
  else if c = 'W' then some (.word, true)
  else if c = 's' then some (.space, false)
  else if c = 'S' then some (.space, true)
  else none

theorem Shorthand.ofLetter?_letter (s : Shorthand) (negated : Bool) :
    ofLetter? (s.letter negated) = some (s, negated) := by
  cases s <;> cases negated <;> decide

theorem Shorthand.letter_of_ofLetter? {c : Char} {s : Shorthand} {negated : Bool}
    (h : ofLetter? c = some (s, negated)) : s.letter negated = c := by
  unfold ofLetter? at h
  split_ifs at h with hd hD hw hW hs hS <;> cases h <;> exact Eq.symm ‹_›

/-- What the dot and the shorthands match in a dialect. -/
structure Dialect where
  dot : Char → Prop
  shorthand : Shorthand → Char → Prop

/-- The printable ASCII characters that are neither letters nor digits, nor the space: a
    backslash before one of them takes away its meaning. -/
def isPunctuation (c : Char) : Bool :=
  ('!' ≤ c && c ≤ '/') || (':' ≤ c && c ≤ '@') || ('[' ≤ c && c ≤ '`') || ('{' ≤ c && c ≤ '~')

theorem ofLetter?_of_isPunctuation {c : Char} (h : isPunctuation c = true) :
    Shorthand.ofLetter? c = none := by
  unfold Shorthand.ofLetter?
  split_ifs with hd hD hw hW hs hS <;> first | rfl | (subst_vars; revert h; decide)

/-! ### Members -/

/-- What stands between brackets, one after the other. -/
inductive Member where
  | single (c : Char)
  /-- A hyphen without a backslash. -/
  | hyphen
  | shorthand (s : Shorthand) (negated : Bool)
deriving DecidableEq, Repr

namespace Member

def ofChar (c : Char) : Member := if c = '-' then .hyphen else .single c

def ofEscape? (c : Char) : Option Member :=
  if isPunctuation c then some (.single c)
  else (Shorthand.ofLetter? c).map fun (s, negated) => .shorthand s negated

/-- The character that a member stands for, if it is a single one. -/
def char? : Member → Option Char
  | .single c => some c
  | .hyphen => some '-'
  | .shorthand _ _ => none

/-- Does a member match a character? -/
def Matches (D : Dialect) (m : Member) (c : Char) : Prop :=
  match m with
  | .single d => c = d
  | .hyphen => c = '-'
  | .shorthand s negated => if negated then ¬ D.shorthand s c else D.shorthand s c

end Member

/-- Do some characters make an opening bracket before them the opening of a POSIX class? -/
def opensPosix (cs : List Char) : Bool :=
  match cs.head? with
  | some c => c == ':' || c == '.' || c == '='
  | none => false

/-- Cut a text between brackets into members. -/
def members? : List Char → Option (List Member)
  | [] => some []
  | c :: cs =>
    if c = '\\' then
      match cs with
      | [] => none
      | 'x' :: '0' :: '0' :: rest => (members? rest).map (.single '\x00' :: ·)
      | d :: rest => (Member.ofEscape? d).bind fun m => (members? rest).map (m :: ·)
    else if c = ']' ∨ (c = '[' ∧ opensPosix cs) then none
    else (members? cs).map (Member.ofChar c :: ·)

theorem members?_char {c : Char} {cs : List Char} (hc : c ≠ '\\' ∧ c ≠ ']')
    (hposix : c = '[' → opensPosix cs = false) :
    members? (c :: cs) = (members? cs).map (Member.ofChar c :: ·) := by
  have hplain : ¬ (c = ']' ∨ (c = '[' ∧ opensPosix cs = true)) := by
    rintro (h | ⟨h, hopens⟩)
    · exact hc.2 h
    · rw [hposix h] at hopens
      cases hopens
  rw [members?.eq_def]
  simp only [if_neg hc.1, if_neg hplain]

theorem members?_escape {c : Char} {m : Member} (hm : Member.ofEscape? c = some m)
    (cs : List Char) : members? ('\\' :: c :: cs) = (members? cs).map (m :: ·) := by
  have hx : c ≠ 'x' := by
    rintro rfl
    cases hm
  rw [members?.eq_def]
  simp only [if_true]
  split
  · simp_all
  · simp_all
  · rename_i heq
    cases heq
    rw [hm]
    rfl

/-- A text that is cut into members ends at no unescaped bracket. -/
theorem freeOf_of_members? {cs : List Char} {ms : List Member} (h : members? cs = some ms) :
    FreeOf (· = ']') cs := by
  fun_induction members? cs generalizing ms with
  | case1 => exact .nil
  | case2 => cases h
  | case3 rest ih =>
    obtain ⟨later, hlater, _⟩ := Option.map_eq_some_iff.1 h
    have hzero : ∀ {cs : List Char}, FreeOf (· = ']') cs → FreeOf (· = ']') ('0' :: cs) :=
      fun hcs => .single (by decide) (by decide) hcs
    exact .pair 'x' (hzero (hzero (ih hlater)))
  | case4 d rest _ ih =>
    obtain ⟨m, _, hm⟩ := Option.bind_eq_some_iff.1 h
    obtain ⟨later, hlater, _⟩ := Option.map_eq_some_iff.1 hm
    exact .pair d (ih hlater)
  | case5 => cases h
  | case6 c cs hc hplain ih =>
    obtain ⟨later, hlater, _⟩ := Option.map_eq_some_iff.1 h
    exact .single hc (fun hbracket => hplain (.inl hbracket)) (ih hlater)

/-! ### Ranges -/

inductive Item where
  | member (m : Member)
  | range (first last : Char)
deriving DecidableEq, Repr

def Item.Matches (D : Dialect) (item : Item) (c : Char) : Prop :=
  match item with
  | .member m => m.Matches D c
  | .range first last => first ≤ c ∧ c ≤ last

/-- Find the ranges among some members. -/
def items? : List Member → Option (List Item)
  | [] => some []
  | a :: .hyphen :: b :: ms =>
    match a.char?, b.char? with
    | some first, some last =>
      if first ≤ last then (items? ms).map (.range first last :: ·) else none
    | _, _ => (items? ms).map ([.member a, .member .hyphen, .member b] ++ ·)
  | a :: ms => (items? ms).map (.member a :: ·)

/-- Without a hyphen behind its first member, a bracket expression has no range. -/
theorem items?_of_forall_ne_hyphen {a : Member} {ms : List Member}
    (h : ∀ m ∈ ms, m ≠ .hyphen) : items? (a :: ms) = some ((a :: ms).map .member) := by
  induction ms generalizing a with
  | nil => rfl
  | cons b ms ih =>
    have hb : b ≠ .hyphen := h b (List.mem_cons_self ..)
    have hlater := ih (a := b) fun m hm => h m (List.mem_cons_of_mem _ hm)
    rw [items?.eq_def]
    split
    · simp_all
    · simp_all
    · rename_i heq
      cases heq
      rw [hlater]
      rfl

/-! ### Bracket expressions -/

/-- A bracket expression: it matches what one of its items matches, or, negated, what
    none of them does. -/
structure Bracket where
  negated : Bool
  items : List Item
deriving DecidableEq, Repr

namespace Bracket

def Matches (D : Dialect) (b : Bracket) (c : Char) : Prop :=
  if b.negated then ∀ item ∈ b.items, ¬ item.Matches D c
  else ∃ item ∈ b.items, item.Matches D c

def readItems? (negated : Bool) (cs : List Char) : Option Bracket :=
  if cs.isEmpty then none
  else (members? cs).bind fun ms => (items? ms).map fun items => ⟨negated, items⟩

/-- Read what stands between brackets. -/
def read? : List Char → Option Bracket
  | '^' :: cs => readItems? true cs
  | cs => readItems? false cs

theorem freeOf_of_readItems? {negated : Bool} {cs : List Char} {b : Bracket}
    (h : readItems? negated cs = some b) : FreeOf (· = ']') cs := by
  unfold readItems? at h
  split_ifs at h
  obtain ⟨ms, hms, _⟩ := Option.bind_eq_some_iff.1 h
  exact freeOf_of_members? hms

/-- A readable text between brackets ends at its own bracket. -/
theorem freeOf_of_read? {cs : List Char} {b : Bracket} (h : read? cs = some b) :
    FreeOf (· = ']') cs := by
  unfold read? at h
  split at h
  · exact .single (by decide) (by decide) (freeOf_of_readItems? h)
  · exact freeOf_of_readItems? h

theorem read?_of_head_ne {cs : List Char} (h : cs.head? ≠ some '^') :
    read? cs = readItems? false cs := by
  unfold read?
  split
  · simp at h
  · rfl

end Bracket

end RegexText.Regular
