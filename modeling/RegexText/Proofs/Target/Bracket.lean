/-
  RegexText/Proofs/Target/Bracket.lean
  ====================================
  **Bracket expressions of the target dialect.**

  A hyphen between two units makes a range of them.  Next to a shorthand it is a
  unit like any other, and so it is at either end and behind a range.  Ranges are
  found from the left: what is an end of one range is no end of another.

  So a text that begins with a hyphen may take hold of the unit before it, unless
  that belongs to a range already.  Where no hyphen stands at a seam, and where a
  range ends at it, the items of two texts are those of one and then those of the
  other.
-/
import Mathlib.Data.List.Basic
import RegexText.Proofs.Target.Escape

namespace RegexText.Target

open Regular (Shorthand)

/-! ### Items -/

/-- What the shorthands match. -/
abbrev Meaning := Shorthand → Nat → Prop

namespace Atom

/-- The unit that an atom stands for, if it is a single one. -/
def unit? : Atom → Option Nat
  | .unit n => some n
  | .hyphen => some '-'.toNat
  | .shorthand _ _ => none

/-- Does an atom match a code unit? -/
def Matches (M : Meaning) (a : Atom) (u : Nat) : Prop :=
  match a with
  | .unit n => u = n
  | .hyphen => u = '-'.toNat
  | .shorthand s negated => if negated then ¬ M s u else M s u

end Atom

inductive Item where
  | atom (a : Atom)
  | range (first last : Nat)
deriving DecidableEq, Repr

def Item.Matches (M : Meaning) (item : Item) (u : Nat) : Prop :=
  match item with
  | .atom a => a.Matches M u
  | .range first last => first ≤ u ∧ u ≤ last

/-- Find the ranges among some atoms.  A range of no units is an error. -/
def items? : List Atom → Option (List Item)
  | [] => some []
  | a :: .hyphen :: b :: as =>
    match a.unit?, b.unit? with
    | some first, some last =>
      if first ≤ last then (items? as).map (.range first last :: ·) else none
    | _, _ => (items? as).map ([.atom a, .atom .hyphen, .atom b] ++ ·)
  | a :: as => (items? as).map (.atom a :: ·)

/-- An atom in front of no range is an item. -/
theorem items?_cons {a : Atom} {as : List Atom} (h : ∀ b bs, as ≠ .hyphen :: b :: bs) :
    items? (a :: as) = (items? as).map (.atom a :: ·) := by
  rw [items?.eq_def]
  split
  · cases ‹a :: as = []›
  · rename_i heq
    cases heq
    exact absurd rfl (h _ _)
  · rename_i heq
    cases heq
    rfl

theorem items?_hyphen_of_unit {a b : Atom} {first last : Nat} (ha : a.unit? = some first)
    (hb : b.unit? = some last) (hle : first ≤ last) (as : List Atom) :
    items? (a :: .hyphen :: b :: as) = (items? as).map (.range first last :: ·) := by
  rw [items?, ha, hb]
  exact if_pos hle

theorem items?_hyphen_of_not_unit {a b : Atom}
    (h : ∀ first last, a.unit? = some first → b.unit? = some last → False) (as : List Atom) :
    items? (a :: .hyphen :: b :: as) =
      (items? as).map ([.atom a, .atom .hyphen, .atom b] ++ ·) := by
  rw [items?]
  split
  · exact absurd (h _ _ ‹_› ‹_›) not_false
  · rfl

theorem eq_nil_of_items? {as : List Atom} (h : items? as = some []) : as = [] := by
  fun_induction items? as with
  | case1 => rfl
  | case2 => simp at h
  | case3 => cases h
  | case4 => simp at h
  | case5 => simp at h

/-! ### Seams -/

/-- Is there no hyphen in front, unless it is all there is?  Only then does nothing in front of
    the atoms become the first end of a range. -/
def NoOperator (as : List Atom) : Prop := as.head? = some .hyphen → as = [.hyphen]

theorem noOperator_nil : NoOperator [] := by
  intro hhead
  cases hhead

theorem NoOperator.ne {as : List Atom} (h : NoOperator as) (b : Atom) (bs : List Atom) :
    as ≠ .hyphen :: b :: bs := by
  rintro rfl
  cases h rfl

/-- Is the last of some items a range? -/
def EndsInRange (xs : List Item) : Prop := ∃ first last, xs.getLast? = some (.range first last)

theorem EndsInRange.of_append (xs : List Item) {ys : List Item} (h : EndsInRange (xs ++ ys))
    (hne : ys ≠ []) : EndsInRange ys := by
  obtain ⟨first, last, hlast⟩ := h
  rw [List.getLast?_append_of_ne_nil _ hne] at hlast
  exact ⟨first, last, hlast⟩

theorem not_endsInRange_singleton (a : Atom) : ¬ EndsInRange [.atom a] := by
  rintro ⟨first, last, hlast⟩
  cases hlast

/-- Do the items of two texts follow each other?  They do where a range ends at the seam, and
    where no hyphen stands at it. -/
def Parted (as : List Atom) (xs : List Item) (bs : List Atom) : Prop :=
  EndsInRange xs ∨ (as.getLast? ≠ some .hyphen ∧ NoOperator bs)

theorem Parted.of_append {as as' bs : List Atom} {xs ys : List Item}
    (h : Parted (as' ++ as) (xs ++ ys) bs) (has : as ≠ []) (hys : ys ≠ []) :
    Parted as ys bs := by
  rcases h with hrange | ⟨hlast, hbs⟩
  · exact .inl (.of_append xs hrange hys)
  · rw [List.getLast?_append_of_ne_nil _ has] at hlast
    exact .inr ⟨hlast, hbs⟩

/-- **Items are found one after the other where they are parted.** -/
theorem items?_append {as bs : List Atom} {xs : List Item} (h : items? as = some xs)
    (hparted : Parted as xs bs) : items? (as ++ bs) = (items? bs).map (xs ++ ·) := by
  -- what is left behind some items is parted from `bs`, unless nothing is left
  have hrest : ∀ (front : List Atom) (first : List Item) {rest : List Atom} {later : List Item},
      items? rest = some later → Parted (front ++ rest) (first ++ later) bs →
      (∀ {ys}, items? rest = some ys → Parted rest ys bs →
        items? (rest ++ bs) = (items? bs).map (ys ++ ·)) →
      items? (rest ++ bs) = (items? bs).map (later ++ ·) := by
    intro front first rest later hlater hparted ih
    by_cases hnil : later = []
    · rw [hnil] at hlater ⊢
      rw [eq_nil_of_items? hlater]
      simp
    · apply ih hlater (hparted.of_append _ hnil)
      rintro rfl
      cases hlater
      exact hnil rfl
  fun_induction items? as generalizing xs with
  | case1 =>
    cases h
    simp
  | case2 a b as first last hb ha hle ih =>
    obtain ⟨later, hlater, rfl⟩ := Option.map_eq_some_iff.1 h
    have hlater := hrest [a, .hyphen, b] [_] hlater hparted ih
    simp only [List.cons_append, items?_hyphen_of_unit ha hb hle, hlater, Option.map_map]
    rfl
  | case3 => cases h
  | case4 a b as hno ih =>
    obtain ⟨later, hlater, rfl⟩ := Option.map_eq_some_iff.1 h
    have hlater := hrest [a, .hyphen, b] _ hlater hparted ih
    simp only [List.cons_append, items?_hyphen_of_not_unit hno, hlater, Option.map_map]
    rfl
  | case5 a as hno ih =>
    obtain ⟨later, hlater, rfl⟩ := Option.map_eq_some_iff.1 h
    have hnext := hrest [a] [_] hlater hparted ih
    have hfirst : ∀ b bs', as ++ bs ≠ .hyphen :: b :: bs' := by
      intro b bs' heq
      match as, hno, hlater with
      | [], _, hlater =>
        cases hlater
        rcases hparted with hrange | ⟨_, hbs⟩
        · exact not_endsInRange_singleton a hrange
        · exact hbs.ne b bs' heq
      | [c], _, hlater =>
        obtain ⟨rfl, _⟩ := List.cons.inj heq
        cases hlater
        rcases hparted with hrange | ⟨hlast, _⟩
        · exact not_endsInRange_singleton _ (.of_append [_] hrange (List.cons_ne_nil _ _))
        · exact hlast rfl
      | c :: d :: as, hno, _ =>
        obtain ⟨rfl, _⟩ := List.cons.inj heq
        exact hno d as rfl
    rw [List.cons_append, items?_cons hfirst, hnext, Option.map_map]
    rfl

/-! ### Contents and classes -/

/-- The items of a text between brackets, without the caret that may stand in front. -/
def contents? (cs : List Char) : Option (List Item) := (atoms? cs).bind items?

theorem contents?_char {c : Char} (hplane : c.toNat < 0x10000) (hbackslash : c ≠ '\\')
    (hclose : c ≠ ']') (hhyphen : c ≠ '-') : contents? [c] = some [.atom (.unit c.toNat)] := by
  rw [contents?, atoms?_char hbackslash hclose hhyphen, atoms?_nil, unitsOf, if_pos hplane]
  rfl

/-- A bracket expression: it matches what one of its items matches, or, negated, what
    none of them does. -/
structure Class where
  negated : Bool
  items : List Item
deriving DecidableEq, Repr

namespace Class

def Matches (M : Meaning) (b : Class) (u : Nat) : Prop :=
  if b.negated then ∀ item ∈ b.items, ¬ item.Matches M u else ∃ item ∈ b.items, item.Matches M u

/-- Read what stands between brackets. -/
def read? : List Char → Option Class
  | '^' :: cs => (contents? cs).map (⟨true, ·⟩)
  | cs => (contents? cs).map (⟨false, ·⟩)

/-- A caret negates a class if it is the first character of its text. -/
theorem read?_caret {negated : Bool} {cs : List Char}
    (h : negated = false → cs.head? ≠ some '^') :
    read? ((if negated then ['^'] else []) ++ cs) = (contents? cs).map (⟨negated, ·⟩) := by
  cases negated with
  | true => rfl
  | false =>
    simp only [Bool.false_eq_true, if_false, List.nil_append]
    unfold read?
    split
    · exact absurd rfl (h rfl)
    · rfl

theorem matches_iff {M : Meaning} {negated : Bool} {items : List Item} {u : Nat} :
    Matches M ⟨negated, items⟩ u ↔ (negated = false ↔ ∃ item ∈ items, item.Matches M u) := by
  cases negated with
  | true => simp [Matches]
  | false => simp [Matches]

end Class

end RegexText.Target
