/-
  RegexText/Proofs/Syntax.lean
  ============================
  **Regular expressions as trees, and the text of a tree.**

  A regular expression is an alternation of sequences of units and groups, each
  with a quantifier or without one.  What the units are, and which marks open a
  group, differs from dialect to dialect, so both are parameters: a type of
  units knows how its members are spelled, and a type of marks how they open a
  group.

  Trees are kept in the order in which they are written.  Each node holds what
  comes next beside what it encloses, and a bar stands in its place between two
  alternatives:

      unit a (bar (group g (unit b done) none done))     is     a|(b)

  Every tree has one text this way, no parenthesis is needed to tell a sequence
  of sequences from a sequence, and induction on a tree needs no second
  induction on the list of its children.
-/
import RegexText.Lexeme
import RegexText.Proofs.Text.Unescaped

namespace RegexText

open Text

/-! ### Quantifiers -/

/-- How often an item may match. -/
inductive Repetition where
  | star | plus | optional
deriving DecidableEq, Repr

/-- Which of the ways to match comes first, and whether the others are tried. -/
inductive Manner where
  | greedy | lazy | possessive
deriving DecidableEq, Repr

/-- A quantifier, as in `a*`, `a+?` or `a?+`. -/
structure Quantifier where
  repetition : Repetition
  manner : Manner
deriving DecidableEq, Repr

def Repetition.char : Repetition → Char
  | .star => '*'
  | .plus => '+'
  | .optional => '?'

def Manner.text : Manner → List Char
  | .greedy => []
  | .lazy => ['?']
  | .possessive => ['+']

namespace Quantifier

def text : Option Quantifier → List Char
  | none => []
  | some q => q.repetition.char :: q.manner.text

/-- The characters that the tokens of brackets and closing parentheses take up. -/
def absorbed : Option Quantifier → List Char
  | none => []
  | some ⟨.optional, _⟩ => []
  | some ⟨r, .possessive⟩ => [r.char, '+']
  | some ⟨r, _⟩ => [r.char]

/-- The characters that are left behind such a token. -/
def remaining : Option Quantifier → List Char
  | none => []
  | some ⟨.optional, m⟩ => '?' :: m.text
  | some ⟨_, .lazy⟩ => ['?']
  | some _ => []

theorem absorbed_append_remaining (q : Option Quantifier) :
    absorbed q ++ remaining q = text q := by
  cases q with
  | none => rfl
  | some q =>
    obtain ⟨r, m⟩ := q
    cases r <;> cases m <;> rfl

@[simp] theorem text_eq_nil {q : Option Quantifier} : text q = [] ↔ q = none := by
  cases q <;> simp [text]

end Quantifier

/-- May a text follow an item without being taken for its quantifier? -/
def Fresh (cs : List Char) : Prop := ∀ c ∈ cs.head?, c ≠ '*' ∧ c ≠ '+' ∧ c ≠ '?'

theorem fresh_nil : Fresh [] := by simp [Fresh]

theorem fresh_cons {c : Char} {cs : List Char} :
    Fresh (c :: cs) ↔ c ≠ '*' ∧ c ≠ '+' ∧ c ≠ '?' := by
  simp [Fresh]

theorem Fresh.append_left {as : List Char} (has : Fresh as) (hne : as ≠ []) (bs : List Char) :
    Fresh (as ++ bs) := by
  cases as with
  | nil => exact absurd rfl hne
  | cons a as => exact fresh_cons.2 (fresh_cons.1 has)

/-! ### Units and marks -/

/-- A unit is written as a run of characters and escapes, or between brackets. -/
inductive Spelling where
  | run (text : List Char)
  | bracket (content : List Char)
deriving DecidableEq, Repr

namespace Spelling

def text : Spelling → List Char
  | .run text => text
  | .bracket content => '[' :: content ++ [']']

/-- Does a unit spelled like this stand by itself, wherever it is put? -/
def Sound : Spelling → Prop
  | .run text => text ≠ [] ∧ Fresh text ∧ FreeOf (fun c => c = '[' ∨ c = '(' ∨ c = ')') text
  | .bracket content => FreeOf (· = ']') content

theorem Sound.text_ne_nil {s : Spelling} (h : s.Sound) : s.text ≠ [] := by
  cases s with
  | run text => exact h.1
  | bracket content => simp [text]

theorem Sound.fresh {s : Spelling} (h : s.Sound) : Fresh s.text := by
  cases s with
  | run text => exact h.2.1
  | bracket content => exact fresh_cons.2 (by decide)

end Spelling

class Written (U : Type) where
  spelling : U → Spelling

class Marks (G : Type) where
  opener : G → Opener
  opening : G → List Char

/-- Does a mark open its group wherever it is put? -/
def Marks.Sound {G : Type} [Marks G] (g : G) : Prop :=
  ∃ inner, opening g = '(' :: inner ∧ ∀ rest, Fresh rest →
    Lexeme.readGroup (inner ++ rest) = (.opener (opener g) (opening g), rest)

/-! ### Trees -/

/-- A regular expression, written from left to right. -/
inductive Regex (U G : Type) where
  /-- The end of the expression or of the enclosing group. -/
  | done
  | unit (u : U) (q : Option Quantifier) (next : Regex U G)
  | group (g : G) (body : Regex U G) (q : Option Quantifier) (next : Regex U G)
  /-- The end of an alternative that is not the last one. -/
  | bar (next : Regex U G)
deriving DecidableEq, Repr

namespace Regex

variable {U G : Type}

/-- Do all units and all marks of a tree, with their quantifiers, satisfy two
    conditions? -/
def All (onUnit : U → Option Quantifier → Prop) (onMark : G → Option Quantifier → Prop) :
    Regex U G → Prop
  | .done => True
  | .unit u q next => onUnit u q ∧ next.All onUnit onMark
  | .group g body q next => onMark g q ∧ body.All onUnit onMark ∧ next.All onUnit onMark
  | .bar next => next.All onUnit onMark

theorem All.imp {onUnit onUnit' : U → Option Quantifier → Prop}
    {onMark onMark' : G → Option Quantifier → Prop}
    (hunit : ∀ u q, onUnit u q → onUnit' u q) (hmark : ∀ g q, onMark g q → onMark' g q)
    {r : Regex U G} (h : r.All onUnit onMark) : r.All onUnit' onMark' := by
  induction r with
  | done => trivial
  | unit u q next ih => exact ⟨hunit u q h.1, ih h.2⟩
  | group g body q next ihb ihn => exact ⟨hmark g q h.1, ihb h.2.1, ihn h.2.2⟩
  | bar next ih => exact ih h

/-- Change the units and the marks, and nothing else. -/
def map {U' G' : Type} (f : U → U') (g : G → G') : Regex U G → Regex U' G'
  | .done => .done
  | .unit u q next => .unit (f u) q (next.map f g)
  | .group m body q next => .group (g m) (body.map f g) q (next.map f g)
  | .bar next => .bar (next.map f g)

theorem All.map {U' G' : Type} {f : U → U'} {g : G → G'} {onUnit : U → Option Quantifier → Prop}
    {onMark : G → Option Quantifier → Prop} {onUnit' : U' → Option Quantifier → Prop}
    {onMark' : G' → Option Quantifier → Prop} (hunit : ∀ u q, onUnit u q → onUnit' (f u) q)
    (hmark : ∀ m q, onMark m q → onMark' (g m) q) {r : Regex U G} (h : r.All onUnit onMark) :
    (r.map f g).All onUnit' onMark' := by
  induction r with
  | done => trivial
  | unit u q next ih => exact ⟨hunit u q h.1, ih h.2⟩
  | group m body q next ihb ihn => exact ⟨hmark m q h.1, ihb h.2.1, ihn h.2.2⟩
  | bar next ih => exact ih h

def depth : Regex U G → Nat
  | .done => 0
  | .unit _ _ next => next.depth
  | .group _ body _ next => max (body.depth + 1) next.depth
  | .bar next => next.depth

def IsSequence : Regex U G → Prop
  | .done => True
  | .unit _ _ next => next.IsSequence
  | .group _ _ _ next => next.IsSequence
  | .bar _ => False

def append : Regex U G → Regex U G → Regex U G
  | .done, s => s
  | .unit u q next, s => .unit u q (next.append s)
  | .group g body q next, s => .group g body q (next.append s)
  | .bar next, s => .bar (next.append s)

@[simp] theorem append_done (r : Regex U G) : r.append .done = r := by
  induction r with
  | done => rfl
  | unit u q next ih => rw [append, ih]
  | group g body q next _ ih => rw [append, ih]
  | bar next ih => rw [append, ih]

theorem append_eq_done_iff {r s : Regex U G} : r.append s = .done ↔ r = .done ∧ s = .done := by
  cases r with
  | done => simp [append]
  | _ => simp [append]

theorem All.append {onUnit : U → Option Quantifier → Prop}
    {onMark : G → Option Quantifier → Prop} {r s : Regex U G} (hr : r.All onUnit onMark)
    (hs : s.All onUnit onMark) : (r.append s).All onUnit onMark := by
  induction r with
  | done => exact hs
  | unit u q next ih => exact ⟨hr.1, ih hr.2⟩
  | group g body q next _ ih => exact ⟨hr.1, hr.2.1, ih hr.2.2⟩
  | bar next ih => exact ih hr

theorem IsSequence.append {r s : Regex U G} (hr : r.IsSequence) (hs : s.IsSequence) :
    (r.append s).IsSequence := by
  induction r with
  | done => exact hs
  | unit u q next ih => exact ih hr
  | group g body q next _ ih => exact ih hr
  | bar next ih => exact hr.elim

def alternatives : List (Regex U G) → Regex U G
  | [] => .done
  | [r] => r
  | r :: s :: rs => r.append (.bar (alternatives (s :: rs)))

theorem all_alternatives {onUnit : U → Option Quantifier → Prop}
    {onMark : G → Option Quantifier → Prop} {rs : List (Regex U G)}
    (h : ∀ r ∈ rs, r.All onUnit onMark) : (alternatives rs).All onUnit onMark := by
  fun_induction alternatives rs with
  | case1 => trivial
  | case2 r => exact h r (List.mem_singleton_self r)
  | case3 r s rs ih =>
    exact (h r (by simp)).append (ih fun t ht => h t (List.mem_cons_of_mem _ ht))

/-! ### The text of a tree -/

section Text

variable [Written U] [Marks G]

def text : Regex U G → List Char
  | .done => []
  | .unit u q next => (Written.spelling u).text ++ Quantifier.text q ++ next.text
  | .group g body q next =>
    Marks.opening g ++ body.text ++ ')' :: Quantifier.text q ++ next.text
  | .bar next => '|' :: next.text

theorem text_append (r s : Regex U G) : (r.append s).text = r.text ++ s.text := by
  induction r with
  | done => rfl
  | unit u q next ih => simp [append, text, ih]
  | group g body q next _ ih => simp [append, text, ih]
  | bar next ih => simp [append, text, ih]

theorem text_alternatives (rs : List (Regex U G)) :
    (alternatives rs).text = ['|'].intercalate (rs.map text) := by
  fun_induction alternatives rs with
  | case1 => rfl
  | case2 r => simp [List.intercalate]
  | case3 r s rs ih =>
    rw [text_append, text, ih]
    simp [List.intercalate]

/-- Can each unit and each mark of a tree be told from what surrounds it? -/
def Sound (r : Regex U G) : Prop :=
  r.All (fun u _ => (Written.spelling u).Sound) (fun g _ => Marks.Sound g)

theorem Sound.fresh {r : Regex U G} (h : r.Sound) {rest : List Char} (hrest : Fresh rest) :
    Fresh (r.text ++ rest) := by
  cases r with
  | done => exact hrest
  | unit u q next =>
    have hunit : (Written.spelling u).Sound := h.1
    simp only [text, List.append_assoc]
    exact hunit.fresh.append_left hunit.text_ne_nil _
  | group g body q next =>
    obtain ⟨inner, hopening, _⟩ := h.1
    simp only [text, hopening, List.cons_append]
    exact fresh_cons.2 (by decide)
  | bar next => exact fresh_cons.2 (by decide)

theorem Sound.eq_done {r : Regex U G} (h : r.Sound) (htext : r.text = []) : r = .done := by
  cases r with
  | done => rfl
  | unit u q next =>
    have hunit : (Written.spelling u).Sound := h.1
    simp [text, hunit.text_ne_nil] at htext
  | group g body q next => simp [text] at htext
  | bar next => simp [text] at htext

end Text

end Regex

end RegexText
