/-
  RegexText/Proofs/Regular.lean
  =============================
  **Regular expressions of the kind that is synthesized, and their languages.**

  The units match one character each: a character, an escape, the dot, a
  shorthand or a bracket expression.  Groups only group; whether they capture
  makes no difference to what they match.

  The language of a tree is computed along the tree.  As a tree holds its
  alternatives one behind the other, the recursion yields two languages at once:
  that of the first alternative, and that of all others together.
-/
import Mathlib.Computability.Language
import RegexText.Proofs.Regular.Bracket
import RegexText.Proofs.Syntax

namespace RegexText.Regular

open Text
open scoped Computability

/-! ### Units and marks -/

/-- A regular expression for one character. -/
inductive Matcher where
  | char (c : Char)
  /-- A punctuation character after a backslash. -/
  | escaped (c : Char)
  /-- The character `00`, by its number. -/
  | nul
  | dot
  | shorthand (s : Shorthand) (negated : Bool)
  /-- A bracket expression, by the text between its brackets. -/
  | bracket (content : List Char)
deriving DecidableEq, Repr

inductive Mark where
  | capturing | nonCapturing
deriving DecidableEq, Repr

abbrev Expression := Regex Matcher Mark

/-- The characters that do not stand for themselves. -/
def metacharacters : List Char :=
  ['\\', '.', '[', ']', '(', ')', '{', '?', '*', '+', '|', '^', '$']

namespace Matcher

def spelling : Matcher → Spelling
  | .char c => .run [c]
  | .escaped c => .run ['\\', c]
  | .nul => .run ['\\', 'x', '0', '0']
  | .dot => .run ['.']
  | .shorthand s negated => .run ['\\', s.letter negated]
  | .bracket content => .bracket content

instance : Written Matcher := ⟨spelling⟩

/-- Is a unit spelled in a way that means what it says? -/
def isValid : Matcher → Bool
  | .char c => !metacharacters.contains c
  | .escaped c => isPunctuation c
  | .bracket content => (Bracket.read? content).isSome
  | _ => true

/-- Does a unit match a character? -/
def Matches (D : Dialect) (u : Matcher) (c : Char) : Prop :=
  match u with
  | .char d => c = d
  | .escaped d => c = d
  | .nul => c = '\x00'
  | .dot => D.dot c
  | .shorthand s negated => (Member.shorthand s negated).Matches D c
  | .bracket content => ∃ b ∈ Bracket.read? content, b.Matches D c

def language (D : Dialect) (u : Matcher) : Language Char :=
  {w | ∃ c, u.Matches D c ∧ w = [c]}

theorem ne_of_isValid_char {c : Char} (h : isValid (.char c) = true) :
    ∀ d ∈ metacharacters, c ≠ d := by
  rintro d hd rfl
  simp [isValid, hd] at h

theorem sound_of_isValid {u : Matcher} (h : u.isValid = true) : u.spelling.Sound := by
  have hescape : ∀ c cs, FreeOf (fun c => c = '[' ∨ c = '(' ∨ c = ')') cs →
      Spelling.Sound (.run ('\\' :: c :: cs)) := by
    intro c cs hcs
    exact ⟨List.cons_ne_nil _ _, fresh_cons.2 (by decide), .pair c hcs⟩
  cases u with
  | char c =>
    have hne := ne_of_isValid_char h
    refine ⟨List.cons_ne_nil _ _, fresh_cons.2 ?_, .single (hne _ (by decide)) ?_ .nil⟩
    · exact ⟨hne _ (by decide), hne _ (by decide), hne _ (by decide)⟩
    · rintro (hc | hc | hc)
      · exact hne _ (by decide) hc
      · exact hne _ (by decide) hc
      · exact hne _ (by decide) hc
  | escaped c => exact hescape c [] .nil
  | nul =>
    exact hescape 'x' _
      (.single (by decide) (by decide) (.single (by decide) (by decide) .nil))
  | dot =>
    exact ⟨List.cons_ne_nil _ _, fresh_cons.2 (by decide),
      .single (by decide) (by decide) .nil⟩
  | shorthand s negated => exact hescape _ [] .nil
  | bracket content =>
    obtain ⟨b, hb⟩ := Option.isSome_iff_exists.1 h
    exact Bracket.freeOf_of_read? hb

end Matcher

namespace Mark

def opening : Mark → List Char
  | .capturing => ['(']
  | .nonCapturing => ['(', '?', ':']

instance : Marks Mark where
  opener
    | .capturing => .capturing none
    | .nonCapturing => .nonCapturing ""
  opening := opening

theorem sound (g : Mark) : Marks.Sound g := by
  cases g with
  | capturing =>
    refine ⟨[], rfl, ?_⟩
    intro rest hrest
    rw [List.nil_append]
    unfold Lexeme.readGroup
    split
    · exact absurd rfl (fresh_cons.1 hrest).2.2
    · rfl
  | nonCapturing => exact ⟨['?', ':'], rfl, fun rest _ => rfl⟩

end Mark

/-! ### Well-formed expressions -/

/-- Does a quantifier give back what it took when the rest does not match? -/
def mayBacktrack : Option Quantifier → Bool
  | some ⟨_, .possessive⟩ => false
  | _ => true

/-- A selection of units and groups, with their quantifiers. -/
structure Fragment where
  units : Matcher → Option Quantifier → Prop
  groups : Mark → Option Quantifier → Prop

/-- A fragment in which the constructions of the library stay: it allows one greedy question
    mark, groups around expressions, and bracket expressions. -/
structure Fragment.Closed (F : Fragment) : Prop where
  valid : ∀ u q, F.units u q → u.isValid = true ∧ mayBacktrack q = true
  backtrack : ∀ g q, F.groups g q → mayBacktrack q = true
  optional_unit : ∀ u, F.units u none → F.units u (some ⟨.optional, .greedy⟩)
  optional_group : ∀ g, F.groups g none → F.groups g (some ⟨.optional, .greedy⟩)
  wrap : F.groups .nonCapturing none
  bracket : ∀ content, (Matcher.bracket content).isValid = true →
    F.units (.bracket content) none

def Fragment.full : Fragment where
  units u q := u.isValid = true ∧ mayBacktrack q = true
  groups _ q := mayBacktrack q = true

/-- Does an expression use a fragment only? -/
def Within (F : Fragment) (r : Expression) : Prop := r.All F.units F.groups

abbrev WellFormed (r : Expression) : Prop := Within .full r

theorem Fragment.full_closed : Fragment.full.Closed where
  valid _ _ h := h
  backtrack _ _ h := h
  optional_unit _ h := ⟨h.1, rfl⟩
  optional_group _ _ := rfl
  wrap := rfl
  bracket _ h := ⟨h, rfl⟩

theorem Within.wellFormed {F : Fragment} (hF : F.Closed) {r : Expression} (h : Within F r) :
    WellFormed r :=
  Regex.All.imp hF.valid hF.backtrack h

theorem WellFormed.sound {r : Expression} (h : WellFormed r) : r.Sound :=
  Regex.All.imp (fun _ _ hu => Matcher.sound_of_isValid hu.1) (fun g _ _ => Mark.sound g) h

/-! ### Languages -/

/-- What a quantifier makes of a language. -/
def repeated : Option Quantifier → Language Char → Language Char
  | none, l => l
  | some ⟨.star, _⟩, l => l∗
  | some ⟨.plus, _⟩, l => l * l∗
  | some ⟨.optional, _⟩, l => 1 + l

/-- The language of the first alternative, and that of all others. -/
def languages (D : Dialect) : Expression → Language Char × Language Char
  | .done => (1, 0)
  | .unit u q next =>
    (repeated q (u.language D) * (languages D next).1, (languages D next).2)
  | .group _ body q next =>
    (repeated q ((languages D body).1 + (languages D body).2) * (languages D next).1,
      (languages D next).2)
  | .bar next => (1, (languages D next).1 + (languages D next).2)

/-- The texts that an expression matches from end to end. -/
def language (D : Dialect) (r : Expression) : Language Char :=
  (languages D r).1 + (languages D r).2

variable {D : Dialect}

@[simp] theorem language_done : language D .done = 1 := add_zero 1

theorem languages_append {r : Expression} (hr : r.IsSequence) (s : Expression) :
    languages D (r.append s) =
      ((languages D r).1 * (languages D s).1, (languages D s).2) := by
  induction r with
  | done => simp [Regex.append, languages]
  | unit u q next ih => simp [Regex.append, languages, ih hr, mul_assoc]
  | group g body q next _ ih => simp [Regex.append, languages, ih hr, mul_assoc]
  | bar next ih => exact hr.elim

theorem languages_of_isSequence {r : Expression} (hr : r.IsSequence) :
    languages D r = (language D r, 0) := by
  have happend := languages_append (D := D) hr .done
  rw [Regex.append_done] at happend
  have hothers : (languages D r).2 = 0 := by rw [happend]; rfl
  rw [language, hothers, add_zero]
  exact Prod.ext rfl hothers

theorem language_append {r s : Expression} (hr : r.IsSequence) (hs : s.IsSequence) :
    language D (r.append s) = language D r * language D s := by
  rw [language, languages_append hr, languages_of_isSequence hr, languages_of_isSequence hs,
    add_zero]

theorem language_append_bar (r s : Expression) :
    language D (r.append (.bar s)) = language D r + language D s := by
  have hlanguages : languages D (r.append (.bar s)) =
      ((languages D r).1, (languages D r).2 + language D s) := by
    induction r with
    | done => simp [Regex.append, languages, language]
    | unit u q next ih => simp [Regex.append, languages, ih]
    | group g body q next _ ih => simp [Regex.append, languages, ih]
    | bar next ih => simp only [Regex.append, languages, ih, add_assoc]
  rw [language, hlanguages]
  exact (add_assoc _ _ _).symm

theorem mem_language_alternatives {rs : List Expression} (hne : rs ≠ []) {w : List Char} :
    w ∈ language D (Regex.alternatives rs) ↔ ∃ r ∈ rs, w ∈ language D r := by
  fun_induction Regex.alternatives rs with
  | case1 => exact absurd rfl hne
  | case2 r => simp
  | case3 r s rs ih =>
    rw [language_append_bar, Language.mem_add, ih (List.cons_ne_nil _ _)]
    simp

@[simp] theorem language_unit (u : Matcher) (q : Option Quantifier) :
    language D (.unit u q .done) = repeated q (u.language D) := by
  simp [language, languages]

@[simp] theorem language_group (g : Mark) (body : Expression) (q : Option Quantifier) :
    language D (.group g body q .done) = repeated q (language D body) := by
  simp [language, languages]

end RegexText.Regular
