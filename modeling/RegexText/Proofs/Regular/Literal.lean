/-
  RegexText/Proofs/Regular/Literal.lean
  =====================================
  **Literal characters, and how often they come.**

  A literal stands for one symbol: it is a character that is no sign of the
  syntax, or such a sign behind a backslash.  Its quantifier is one of the three
  signs or a count in braces, and a question mark makes either lazy.

  The quantifiers of a tree are those that tokens take up, and a count in braces is
  none of them: it is text like any other.  So a literal carries its quantifier
  itself, and has none in its tree.

  What a symbol is depends on who reads: a character, or a code unit.
-/
import RegexText.Proofs.Regular.Lookahead
import RegexText.Text.Numeral

namespace RegexText.Regular

open Text

/-! ### Counts -/

/-- How often a literal comes: by a sign, or by the digits of numbers in braces. -/
inductive Count where
  | star | plus | optional
  /-- As in `{2}`. -/
  | exactly (digits : List Char)
  /-- As in `{2,}`. -/
  | atLeast (digits : List Char)
  /-- As in `{2,3}`. -/
  | between (least most : List Char)
deriving DecidableEq, Repr

namespace Count

def text : Count → List Char
  | .star => ['*']
  | .plus => ['+']
  | .optional => ['?']
  | .exactly digits => '{' :: digits ++ ['}']
  | .atLeast digits => '{' :: digits ++ [',', '}']
  | .between least most => '{' :: least ++ ',' :: most ++ ['}']

/-- May a literal come so many times? -/
def Admits : Count → Nat → Prop
  | .star, _ => True
  | .plus, n => 1 ≤ n
  | .optional, n => n ≤ 1
  | .exactly digits, n => n = digitsValue digits
  | .atLeast digits, n => digitsValue digits ≤ n
  | .between least most, n => digitsValue least ≤ n ∧ n ≤ digitsValue most

/-- Is a list of characters a number in decimals? -/
def IsNumeral (digits : List Char) : Prop := digits ≠ [] ∧ ∀ c ∈ digits, c.isDigit = true

instance (digits : List Char) : Decidable (IsNumeral digits) :=
  have : Decidable (∀ c ∈ digits, c.isDigit = true) := List.decidableBAll _ digits
  inferInstanceAs (Decidable (_ ∧ _))

/-- Do the braces hold numbers, and not the larger one first? -/
def IsLegal : Count → Prop
  | .exactly digits => IsNumeral digits
  | .atLeast digits => IsNumeral digits
  | .between least most => IsNumeral least ∧ IsNumeral most ∧ digitsValue least ≤ digitsValue most
  | _ => True

instance : DecidablePred IsLegal
  | .star => isTrue trivial
  | .plus => isTrue trivial
  | .optional => isTrue trivial
  | .exactly _ => inferInstanceAs (Decidable (IsNumeral _))
  | .atLeast _ => inferInstanceAs (Decidable (IsNumeral _))
  | .between _ _ => inferInstanceAs (Decidable (_ ∧ _ ∧ _))

/-- The characters of a count that are no digits. -/
def signs : List Char := ['*', '+', '?', '{', ',', '}']

theorem forall_mem_text {count : Count} (h : count.IsLegal) :
    ∀ c ∈ count.text, c.isDigit = true ∨ c ∈ signs := by
  have hsigns : ∀ {cs : List Char}, cs.all (· ∈ signs) = true →
      ∀ c ∈ cs, c.isDigit = true ∨ c ∈ signs := fun hcs c hc => .inr (forall_mem_of_all hcs c hc)
  have hdigits : ∀ {digits : List Char}, IsNumeral digits →
      ∀ c ∈ digits, c.isDigit = true ∨ c ∈ signs := fun hnumeral c hc => .inl (hnumeral.2 c hc)
  cases count with
  | star => exact hsigns (by decide)
  | plus => exact hsigns (by decide)
  | optional => exact hsigns (by decide)
  | exactly digits =>
    exact List.forall_mem_cons.2
      ⟨.inr (by decide), List.forall_mem_append.2 ⟨hdigits h, hsigns (by decide)⟩⟩
  | atLeast digits =>
    exact List.forall_mem_cons.2
      ⟨.inr (by decide), List.forall_mem_append.2 ⟨hdigits h, hsigns (by decide)⟩⟩
  | between least most =>
    rcases h with ⟨hleast, hmost, -⟩
    have hclosing : ∀ c ∈ ['}'], c.isDigit = true ∨ c ∈ signs := hsigns (by decide)
    have hrest := List.forall_mem_append.2 ⟨hdigits hmost, hclosing⟩
    simp only [text, List.cons_append, List.append_assoc]
    exact List.forall_mem_cons.2 ⟨.inr (by decide), List.forall_mem_append.2
      ⟨hdigits hleast, List.forall_mem_cons.2 ⟨.inr (by decide), hrest⟩⟩⟩

end Count

/-- A quantifier as it is written: how often, and whether as seldom as possible. -/
structure Times where
  count : Count
  isLazy : Bool
deriving DecidableEq, Repr

def Times.text (t : Times) : List Char := t.count.text ++ if t.isLazy then ['?'] else []

/-! ### Literals -/

/-- A symbol, perhaps behind a backslash, and how often it comes if not once. -/
structure Literal (α : Type) where
  symbol : α
  escaped : Bool
  times : Option Times
deriving DecidableEq, Repr

namespace Literal

variable {α : Type}

/-- May a literal come so many times? -/
def Admits (l : Literal α) (n : Nat) : Prop :=
  match l.times with
  | none => n = 1
  | some t => t.count.Admits n

/-- What a literal matches.  Whether it is lazy makes no difference to that. -/
def language (l : Literal α) : Language α := {w | ∃ n, l.Admits n ∧ w = List.replicate n l.symbol}

theorem mem_language_once {symbol : α} {escaped : Bool} {w : List α} :
    w ∈ language ⟨symbol, escaped, none⟩ ↔ w = [symbol] := by
  constructor
  · rintro ⟨n, rfl, rfl⟩
    rfl
  · rintro rfl
    exact ⟨1, rfl, rfl⟩

/-- What is written behind a symbol. -/
def timesText (l : Literal α) : List Char := (l.times.map Times.text).getD []

theorem forall_mem_timesText {l : Literal α} (h : ∀ t ∈ l.times, t.count.IsLegal) :
    ∀ c ∈ l.timesText, c.isDigit = true ∨ c ∈ Count.signs := by
  rcases l with ⟨symbol, escaped, times⟩
  cases times with
  | none => nofun
  | some t =>
    have hmark : ∀ c ∈ (if t.isLazy then ['?'] else []), c.isDigit = true ∨ c ∈ Count.signs := by
      cases t.isLazy with
      | true => exact forall_mem_of_all (by decide)
      | false => nofun
    exact List.forall_mem_append.2 ⟨Count.forall_mem_text (h t rfl), hmark⟩

def text (l : Literal Char) : List Char :=
  (if l.escaped then ['\\'] else []) ++ l.symbol :: l.timesText

instance : Written (Literal Char) := ⟨fun l => .run l.text⟩

end Literal

/-- Literals, with bars between alternatives and with groups, each of which may look ahead. -/
abbrev Literals (α : Type) := Regex (Literal α) Look

end RegexText.Regular
