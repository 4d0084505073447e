/-
  RegexText/Proofs/Source.lean
  ============================
  **Source expressions as trees.**

  These are the expressions that have a counterpart in the target dialect.  Their
  units are literal characters, escapes, anchors, the dot, category escapes,
  bracket expressions and backreferences; their groups may capture, with a name or
  without one, may be atomic, and may be assertions about what follows.

  Whether a backreference means anything depends on the groups that have been
  opened before it, so legality is defined along the tree, with the groups opened
  so far at hand.
-/
import RegexText.Backreference
import RegexText.Proofs.Regular.Bracket
import RegexText.Proofs.Syntax
import RegexText.Unicode.Category

namespace RegexText.Source

open Text

/-- The groups that have been opened, the latest first, each by its name if it has one. -/
abbrev Groups := List (Option String)

/-- The number of the latest group of a name.  Groups are numbered from one on. -/
def groupNumber? : Groups → String → Option Nat
  | [], _ => none
  | group :: earlier, name =>
    if group = some name then some (earlier.length + 1) else groupNumber? earlier name

theorem groupNumber?_le {groups : Groups} {name : String} {number : Nat}
    (h : groupNumber? groups name = some number) : 1 ≤ number ∧ number ≤ groups.length := by
  induction groups with
  | nil => cases h
  | cons group earlier ih =>
    unfold groupNumber? at h
    rw [List.length_cons]
    split at h
    · cases h
      omega
    · have := ih h
      omega

/-- The names of the groups, in the order in which they were first opened, each with the
    number of the latest group that bears it. -/
def namedGroups (groups : Groups) : CaptureMap :=
  ⟨(groups.reverse.filterMap id).eraseDups.map
    fun name => (name, (groupNumber? groups name).getD 0)⟩

/-! ### Units -/

/-- A category escape as it is spelled: `\pL` or `\p{^Lu}`, with a small letter or a capital
    one. -/
inductive CategorySpelling where
  | short (capital : Bool) (name : Char)
  | braced (capital caret : Bool) (name : List Char)
deriving DecidableEq, Repr

inductive NameForm where
  | angle | quote | brace | gBrace
deriving DecidableEq, Repr

/-- A backreference as it is spelled.  Numbers may go without braces. -/
inductive Reference where
  | named (form : NameForm) (name : List Char)
  | numbered (braced : Bool) (digits : List Char)
  /-- Counted back from the next group that will open. -/
  | relative (braced : Bool) (digits : List Char)
deriving DecidableEq, Repr

/-- A part of a bracket expression. -/
inductive Item where
  | literal (c : Char)
  | escaped (c : Char)
  | shorthand (s : Regular.Shorthand) (negated : Bool)
  | range (first last : Char)
  | category (spelling : CategorySpelling)
deriving DecidableEq, Repr

inductive Element where
  | literal (c : Char)
  /-- A punctuation character after a backslash. -/
  | escaped (c : Char)
  | shorthand (s : Regular.Shorthand) (negated : Bool)
  | start
  | stop
  | dot
  | category (spelling : CategorySpelling)
  | bracket (negated : Bool) (items : List Item)
  | reference (r : Reference)
deriving DecidableEq, Repr

namespace CategorySpelling

def letter (capital : Bool) : Char := if capital then 'P' else 'p'

def text : CategorySpelling → List Char
  | .short capital name => ['\\', letter capital, name]
  | .braced capital caret name =>
    '\\' :: letter capital :: '{' :: (if caret then ['^'] else []) ++ name ++ ['}']

/-- The categories that are named, if the name is one of a general category. -/
def categories? : CategorySpelling → Option (List Unicode.Category)
  | .short _ name => Unicode.Category.named? (String.ofList [name])
  | .braced _ _ name => Unicode.Category.named? (String.ofList name)

/-- Does the escape stand for all other categories? -/
def negated : CategorySpelling → Bool
  | .short capital _ => capital
  | .braced capital caret _ => capital != caret

end CategorySpelling

namespace Reference

def NameForm.opening : NameForm → List Char
  | .angle => ['\\', 'k', '<']
  | .quote => ['\\', 'k', '\'']
  | .brace => ['\\', 'k', '{']
  | .gBrace => ['\\', 'g', '{']

def NameForm.closing : NameForm → Char
  | .angle => '>'
  | .quote => '\''
  | .brace => '}'
  | .gBrace => '}'

def text : Reference → List Char
  | .named form name => NameForm.opening form ++ name ++ [NameForm.closing form]
  | .numbered true digits => '\\' :: 'g' :: '{' :: digits ++ ['}']
  | .numbered false digits => '\\' :: 'g' :: digits
  | .relative true digits => '\\' :: 'g' :: '{' :: '-' :: digits ++ ['}']
  | .relative false digits => '\\' :: 'g' :: '-' :: digits

/-- Would a digit behind a reference belong to it? -/
def isOpen : Reference → Bool
  | .named _ _ => false
  | .numbered braced _ => !braced
  | .relative braced _ => !braced

/-- The number of the group that a reference means, among the groups opened so far. -/
def target? (groups : Groups) : Reference → Option Nat
  | .named _ name => groupNumber? groups (String.ofList name)
  | .numbered _ digits =>
    (readDigits? digits).filter fun number => 1 ≤ number && number ≤ groups.length
  | .relative _ digits =>
    ((readDigits? digits).filter fun count => 1 ≤ count && count ≤ groups.length).map
      fun count => groups.length + 1 - count

end Reference

def Item.text : Item → List Char
  | .literal c => [c]
  | .escaped c => ['\\', c]
  | .shorthand s negated => ['\\', s.letter negated]
  | .range first last => [first, '-', last]
  | .category spelling => spelling.text

namespace Element

/-- The text between the brackets of a bracket expression. -/
def content (negated : Bool) (items : List Item) : List Char :=
  (if negated then ['^'] else []) ++ items.flatMap Item.text

def spelling : Element → Spelling
  | .literal c => .run [c]
  | .escaped c => .run ['\\', c]
  | .shorthand s negated => .run ['\\', s.letter negated]
  | .start => .run ['^']
  | .stop => .run ['$']
  | .dot => .run ['.']
  | .category spelling => .run spelling.text
  | .bracket negated items => .bracket (content negated items)
  | .reference r => .run r.text

instance : Written Element := ⟨spelling⟩

end Element

/-! ### Groups -/

inductive GroupForm where
  | letter | angle | quote
deriving DecidableEq, Repr

inductive Mark where
  | capturing
  | named (form : GroupForm) (name : List Char)
  | nonCapturing
  | atomic
  /-- An assertion about what follows. -/
  | ahead (negated : Bool)
deriving DecidableEq, Repr

namespace Mark

def opening : Mark → List Char
  | .capturing => ['(']
  | .named .letter name => '(' :: '?' :: 'P' :: '<' :: name ++ ['>']
  | .named .angle name => '(' :: '?' :: '<' :: name ++ ['>']
  | .named .quote name => '(' :: '?' :: '\'' :: name ++ ['\'']
  | .nonCapturing => ['(', '?', ':']
  | .atomic => ['(', '?', '>']
  | .ahead false => ['(', '?', '=']
  | .ahead true => ['(', '?', '!']

def opener : Mark → Opener
  | .capturing => .capturing none
  | .named _ name => .capturing (some (String.ofList name))
  | .nonCapturing => .nonCapturing ""
  | .atomic => .atomic
  | .ahead negated => .assertion .ahead negated

instance : Marks Mark := ⟨opener, opening⟩

/-- The groups after the opening of one more. -/
def opens (groups : Groups) : Mark → Groups
  | .capturing => none :: groups
  | .named _ name => some (String.ofList name) :: groups
  | _ => groups

end Mark

/-! ### Legal expressions -/

abbrev Expression := Regex Element Mark

def opened (groups : Groups) : Expression → Groups
  | .done => groups
  | .unit _ _ next => opened groups next
  | .group g body _ next => opened (opened (g.opens groups) body) next
  | .bar next => opened groups next

/-- The characters that are no literals. -/
def reserved : List Char :=
  ['\\', '.', '[', ']', '(', ')', '{', '}', '?', '*', '+', '|', '^', '$']

/-- A name of a group: letters, digits and underscores, with no digit in front. -/
def isIdentifier : List Char → Bool
  | [] => false
  | c :: cs => !c.isDigit && (c :: cs).all Lexeme.isNameChar

def Item.isLegal : Item → Bool
  | .literal c => !reserved.contains c
  | .escaped c => Regular.isPunctuation c
  | .shorthand _ _ => true
  | .range first last => !reserved.contains first && !reserved.contains last
  | .category spelling => spelling.categories?.isSome

/-- Does a backreference mean a group that has been opened, by a proper name if by name? -/
def Reference.isLegal (groups : Groups) (r : Reference) : Bool :=
  (r.target? groups).isSome &&
    match r with
    | .named _ name => isIdentifier name
    | _ => true

def Element.isLegal (groups : Groups) : Element → Bool
  | .literal c => !reserved.contains c
  | .escaped c => Regular.isPunctuation c
  | .category spelling => spelling.categories?.isSome
  | .bracket _ items => items.all Item.isLegal
  | .reference r => r.isLegal groups
  | _ => true

/-- The quantifiers that a unit may carry: none on anchors, and possessive ones on bracket
    expressions only. -/
def Element.takes (e : Element) (q : Option Quantifier) : Bool :=
  match q with
  | none => true
  | some ⟨r, m⟩ =>
    match e with
    | .start => false
    | .stop => false
    | .bracket _ _ => m != .possessive || r != .optional
    | _ => m != .possessive

def Mark.isLegal : Mark → Bool
  | .named _ name => isIdentifier name
  | _ => true

/-- The quantifiers that a group may carry: none on assertions, and no possessive question
    mark. -/
def Mark.takes (g : Mark) (q : Option Quantifier) : Bool :=
  match q with
  | none => true
  | some ⟨r, m⟩ =>
    match g with
    | .ahead _ => false
    | _ => m != .possessive || r != .optional

def startsWithDigit : Expression → Bool
  | .unit (.literal c) _ _ => c.isDigit
  | _ => false

def digitFollows (q : Option Quantifier) (next : Expression) : Bool :=
  q.isNone && startsWithDigit next

/-- Would a digit behind a unit belong to it? -/
def Element.isOpen : Element → Bool
  | .reference r => r.isOpen
  | _ => false

/-- Are all parts of an expression legal, when some groups have been opened before? -/
def Legal (groups : Groups) : Expression → Prop
  | .done => True
  | .unit e q next =>
    (e.isLegal groups ∧ e.takes q) ∧ ¬ (e.isOpen ∧ digitFollows q next) ∧ Legal groups next
  | .group g body q next =>
    (g.isLegal ∧ g.takes q) ∧ Legal (g.opens groups) body ∧
      Legal (opened (g.opens groups) body) next
  | .bar next => Legal groups next

instance decidableLegal : (groups : Groups) → (r : Expression) → Decidable (Legal groups r)
  | _, .done => .isTrue trivial
  | groups, .unit e q next =>
    have := decidableLegal groups next
    inferInstanceAs (Decidable ((e.isLegal groups ∧ e.takes q) ∧
      ¬ (e.isOpen ∧ digitFollows q next) ∧ Legal groups next))
  | groups, .group g body q next =>
    have := decidableLegal (g.opens groups) body
    have := decidableLegal (opened (g.opens groups) body) next
    inferInstanceAs (Decidable ((g.isLegal ∧ g.takes q) ∧ Legal (g.opens groups) body ∧
      Legal (opened (g.opens groups) body) next))
  | groups, .bar next => decidableLegal groups next

end RegexText.Source
