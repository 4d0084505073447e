/-
  RegexText/Token.lean
  ====================
  **Tokens: the brackets and parentheses of a pattern body.**

  A token is a bracket expression, an inline option setting, or one end of a
  group.  The two ends of a group know each other by their indices in the token
  list.  Everything else of a body is literal text, which lies between the
  tokens and has no token of its own.
-/
import RegexText.Text.Offset

namespace RegexText

/-! ### Groups -/

inductive Direction where
  | ahead | behind
deriving DecidableEq, Repr

inductive GroupKind where
  | capturing
  | nonCapturing
  /-- An assertion about the text before or after a place; `negated` asserts that it
      does not match. -/
  | assertion (direction : Direction) (negated : Bool)
deriving DecidableEq, Repr

namespace GroupKind

def isAssertion : GroupKind → Bool
  | .assertion _ _ => true
  | _ => false

def name : GroupKind → String
  | .capturing => "Capturing"
  | .nonCapturing => "NonCapturing"
  | .assertion .ahead false => "Lookahead"
  | .assertion .ahead true => "NegativeLookahead"
  | .assertion .behind false => "Lookbehind"
  | .assertion .behind true => "NegativeLookbehind"

/-- The name that the two ends of a group share. -/
def label (kind : GroupKind) : String :=
  if kind.isAssertion then kind.name else kind.name ++ "Group"

end GroupKind

inductive Opener where
  /-- A capturing group, with its name if it has one. -/
  | capturing (name : Option String)
  /-- A non-capturing group, with the option letters that hold inside it. -/
  | nonCapturing (options : String)
  /-- A non-capturing group that is not entered again once it has matched. -/
  | atomic
  | assertion (direction : Direction) (negated : Bool)
deriving DecidableEq, Repr

namespace Opener

def kind : Opener → GroupKind
  | .capturing _ => .capturing
  | .nonCapturing _ => .nonCapturing
  | .atomic => .nonCapturing
  | .assertion direction negated => .assertion direction negated

def name? : Opener → Option String
  | .capturing name => name
  | _ => none

/-- The option letters that hold inside a group. -/
def options : Opener → String
  | .nonCapturing options => options
  | _ => ""

def isAtomic : Opener → Bool
  | .atomic => true
  | _ => false

end Opener

/-! ### Tokens -/

inductive TokenItem where
  /-- A bracket expression: the text between its brackets, and the quantifier characters
      after it. -/
  | characterClass (content quantifiers : String)
  /-- A setting of options for the text that follows. -/
  | optionGroup (options : String)
  /-- The start of a group; `endToken` is the index of its end. -/
  | groupStart (opener : Opener) (endToken : Nat)
  /-- The end of a group, with the quantifier characters after it; `startToken` is the
      index of its start. -/
  | groupEnd (kind : GroupKind) (startToken : Nat) (quantifiers : String)
deriving DecidableEq, Repr

/-- A token at byte offset `pos` of a body, `len` bytes long. -/
structure Token where
  pos : Nat
  len : Nat
  item : TokenItem
deriving DecidableEq, Repr

namespace TokenItem

def kindName : TokenItem → String
  | .characterClass _ _ => "CharacterClass"
  | .optionGroup _ => "OptionGroup"
  | .groupStart opener _ => opener.kind.label ++ "Start"
  | .groupEnd kind _ _ => kind.label ++ "End"

end TokenItem

/-- The offset behind a token. -/
def Token.stop (t : Token) : Nat := t.pos + t.len

end RegexText
