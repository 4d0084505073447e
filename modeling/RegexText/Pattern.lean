/-
  RegexText/Pattern.lean
  ======================
  **Delimited patterns.**

  A pattern is a body between two equal delimiters, followed by modifier
  letters.  The body ends at the first delimiter that is not escaped.  Under the
  modifier `x` the body is taken without its white space and comments; escapes
  and bracket expressions keep theirs.
-/
import RegexText.TokenStream

namespace RegexText

open Text

/-- A delimited pattern, taken apart. -/
structure Pattern where
  delimiter : Char
  modifiers : String
  body : String
  tokens : List Token
deriving DecidableEq, Repr

namespace Pattern

/-- Is a letter among the modifiers? -/
def hasModifier (p : Pattern) (letter : Char) : Bool := p.modifiers.toList.contains letter

/-! ### Delimiters -/

/-- Anything but letters, digits, white space and the backslash may delimit a pattern. -/
def isDelimiter (c : Char) : Bool :=
  !Unicode.isAlphanumeric c && !Unicode.isWhiteSpace c && c != '\\'

/-- The delimiter, the body and the modifiers of a pattern. -/
def splitDelimiters : List Char → Except DelimiterFault (Char × List Char × List Char)
  | [] => .error .missing
  | delimiter :: cs =>
    if isDelimiter delimiter then
      match splitUnescaped delimiter cs with
      | none => .error (.unclosed delimiter)
      | some (body, modifiers) =>
        if modifiers.all Char.isAlpha then .ok (delimiter, body, modifiers)
        else .error (.trailing (String.ofList modifiers))
    else .error (.invalid delimiter)

/-! ### Ignorable text -/

/-- Where in an extended body a character stands. -/
inductive Region where
  | ordinary
  | bracket
  | comment
deriving DecidableEq, Repr

/-- The white space that an extended body may hold: the ASCII characters of that kind,
    the vertical tab among them. -/
def isIgnorable (c : Char) : Bool :=
  c == ' ' || c == '\t' || c == '\n' || c == '\x0b' || c == '\x0c' || c == '\r'

/-- A body without its white space and comments.  A comment runs from `#` through the
    end of its line, and a bracket expression through the first unescaped `]`. -/
def stripExtended : Region → List Char → List Char
  | _, [] => []
  | .comment, c :: cs => stripExtended (if c = '\n' then .ordinary else .comment) cs
  | _, ['\\'] => ['\\']
  | region, '\\' :: c :: cs => '\\' :: c :: stripExtended region cs
  | .bracket, c :: cs => c :: stripExtended (if c = ']' then .ordinary else .bracket) cs
  | .ordinary, c :: cs =>
    if c = '[' then c :: stripExtended .bracket cs
    else if c = '#' then stripExtended .comment cs
    else if isIgnorable c then stripExtended .ordinary cs
    else c :: stripExtended .ordinary cs

/-! ### Whole patterns -/

/-- Take a pattern apart, with at most `limit` groups open at a time. -/
def parse (limit : Nat) (pattern : String) : Traced Pattern :=
  match splitDelimiters pattern.toList with
  | .error fault => Traced.fail (.malformedDelimiters fault)
  | .ok (delimiter, raw, modifiers) => do
    let body := if modifiers.contains 'x' then stripExtended .ordinary raw else raw
    let tokens ← tokenize limit body
    return ⟨delimiter, String.ofList modifiers, String.ofList body, tokens⟩

end Pattern

end RegexText
