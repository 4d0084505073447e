/-
  RegexText/Symbol.lean
  =====================
  **Single characters as regular expressions, and sets of them.**

  A symbol is the text that matches one character: the character itself, or an
  escape of it.  Symbols that keep their meaning between brackets are *class
  safe*, and several of them fold into one bracket expression.

  Inside brackets most escapes are not needed.  The members that lose their
  backslash go to the end, the caret last of all, and a hyphen goes to the
  front: there, none of them is anything but itself.
-/

namespace RegexText.Symbol

/-! ### One character -/

/-- The characters that mean something outside of brackets.  Those that do so only where
    no synthesized pattern puts them, such as `-` and `}`, are not among them. -/
def special : List Char :=
  ['\\', '.', '+', '*', '?', '[', '^', ']', '$', '(', ')', '{', '|', '#']

/-- The symbol that matches exactly the character `c`. -/
def ofChar (c : Char) : String :=
  if c = '\x00' then "\\x00"
  else if c ∈ special then String.ofList ['\\', c]
  else String.singleton c

/-- Does a symbol mean the same inside a bracket expression as outside?  Only one
    character qualifies, with or without a backslash before it; the dot and the
    backslash need theirs. -/
def isClassSafe (symbol : String) : Bool :=
  match symbol.toList with
  | [c] => c != '.' && c != '\\'
  | [b, _] => b == '\\'
  | _ => false

/-! ### Sets of characters -/

/-- The characters that need no backslash between brackets, in the order in which they
    go to the end. -/
def literalInClass : List Char :=
  ['$', '(', ')', '*', '+', '.', '?', '[', '{', '|', '^']

/-- The members with a hyphen, if there is one, in front. -/
def hyphenFirst (members : List String) : List String :=
  if "-" ∈ members then "-" :: members.erase "-" else members

/-- Take the backslash from the member `\c`, if there is one, and move it to the end. -/
def unescapeMember (members : List String) (c : Char) : List String :=
  let escaped := String.ofList ['\\', c]
  if escaped ∈ members then members.erase escaped ++ [String.singleton c] else members

/-- The members of a bracket expression over some symbols, in the order in which they
    are written. -/
def classMembers (symbols : List String) : List String :=
  literalInClass.foldl unescapeMember (hyphenFirst symbols.eraseDups)

/-- The bracket expression that matches what any of some class-safe symbols matches. -/
def characterClass (symbols : List String) : String :=
  "[" ++ String.join (classMembers symbols) ++ "]"

end RegexText.Symbol
