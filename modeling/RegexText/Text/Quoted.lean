/-
  RegexText/Text/Quoted.lean
  ==========================
  **The quoted form of characters and texts.**

  Messages show a text between quotes in a form that can be told apart by eye:
  the usual short escapes, and the code point of every character that has no
  shape of its own.  A double quote is escaped inside double quotes only, a
  single quote inside single quotes only.
-/
import RegexText.Text.Numeral
import RegexText.Unicode.Property

namespace RegexText.Text

/-- One character between quotes of the kind `quote`. -/
def quotedChar (quote c : Char) : List Char :=
  if c = '\x00' then ['\\', '0']
  else if c = '\t' then ['\\', 't']
  else if c = '\r' then ['\\', 'r']
  else if c = '\n' then ['\\', 'n']
  else if c = '\\' ∨ c = quote then ['\\', c]
  else if Unicode.isPrintable c && !Unicode.extendsGrapheme c then [c]
  else ['\\', 'u', '{'] ++ hexDigits c.toNat ++ ['}']

/-- A text in double quotes. -/
def quoted (text : String) : String :=
  String.ofList ('"' :: text.toList.flatMap (quotedChar '"') ++ ['"'])

/-- A character in single quotes. -/
def quotedSingle (c : Char) : String :=
  String.ofList ('\'' :: quotedChar '\'' c ++ ['\''])

end RegexText.Text
