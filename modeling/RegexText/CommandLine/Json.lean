/-
  RegexText/CommandLine/Json.lean
  ===============================
  **JSON values and their two written forms.**

  The compact form holds no blanks; the indented form puts every member on a
  line of its own, two blanks deeper than what holds it.  Members of objects
  keep their order.  Characters beyond ASCII are written as they are.
-/
import RegexText.Text.Numeral

namespace RegexText.CommandLine

open Text

/-- A JSON value. -/
inductive Json where
  | null
  | bool (value : Bool)
  | number (value : Nat)
  | string (value : String)
  | array (items : List Json)
  | object (members : List (String × Json))

namespace Json

/-! ### Strings -/

/-- A character inside a string. -/
def escapedChar (c : Char) : List Char :=
  if c = '"' ∨ c = '\\' then ['\\', c]
  else if c = '\n' then ['\\', 'n']
  else if c = '\r' then ['\\', 'r']
  else if c = '\t' then ['\\', 't']
  else if c = '\x08' then ['\\', 'b']
  else if c = '\x0c' then ['\\', 'f']
  else if c.toNat < 0x20 then '\\' :: 'u' :: paddedHex 4 c.toNat
  else [c]

/-- A text as a string literal. -/
def stringText (text : String) : String :=
  String.ofList ('"' :: text.toList.flatMap escapedChar ++ ['"'])

/-- A truth value. -/
def boolText (value : Bool) : String := if value then "true" else "false"

/-! ### The compact form -/

mutual

/-- A value without blanks. -/
def compact : Json → String
  | .null => "null"
  | .bool value => boolText value
  | .number value => toString value
  | .string value => stringText value
  | .array items => "[" ++ ",".intercalate (compactItems items) ++ "]"
  | .object members => "\x7b" ++ ",".intercalate (compactMembers members) ++ "\x7d"

def compactItems : List Json → List String
  | [] => []
  | item :: items => compact item :: compactItems items

def compactMembers : List (String × Json) → List String
  | [] => []
  | (name, value) :: members =>
    (stringText name ++ ":" ++ compact value) :: compactMembers members

end

/-! ### The indented form -/

/-- A new line and the blanks for a depth. -/
def newLine (depth : Nat) : String := String.ofList ('\n' :: List.replicate (2 * depth) ' ')

/-- Brackets around some members, each on a line of its own; brackets around nothing stay
    together. -/
def block (opening closing : String) (depth : Nat) (members : List String) : String :=
  if members.isEmpty then opening ++ closing
  else
    opening ++ newLine (depth + 1) ++ ("," ++ newLine (depth + 1)).intercalate members ++
      newLine depth ++ closing

mutual

/-- A value at a depth of indentation. -/
def indented (depth : Nat) : Json → String
  | .null => "null"
  | .bool value => boolText value
  | .number value => toString value
  | .string value => stringText value
  | .array items => block "[" "]" depth (indentedItems (depth + 1) items)
  | .object members => block "\x7b" "\x7d" depth (indentedMembers (depth + 1) members)

def indentedItems (depth : Nat) : List Json → List String
  | [] => []
  | item :: items => indented depth item :: indentedItems depth items

def indentedMembers (depth : Nat) : List (String × Json) → List String
  | [] => []
  | (name, value) :: members =>
    (stringText name ++ ": " ++ indented depth value) :: indentedMembers depth members

end

end Json

end RegexText.CommandLine
