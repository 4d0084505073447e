/-
  RegexText/CommandLine/Listing.lean
  ==================================
  **How parsed and converted patterns are shown.**

  A parsed pattern is shown as a table with a line for each token, or as an
  indented JSON object; a converted one as its literal with a line for each
  named group, or as a compact JSON object.
-/
import RegexText.CommandLine.Platform

namespace RegexText.CommandLine

open Text

/-! ### Tables -/

/-- A text with blanks behind it, at least `width` characters long. -/
def padRight (width : Nat) (text : String) : String :=
  String.ofList (text.toList ++ List.replicate (width - text.length) ' ')

/-- A text with blanks before it, at least `width` characters long. -/
def padLeft (width : Nat) (text : String) : String :=
  String.ofList (List.replicate (width - text.length) ' ' ++ text.toList)

/-- A text without the white space at its end. -/
def trimEnd (text : String) : String :=
  String.ofList (text.toList.reverse.dropWhile Unicode.isWhiteSpace).reverse

/-- What the last column says about a token: the partner of a group's end, and how a group
    opens. -/
def detail : TokenItem → String
  | .groupStart opener endToken =>
    s!"-> #{endToken}" ++
      (match opener.name? with
        | some name => " name=" ++ name
        | none => "") ++
      (if opener.options.isEmpty then "" else " options=" ++ opener.options) ++
      (if opener.isAtomic then " atomic" else "")
  | .groupEnd _ startToken _ => s!"<- #{startToken}"
  | _ => ""

/-- The line for the token with the given index. -/
def tokenLine (body : List Char) (index : Nat) (t : Token) : String :=
  let text := String.ofList (sliceBytes t.pos t.stop body)
  trimEnd
    ("#" ++ padRight 3 (toString index) ++ " " ++ padLeft 4 (toString t.pos) ++ "+" ++
      padRight 3 (toString t.len) ++ " " ++ padRight 24 t.item.kindName ++ " " ++
      padRight 12 text ++ " " ++ detail t.item)

/-- The lines of a parsed pattern. -/
def patternLines (p : Pattern) : List String :=
  ["delimiter: " ++ p.delimiter.toString, "modifiers: " ++ p.modifiers,
    "body:      " ++ p.body] ++
    p.tokens.mapIdx (tokenLine p.body.toList)

/-- Lines, each with its end. -/
def unlines (lines : List String) : String := String.join (lines.map (· ++ "\n"))

/-- A parsed pattern as a table. -/
def patternTable (p : Pattern) : String := unlines (patternLines p)

/-- A converted pattern, with a line for each named group. -/
def convertedTable (c : Converted) : String :=
  unlines (c.pattern :: c.captures.toList.map fun (name, number) => "  " ++ name ++ s!" = {number}")

/-! ### JSON -/

def tokenItemJson : TokenItem → Json
  | .characterClass content quantifiers =>
    .object [("CharacterClass",
      .object [("content", .string content), ("quantifiers", .string quantifiers)])]
  | .optionGroup options => .object [("OptionGroup", .object [("options", .string options)])]
  | .groupStart opener endToken =>
    .object [("GroupStart",
      .object [("kind", .string opener.kind.name),
        ("name", (opener.name?.map Json.string).getD .null),
        ("options", .string opener.options), ("atomic", .bool opener.isAtomic),
        ("end_token", .number endToken)])]
  | .groupEnd kind startToken quantifiers =>
    .object [("GroupEnd",
      .object [("kind", .string kind.name), ("start_token", .number startToken),
        ("quantifiers", .string quantifiers)])]

def tokenJson (t : Token) : Json :=
  .object [("pos", .number t.pos), ("len", .number t.len), ("item", tokenItemJson t.item)]

/-- A parsed pattern as a JSON object. -/
def patternJson (p : Pattern) : Json :=
  .object [("delimiter", .string p.delimiter.toString), ("modifiers", .string p.modifiers),
    ("body", .string p.body), ("tokens", .array (p.tokens.map tokenJson))]

/-- A converted pattern as a JSON object. -/
def convertedJson (c : Converted) : Json :=
  .object [("pattern", .string c.pattern),
    ("capture_map",
      .object (c.captures.toList.map fun (name, number) => (name, .number number)))]

/-! ### Either form -/

variable {σ : Type}

/-- What is written for a parsed pattern. -/
def Platform.patternText (P : Platform σ) (json : Bool) (p : Pattern) : String :=
  if json then P.indented (patternJson p) ++ "\n" else patternTable p

/-- What is written for a converted pattern. -/
def Platform.convertedText (P : Platform σ) (json : Bool) (c : Converted) : String :=
  if json then P.compact (convertedJson c) ++ "\n" else convertedTable c

end RegexText.CommandLine
