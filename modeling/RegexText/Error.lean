/-
  RegexText/Error.lean
  ====================
  **What can go wrong, by cause, and how it is worded.**

  A failure is a value that names its cause.  Two groups of causes carry a type
  of their own: the ways in which a pattern's delimiters can be wrong, and the
  constructs that have no counterpart in the target dialect.  The latter,
  together with group openers that are not known at all, are the *dialect
  gaps*: the input may be a fine pattern, only not a convertible one.

  All offsets count bytes from the start of the pattern's body.
-/
import RegexText.Text.Quoted
import RegexText.Text.Utf8

namespace RegexText

open Text

/-! ### Causes -/

/-- How the delimiters of a pattern can be wrong. -/
inductive DelimiterFault where
  /-- The pattern holds no character at all. -/
  | missing
  /-- The first character cannot delimit a pattern. -/
  | invalid (delimiter : Char)
  /-- Something that is not a letter follows the closing delimiter. -/
  | trailing (text : String)
  /-- The delimiter does not come again. -/
  | unclosed (delimiter : Char)
deriving DecidableEq, Repr

/-- A construct without a counterpart in the target dialect. -/
inductive Feature where
  | inlineOptions
  | lookbehind
  | negativeLookbehind
  | modifier (letter : Char)
  /-- A backreference escape that is not of any known spelling; `letter` follows the
      backslash. -/
  | malformedBackreference (letter : Char)
  /-- A backreference to a group that has not been opened before it. -/
  | unknownBackreference (text : String)
  /-- A braced category escape without its closing brace. -/
  | unterminatedProperty (text : String)
  /-- A category escape at the very end of a text. -/
  | bareProperty
  /-- A property that is not a general category. -/
  | otherProperty (escape : String)
deriving DecidableEq, Repr

/-- The parentheses. -/
inductive Paren where
  | opening | closing
deriving DecidableEq, Repr

/-- A failure of one of the library's operations. -/
inductive PatternError where
  /-- The word at `index` is not UTF-8. -/
  | encoding (index : Nat) (refusal : Utf8Refusal)
  /-- There are no words to match. -/
  | emptyWordList
  /-- Merging chains would go deeper than `limit`. -/
  | recursionLimit (limit : Nat)
  | malformedDelimiters (fault : DelimiterFault)
  /-- The bracket expression that starts at `pos` is not closed. -/
  | malformedClass (pos : Nat)
  /-- The parenthesis at `pos` has no partner. -/
  | unbalancedGroup (pos : Nat) (unmatched : Paren)
  /-- A group would lie inside `limit` others. -/
  | nestingTooDeep (limit : Nat)
  /-- The group that starts at `pos` is of no known kind. -/
  | unsupportedGroup (pos : Nat)
  | unsupportedFeature (feature : Feature)
  /-- The group at `pos` carries inline options. -/
  | unsupportedOptions (pos : Nat) (options : String)
deriving DecidableEq, Repr

/-! ### Wording -/

def Paren.char : Paren → Char
  | .opening => '('
  | .closing => ')'

def DelimiterFault.message : DelimiterFault → String
  | .missing => "empty pattern"
  | .invalid delimiter => "invalid delimiter " ++ quotedSingle delimiter
  | .trailing text => "unexpected text after the closing delimiter: " ++ quoted text
  | .unclosed delimiter => "no closing delimiter " ++ quotedSingle delimiter

/-- A feature as the subject of a sentence, in the plural. -/
def Feature.description : Feature → String
  | .inlineOptions => "regexp options"
  | .lookbehind => "lookbehind assertions"
  | .negativeLookbehind => "negative lookbehind assertions"
  | .modifier letter => quotedSingle letter ++ " modifiers"
  | .malformedBackreference letter =>
    "malformed backreferences at " ++ quoted (String.ofList ['\\', letter])
  | .unknownBackreference text =>
    "forward or unknown backreferences (" ++ quoted text ++ ")"
  | .unterminatedProperty text =>
    "unterminated Unicode property escapes (" ++ quoted text ++ ")"
  | .bareProperty => "bare \\p escapes"
  | .otherProperty escape =>
    "Unicode properties other than general categories (" ++ quoted escape ++ ")"

/-- The wording of a failure. -/
def PatternError.message : PatternError → String
  | .encoding index refusal => s!"invalid UTF-8 in word #{index}: " ++ refusal.message
  | .emptyWordList => "cannot build a pattern from an empty word list"
  | .recursionLimit limit => s!"chain merge exceeded the recursion limit ({limit})"
  | .malformedDelimiters fault => "could not parse pattern delimiters: " ++ fault.message
  | .malformedClass pos => s!"could not find matching bracket from pos {pos}"
  | .unbalancedGroup pos unmatched =>
    "unmatched '" ++ unmatched.char.toString ++ s!"' at pos {pos}"
  | .nestingTooDeep limit => s!"group nesting exceeded the depth limit ({limit})"
  | .unsupportedGroup pos => s!"unsupported subpattern type at pos {pos}"
  | .unsupportedFeature feature => feature.description ++ " are not supported"
  | .unsupportedOptions pos options =>
    "subpattern options (" ++ quoted options ++ s!") at pos {pos} are not supported"

/-- Is a failure a gap between the two dialects, and not a fault of the pattern? -/
def PatternError.isDialectGap : PatternError → Bool
  | .unsupportedGroup _ => true
  | .unsupportedFeature _ => true
  | .unsupportedOptions _ _ => true
  | _ => false

end RegexText
