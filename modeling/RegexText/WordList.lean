/-
  RegexText/WordList.lean
  =======================
  **A regular expression for a finite list of words.**

  Words are sorted and freed of duplicates, spelled as chains of symbols, and
  merged.  A symbol may be overridden by a text of the caller's choice.

  On request the expression is preceded by an assertion about the first symbol.
  It is left out where it would exclude a word or say nothing new: for the empty
  word, for a single first symbol, for symbols that no class can hold, and
  before an expression that starts with a class of its own.
-/
import RegexText.Chain.Merge
import RegexText.Text.Utf8

namespace RegexText

open Text

namespace WordList

/-- How an expression is synthesized. -/
structure Options where
  /-- Texts that stand for characters instead of their symbols, the latest first. -/
  specials : List (Char × String)
  /-- Put an assertion about the first symbol in front? -/
  lookahead : Bool
  /-- How deep merging may go. -/
  depthLimit : Nat
deriving DecidableEq, Repr

namespace Options

/-- No special texts, no assertion, and the usual depth. -/
def default : Options := ⟨[], false, Chain.defaultMergeDepth⟩

/-- Let a text stand for a character; the latest text counts. -/
def withSpecial (options : Options) (c : Char) (text : String) : Options :=
  { options with specials := (c, text) :: options.specials }

/-- The text that stands for a character. -/
def symbol (options : Options) (c : Char) : String :=
  (options.specials.lookup c).getD (Symbol.ofChar c)

/-- The chain that stands for a word. -/
def chain (options : Options) (word : String) : Chain := word.toList.map options.symbol

end Options

/-- The distinct first atoms of some chains, in the order of their first appearance. -/
def initials (chains : List Chain) : List String := (chains.filterMap List.head?).eraseDups

/-- Does an assertion about the first symbol belong in front of `pattern`? -/
def wantsLookahead (options : Options) (words : List String) (initials : List String)
    (pattern : String) : Bool :=
  options.lookahead && !words.contains "" && 1 < initials.length &&
    pattern.toList.head? != some '[' && initials.all Symbol.isClassSafe

/-- The expression that matches exactly the given words. -/
def synthesize (options : Options) (words : List String) : Traced String :=
  if words.isEmpty then Traced.fail .emptyWordList
  else do
    let distinct := sortDistinct words
    let chains := distinct.map options.chain
    let merged ← Chain.merge options.depthLimit chains
    let pattern ← Chain.alternation [merged] false
    let first := initials chains
    let pattern :=
      if wantsLookahead options distinct first pattern then
        "(?=" ++ Symbol.characterClass first ++ ")" ++ pattern
      else pattern
    Traced.note (.synthesized pattern distinct.length)
    return pattern

/-- Decode words from UTF-8; `index` is the place of the first one in its list. -/
def decodeWords (index : Nat) : List (List UInt8) → Except PatternError (List String)
  | [] => .ok []
  | bytes :: later =>
    match decodeUtf8 bytes with
    | .error refusal => .error (.encoding index refusal)
    | .ok word => (decodeWords (index + 1) later).map (word :: ·)

/-- The expression that matches exactly the given words, which come as UTF-8. -/
def synthesizeEncoded (options : Options) (words : List (List UInt8)) : Traced String :=
  match decodeWords 0 words with
  | .error e => Traced.fail e
  | .ok decoded => synthesize options decoded

end WordList

end RegexText
