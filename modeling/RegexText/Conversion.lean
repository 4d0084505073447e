/-
  RegexText/Conversion.lean
  =========================
  **From a delimited pattern to a literal of the target dialect.**

  The target writes every pattern between slashes, knows the modifiers `i` and
  `m`, refers to groups by number only, and reads no category escapes.  A
  pattern is carried over token by token, and the literal text between the
  tokens piece by piece; what has no counterpart is refused.

  A bracket expression and a group keep their first quantifier character only:
  the possessive mark has no counterpart, and it does not change which texts can
  match.  An assertion keeps none.
-/
import RegexText.Backreference
import RegexText.CategoryEscape
import RegexText.Pattern

namespace RegexText

open Text

namespace Conversion

/-! ### Modifiers -/

/-- Modifiers that mean the same in the target. -/
def keptModifiers : List Char := ['i', 'm']

/-- Modifiers that the converted body already accounts for, or that the target need not
    be told. -/
def absorbedModifiers : List Char := ['D', 'S', 's', 'u', 'x']

/-- Modifiers with every kept one once, in the order of first appearance; `flags` are those
    found so far. -/
def convertModifiers (flags : List Char) : List Char → Except Feature (List Char)
  | [] => .ok flags
  | m :: ms =>
    if m ∈ keptModifiers then convertModifiers (if m ∈ flags then flags else flags ++ [m]) ms
    else if m ∈ absorbedModifiers then convertModifiers flags ms
    else .error (.modifier m)

/-! ### Literal text -/

/-- Literal text between two tokens, with its references numbered and its category escapes
    written out.  A reference is resolved before the text in front of it is looked at. -/
def convertLiteral (dotAll : Bool) (captures : Captures) (text : List Char) :
    Traced (List Char) :=
  match _hsplit : Backreference.splitFirst text with
  | (before, none) => CategoryEscape.expand false dotAll before
  | (before, some (letter, after)) =>
    match _hread : Backreference.read letter after with
    | none => Traced.fail (.unsupportedFeature (.malformedBackreference letter))
    | some (reference, spelling, rest) =>
      match captures.resolve? reference with
      | none =>
        Traced.fail (.unsupportedFeature (.unknownBackreference (String.ofList spelling)))
      | some number => do
        Traced.note (.backreference (String.ofList spelling) number)
        let front ← CategoryEscape.expand false dotAll before
        let back ← convertLiteral dotAll captures rest
        return front ++ Backreference.numbered number rest ++ back
termination_by text.length
decreasing_by
  have hafter := Backreference.length_lt_of_splitFirst _hsplit
  have hrest := Backreference.length_le_of_read _hread
  omega

/-! ### Tokens -/

/-- The text for the start of a group at offset `pos`. -/
def convertOpener (pos : Nat) : Opener → Except PatternError (List Char)
  | .capturing _ => .ok ['(']
  | .nonCapturing options =>
    if options.isEmpty then .ok "(?:".toList else .error (.unsupportedOptions pos options)
  | .atomic => .ok "(?:".toList
  | .assertion .ahead false => .ok "(?=".toList
  | .assertion .ahead true => .ok "(?!".toList
  | .assertion .behind false => .error (.unsupportedFeature .lookbehind)
  | .assertion .behind true => .error (.unsupportedFeature .negativeLookbehind)

/-- The capturing groups that have been opened after a token. -/
def opened (captures : Captures) : TokenItem → Captures
  | .groupStart (.capturing name) _ => captures.openGroup name
  | _ => captures

/-- The text for a token. -/
def convertToken (t : Token) : Traced (List Char) :=
  match t.item with
  | .optionGroup _ => Traced.fail (.unsupportedFeature .inlineOptions)
  | .characterClass content quantifiers => do
    let inner ← CategoryEscape.expand true false content.toList
    return '[' :: inner ++ ']' :: quantifiers.toList.take 1
  | .groupStart opener _ =>
    match convertOpener t.pos opener with
    | .ok text => pure text
    | .error e => Traced.fail e
  | .groupEnd kind _ quantifiers =>
    pure (')' :: if kind.isAssertion then [] else quantifiers.toList.take 1)

/-- The text for some tokens and the literal text around them, and the groups opened in
    the end.  `rest` is what is left of the body, from offset `pos` on. -/
def convertTokens (dotAll : Bool) (captures : Captures) (pos : Nat) (rest : List Char) :
    List Token → Traced (List Char × Captures)
  | [] => do
    let text ← convertLiteral dotAll captures rest
    return (text, captures)
  | t :: ts => do
    let (literal, fromToken) := splitBytes (t.pos - pos) rest
    let before ← convertLiteral dotAll captures literal
    let token ← convertToken t
    let later ← convertTokens dotAll (opened captures t.item) t.stop
      (splitBytes t.len fromToken).2 ts
    return (before ++ token ++ later.1, later.2)

end Conversion

/-! ### Whole patterns -/

/-- A pattern of the target dialect, and the numbers of its named groups. -/
structure Converted where
  pattern : String
  captures : CaptureMap
deriving DecidableEq, Repr

open Conversion in
/-- Carry a pattern over to the target dialect. -/
def Pattern.convert (p : Pattern) : Traced Converted :=
  match convertModifiers [] p.modifiers.toList with
  | .error feature => Traced.fail (.unsupportedFeature feature)
  | .ok flags => do
    let (text, captures) ← convertTokens (p.hasModifier 's') .none 0 p.body.toList p.tokens
    let body := if p.delimiter = '/' then text else protect '/' text
    let pattern := String.ofList ('/' :: body ++ '/' :: flags)
    Traced.note (.converted p.body pattern)
    return ⟨pattern, captures.names⟩

/-- Take a delimited pattern apart and carry it over; at most `limit` groups may be open at
    a time. -/
def convertPattern (limit : Nat) (pattern : String) : Traced Converted := do
  let parsed ← Pattern.parse limit pattern
  parsed.convert

end RegexText
