/-
  RegexText/Chain/Alternation.lean
  ================================
  **Alternations and optional expressions, as text.**

  An alternation of chains collects the class-safe symbols among them into one
  bracket expression, which goes first; an empty chain makes the whole optional.

  A quantifier binds to a single unit only, so an expression that is not one is
  wrapped in a group before it becomes optional.  Whether it is one is read off
  its tokens.
-/
import RegexText.Chain
import RegexText.Symbol
import RegexText.Text.Sorted
import RegexText.TokenStream

namespace RegexText.Chain

open Text

/-! ### Single units -/

/-- Do the tokens of an expression of `size` bytes show that it is one bracket expression
    or one non-capturing group, without a quantifier? -/
def isSingleUnit (size : Nat) (tokens : List Token) : Bool :=
  match tokens.head?, tokens.getLast? with
  | some first, some last =>
    match first.item with
    | .characterClass _ quantifiers =>
      tokens.length == 1 && first.stop == size && quantifiers.isEmpty
    | .groupStart opener endToken =>
      opener.kind == .nonCapturing && endToken == tokens.length - 1 && last.stop == size &&
        match last.item with
        | .groupEnd _ _ quantifiers => quantifiers.isEmpty
        | _ => false
    | _ => false
  | _, _ => false

/-- Is an expression one symbol, one bracket expression or one non-capturing group, so that
    a quantifier after it binds to all of it? -/
def isAtomic (expression : String) : Traced Bool :=
  match expression.toList with
  | [] => pure false
  | [_] => pure true
  | b :: c :: rest =>
    if b = '\\' ∧ rest = [] then pure true
    else if b = '[' ∨ b = '(' then do
      match ← (tokenize defaultGroupDepth (b :: c :: rest)).attempt with
      | .ok tokens => pure (isSingleUnit (byteLength (b :: c :: rest)) tokens)
      | .error _ => pure false
    else pure false

/-- An expression that matches what the given one matches, and the empty text. -/
def makeOptional (expression : String) : Traced String := do
  if ← isAtomic expression then pure (expression ++ "?")
  else pure ("(?:" ++ expression ++ ")?")

/-! ### Alternations -/

/-- The class-safe symbols among the chains that consist of one, each once. -/
def classSymbols (chains : List Chain) : List String :=
  (chains.filterMap fun
    | [symbol] => if Symbol.isClassSafe symbol then some symbol else none
    | _ => none).eraseDups

/-- The texts of the chains that are neither empty nor class-safe symbols. -/
def plainBranches (chains : List Chain) : List String :=
  chains.filterMap fun
    | [] => none
    | [symbol] => if Symbol.isClassSafe symbol then none else some symbol
    | chain => some (join chain)

/-- The branch for some class-safe symbols: none at all, the symbol, or a bracket
    expression. -/
def classBranch (symbols : List String) : List String :=
  match sortDistinct symbols with
  | [] => []
  | [symbol] => [symbol]
  | members => [Symbol.characterClass members]

/-- The branches of an alternation, the class first. -/
def branches (chains : List Chain) : List String :=
  classBranch (classSymbols chains) ++ plainBranches chains

/-- An expression that matches what any of some chains matches, and the empty text if
    `optional` holds or one of the chains is empty. -/
def alternation (chains : List Chain) (optional : Bool) : Traced String :=
  let isOptional := optional || chains.any List.isEmpty
  let finished (expression : String) : Traced String :=
    if isOptional then makeOptional expression else pure expression
  match branches chains with
  | [] => pure ""
  | [branch] => finished branch
  | several => finished ("(?:" ++ "|".intercalate several ++ ")")

end RegexText.Chain
