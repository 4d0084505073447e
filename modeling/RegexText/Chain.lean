/-
  RegexText/Chain.lean
  ====================
  **Chains of regular-expression fragments, and what several of them share.**

  A chain is a list of atoms, each the text of a complete regular expression;
  it stands for their concatenation.  Atoms are compared as texts and never
  looked into.

  `factor` splits several chains at once into a shared front, the middles, and
  a shared back.  When all chains are equally long the back stops one atom
  short, so that chains that differ never lose all of their atoms at once.
-/

namespace RegexText

/-- A list of regular expressions that follow each other. -/
abbrev Chain := List String

namespace Chain

def join (chain : Chain) : String := String.join chain

/-! ### Shared fronts and backs -/

/-- The longest common front of two chains. -/
def commonFront : Chain → Chain → Chain
  | a :: as, b :: bs => if a = b then a :: commonFront as bs else []
  | _, _ => []

/-- The longest front that all chains share. -/
def sharedFront : List Chain → Chain
  | [] => []
  | chain :: chains => chains.foldl commonFront chain

def shortest (chains : List Chain) : Nat := ((chains.map List.length).min?).getD 0

def longest (chains : List Chain) : Nat := ((chains.map List.length).max?).getD 0

/-- How many atoms a shared back may take from each chain. -/
def backBound (chains : List Chain) : Nat :=
  if longest chains = shortest chains then shortest chains - 1 else shortest chains

/-- The longest back that all chains share, within its bound. -/
def sharedBack (chains : List Chain) : Chain :=
  ((sharedFront (chains.map List.reverse)).take (backBound chains)).reverse

/-- Several chains, split into what they share at both ends and what lies between. -/
structure Factored where
  front : Chain
  middles : List Chain
  back : Chain
deriving DecidableEq, Repr

/-- Take the shared front off all chains, then the shared back. -/
def factor (chains : List Chain) : Factored :=
  let front := sharedFront chains
  let rests := chains.map (·.drop front.length)
  let back := sharedBack rests
  ⟨front, rests.map fun rest => rest.take (rest.length - back.length), back⟩

/-! ### Groups -/

/-- Chains that start with the same atom. -/
structure Group where
  head : String
  chains : List Chain
deriving DecidableEq, Repr

/-- The non-empty chains by their first atoms, which are listed in the order of their
    first appearance. -/
def groupByHead (chains : List Chain) : List Group :=
  ((chains.filterMap List.head?).eraseDups).map fun head =>
    ⟨head, chains.filter fun chain => chain.head? = some head⟩

end Chain

end RegexText
