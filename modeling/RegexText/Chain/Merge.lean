/-
  RegexText/Chain/Merge.lean
  ==========================
  **Merging chains into one.**

  Merging factors what all chains share out of both ends, groups the middles by
  their first atoms, and, as long as some group holds more than one chain,
  merges each group and then the results.  Groups of one class-safe symbol are
  folded into a class beforehand, and two-atom results that end alike are merged
  by their heads in between.

  The recursion is bounded by a number of levels that the caller chooses; it is
  also the argument on which the recursion is structural.
-/
import RegexText.Chain.Alternation

namespace RegexText.Chain

/-- How deep merging may go when nothing else is said. -/
def defaultMergeDepth : Nat := 256

/-! ### Folding and shared tails -/

/-- Is a group one chain of one class-safe symbol? -/
def isSingleSymbol (group : Group) : Bool :=
  match group.chains with
  | [[_]] => Symbol.isClassSafe group.head
  | _ => false

/-- Replace the groups of one class-safe symbol, if there are several, by one group for
    their class.  It goes first, together with the chains that start with the same class
    already. -/
def foldSingleSymbols (groups : List Group) : List Group :=
  let singles := (groups.filter isSingleSymbol).map Group.head
  if singles.length < 2 then groups
  else
    let others := groups.filter fun group => !singles.contains group.head
    let classText := Symbol.characterClass (Text.sortDistinct singles)
    let joined := ((others.find? fun group => group.head == classText).map Group.chains).getD []
    ⟨classText, joined ++ [[classText]]⟩ :: others.filter fun group => group.head != classText

/-- The last atom of a chain of two, if the first one is class safe. -/
def tail? : Chain → Option String
  | [first, last] => if Symbol.isClassSafe first then some last else none
  | _ => none

/-- Does a chain count as one that ends in `tail`? -/
def endsIn (tail : String) (chain : Chain) : Bool := tail? chain == some tail

/-- The tails that at least two chains share, in the order of their first appearance. -/
def sharedTails (chains : List Chain) : List String :=
  ((chains.filterMap tail?).eraseDups).filter fun tail => 2 ≤ chains.countP (endsIn tail)

/-- Merge the chains of each shared tail, and put the results behind the other chains. -/
def mergeTails (merge : List Chain → Traced Chain) (chains : List Chain) :
    Traced (List Chain) := do
  let tails := sharedTails chains
  let merged ← tails.mapM fun tail => do
    let members := chains.filter (endsIn tail)
    Traced.note (.sharedTail members.length tail)
    merge members
  return chains.filter (fun chain => !tails.any (endsIn · chain)) ++ merged

/-! ### Merging -/

/-- Merge groups into one expression: each on its own, then the shared tails of the
    results, then what is left.  `merge` is used on ever smaller lists of chains. -/
def mergeGroups (merge : List Chain → Traced Chain) (groups : List Group) : Traced String := do
  let merged ← (foldSingleSymbols groups).mapM fun group => merge group.chains
  let remaining ← mergeTails merge merged
  return join (← merge remaining)

/-- One expression for the middles of some chains, not all of them empty. -/
def mergeMiddles (merge : List Chain → Traced Chain) (middles : List Chain) : Traced String := do
  let optional := middles.any List.isEmpty
  let groups := groupByHead middles
  if groups.any fun group => 1 < group.chains.length then do
    let expression ← mergeGroups merge groups
    if optional then makeOptional expression else pure expression
  else alternation (groups.flatMap Group.chains) optional

/-- One chain for several, given how to merge fewer of them. -/
def mergeStep (merge : List Chain → Traced Chain) (chains : List Chain) : Traced Chain := do
  let factored := factor chains
  if factored.middles.all List.isEmpty then pure factored.front
  else do
    let expression ← mergeMiddles merge factored.middles
    return factored.front ++ expression :: factored.back

/-- Merge with the given number of levels left, the present one included. -/
def mergeWithin (limit : Nat) : Nat → List Chain → Traced Chain
  | 0, _ => Traced.fail (.recursionLimit limit)
  | levels + 1, chains =>
    if chains.length < 2 then pure (chains.head?.getD [])
    else do
      Traced.note (.merging chains.length (limit - levels))
      mergeStep (mergeWithin limit levels) chains

/-- One chain that stands for all of the given ones; merging may recurse `limit` times. -/
def merge (limit : Nat) (chains : List Chain) : Traced Chain :=
  mergeWithin limit (limit + 1) chains

end RegexText.Chain
