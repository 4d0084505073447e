/-
  RegexText/CategoryEscape.lean
  =============================
  **Category escapes, written out as ranges of code units.**

  The target dialect reads a text as UTF-16 code units and knows no `\p`.  An
  escape for a general category becomes the list of the units that belong to it:
  a bracket expression of its own in ordinary text, and bare ranges inside the
  brackets of a class.  Units are those of the basic plane; lone surrogates
  count as surrogates.

  Ranges are ascending and never touch, so each set of units has one written
  form.
-/
import RegexText.Traced
import RegexText.Unicode.Property

namespace RegexText.CategoryEscape

open Text

/-! ### Ranges of code units -/

/-- A range of code units, both ends included. -/
structure UnitRange where
  first : Nat
  last : Nat
deriving DecidableEq, Repr

/-- The maximal ranges of the codes whose category is selected, in a table that starts at
    the code `start`. -/
def rangesFrom (selected : Unicode.Category → Bool) (start : Nat) :
    Unicode.CategoryRuns → List UnitRange
  | [] => []
  | (length, category) :: later =>
    let ranges := rangesFrom selected (start + length) later
    if selected category then
      match ranges with
      | [] => [⟨start, start + length - 1⟩]
      | range :: ranges =>
        if range.first = start + length then ⟨start, range.last⟩ :: ranges
        else ⟨start, start + length - 1⟩ :: range :: ranges
    else ranges

/-- The maximal ranges of the code units whose category is among the given ones, or, if
    `negated`, of all others. -/
def unitRanges (categories : List Unicode.Category) (negated : Bool) : List UnitRange :=
  rangesFrom (fun category => categories.contains category != negated) 0 Unicode.basicPlane

/-- A code unit: an ASCII letter or digit as itself, any other by its number. -/
def unitText (unit : Nat) : List Char :=
  let c := Char.ofNat unit
  if unit < 0x80 ∧ c.isAlphanum then [c] else '\\' :: 'u' :: paddedUpperHex 4 unit

/-- A range as it is written between brackets.  Two neighbours stand side by side, and a
    hyphen appears from three units on. -/
def rangeText (range : UnitRange) : List Char :=
  if range.last ≤ range.first then unitText range.first
  else if range.last = range.first + 1 then unitText range.first ++ unitText range.last
  else unitText range.first ++ '-' :: unitText range.last

def rangesText (ranges : List UnitRange) : List Char := ranges.flatMap rangeText

/-! ### Reading an escape -/

/-- A category escape: its spelling, and what it selects. -/
structure Escape where
  text : List Char
  categories : List Unicode.Category
  negated : Bool
deriving DecidableEq, Repr

/-- The name between the braces, without the caret that negates it. -/
def splitCaret : List Char → Bool × List Char
  | '^' :: name => (true, name)
  | name => (false, name)

/-- The name that follows `\p` or `\P`, whether a caret negates it, its spelling, and the
    rest.  `whole` is the text from the backslash on. -/
def readName (whole : List Char) :
    List Char → Except Feature (Bool × List Char × List Char × List Char)
  | [] => .error .bareProperty
  | '{' :: cs =>
    match cs.dropWhile (· != '}') with
    | [] => .error (.unterminatedProperty (String.ofList whole))
    | _ :: rest =>
      let inner := cs.takeWhile (· != '}')
      let (negated, name) := splitCaret inner
      .ok (negated, name, '{' :: inner ++ ['}'], rest)
  | c :: cs => .ok (false, [c], [c], cs)

/-- The escape whose letter, `p` or `P`, stands before `cs`, and the rest. -/
def read (letter : Char) (cs : List Char) : Except Feature (Escape × List Char) :=
  match readName ('\\' :: letter :: cs) cs with
  | .error feature => .error feature
  | .ok (caret, name, spelling, rest) =>
    let text := '\\' :: letter :: spelling
    match Unicode.Category.named? (String.ofList name) with
    | none => .error (.otherProperty (String.ofList text))
    | some categories => .ok (⟨text, categories, (letter == 'P') != caret⟩, rest)

theorem length_lt_of_readName {whole cs : List Char} {caret : Bool}
    {name spelling rest : List Char}
    (h : readName whole cs = .ok (caret, name, spelling, rest)) : rest.length < cs.length := by
  unfold readName at h
  split at h
  · simp at h
  · rename_i cs
    split at h
    · simp at h
    · rename_i hdrop
      simp only [Except.ok.injEq, Prod.mk.injEq] at h
      obtain ⟨_, _, _, rfl⟩ := h
      have hle := (List.dropWhile_sublist (l := cs) (· != '}')).length_le
      rw [hdrop] at hle
      simp only [List.length_cons] at hle ⊢
      omega
  · simp only [Except.ok.injEq, Prod.mk.injEq] at h
    obtain ⟨_, _, _, rfl⟩ := h
    simp

theorem length_lt_of_read {letter : Char} {cs rest : List Char} {escape : Escape}
    (h : read letter cs = .ok (escape, rest)) : rest.length < cs.length := by
  unfold read at h
  split at h
  · simp at h
  · rename_i hname
    split at h
    · simp at h
    · simp only [Except.ok.injEq, Prod.mk.injEq] at h
      obtain ⟨_, rfl⟩ := h
      exact length_lt_of_readName hname

/-! ### Expanding a text -/

/-- An escape, written out for the inside or the outside of a bracket expression. -/
def Escape.expanded (inClass : Bool) (escape : Escape) : List Char :=
  if inClass then rangesText (unitRanges escape.categories escape.negated)
  else if escape.negated then
    '[' :: '^' :: rangesText (unitRanges escape.categories false) ++ [']']
  else '[' :: rangesText (unitRanges escape.categories false) ++ [']']

/-- A dot, or what matches any unit at all when a dot is to do so. -/
def dotText (dotAll : Bool) : List Char := if dotAll then "[\\s\\S]".toList else ['.']

/-- A text with its category escapes written out; if `dotAll`, its unescaped dots match any
    unit.  `inClass` says that the text stands between brackets. -/
def expand (inClass dotAll : Bool) : List Char → Traced (List Char)
  | [] => pure []
  | ['\\'] => pure ['\\']
  | '\\' :: c :: cs =>
    if c = 'p' ∨ c = 'P' then
      match _hread : read c cs with
      | .error feature => Traced.fail (.unsupportedFeature feature)
      | .ok (escape, rest) => do
        Traced.note (.unfolding (String.ofList escape.text))
        Traced.note .categoryTable
        let later ← expand inClass dotAll rest
        return escape.expanded inClass ++ later
    else do
      let later ← expand inClass dotAll cs
      return '\\' :: c :: later
  | c :: cs => do
    let later ← expand inClass dotAll cs
    return (if c = '.' then dotText dotAll else [c]) ++ later
termination_by cs => cs.length
decreasing_by
  · have := length_lt_of_read _hread
    simp only [List.length_cons]
    omega
  · simp only [List.length_cons]
    omega
  · simp

end RegexText.CategoryEscape
