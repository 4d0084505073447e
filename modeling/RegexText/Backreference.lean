/-
  RegexText/Backreference.lean
  ============================
  **Backreferences by name and by number, resolved to group numbers.**

  A reference is spelled `\k<n>`, `\k'n'`, `\k{n}` or `\g{n}` with a name, and
  `\gN`, `\g{N}`, `\g-N` or `\g{-N}` with a number; a negative number counts
  back from the next group that will open.  Only groups that have been opened
  before the reference can be meant.
-/
import RegexText.CaptureMap
import RegexText.Lexeme
import RegexText.Text.Numeral

namespace RegexText

open Text

inductive Backreference where
  | named (name : String)
  /-- The group with this number. -/
  | absolute (number : Nat)
  /-- The group that lies this far before the next one. -/
  | relative (count : Nat)
deriving DecidableEq, Repr

/-- The capturing groups that have been opened so far. -/
structure Captures where
  names : CaptureMap
  opened : Nat
deriving DecidableEq, Repr

namespace Captures

def none : Captures := ⟨.empty, 0⟩

def openGroup (captures : Captures) (name : Option String) : Captures :=
  let number := captures.opened + 1
  match name with
  | .none => ⟨captures.names, number⟩
  | .some name => ⟨captures.names.insert name number, number⟩

/-- The number of the group that a reference means, if that group has been opened. -/
def resolve? (captures : Captures) (reference : Backreference) : Option Nat :=
  let number : Option Nat :=
    match reference with
    | .named name => captures.names.get? name
    | .absolute number => some number
    | .relative count => some (captures.opened + 1 - count)
  number.filter fun number => 1 ≤ number && number ≤ captures.opened

end Captures

namespace Backreference

/-! ### Reading -/

/-- The character that closes a reference which starts with the given one.  Braces follow
    both letters, the other two pairs only `k`. -/
def closer? (letter c : Char) : Option Char :=
  if c = '{' then some '}'
  else if letter = 'k' ∧ c = '<' then some '>'
  else if letter = 'k' ∧ c = '\'' then some '\''
  else none

/-- A reference from the text that spells it.  Numbers follow the letter `g` only. -/
def ofText (letter : Char) : List Char → Option Backreference
  | '-' :: count => if letter = 'g' then (readSize? count).map .relative else none
  | c :: cs =>
    if c.isDigit then
      if letter = 'g' then (readDigits? (c :: cs)).map .absolute else none
    else if (c :: cs).all Lexeme.isNameChar then some (.named (String.ofList (c :: cs)))
    else none
  | [] => none

/-- A number without braces: an optional hyphen and all the digits after it. -/
def splitNumber : List Char → List Char × List Char
  | '-' :: cs => ('-' :: cs.takeWhile Char.isDigit, cs.dropWhile Char.isDigit)
  | cs => (cs.takeWhile Char.isDigit, cs.dropWhile Char.isDigit)

/-- The text of a reference that is closed by `close`, and the rest. -/
def splitClosed (close : Char) (cs : List Char) : Option (List Char × List Char) :=
  match cs.dropWhile (· != close) with
  | [] => none
  | _ :: rest => some (cs.takeWhile (· != close), rest)

/-- The reference whose letter stands before `cs`, its spelling from the backslash on, and
    the rest. -/
def read (letter : Char) (cs : List Char) : Option (Backreference × List Char × List Char) :=
  match cs with
  | [] => none
  | c :: inner =>
    match closer? letter c with
    | some close => do
      let (text, rest) ← splitClosed close inner
      let reference ← ofText letter text
      return (reference, '\\' :: letter :: c :: text ++ [close], rest)
    | none =>
      if letter = 'g' then do
        let (text, rest) := splitNumber (c :: inner)
        let reference ← ofText letter text
        return (reference, '\\' :: letter :: text, rest)
      else none

/-! ### Progress -/

theorem length_le_of_splitClosed {close : Char} {cs text rest : List Char}
    (h : splitClosed close cs = some (text, rest)) : rest.length ≤ cs.length := by
  unfold splitClosed at h
  split at h
  · simp at h
  · rename_i hdrop
    obtain ⟨_, rfl⟩ := Prod.mk.inj (Option.some.inj h)
    have hle := (List.dropWhile_sublist (l := cs) (· != close)).length_le
    rw [hdrop] at hle
    simp only [List.length_cons] at hle
    omega

theorem length_splitNumber_le (cs : List Char) : (splitNumber cs).2.length ≤ cs.length := by
  unfold splitNumber
  split
  · rename_i cs
    have := (List.dropWhile_sublist (l := cs) Char.isDigit).length_le
    simp only [List.length_cons]
    omega
  · exact (List.dropWhile_sublist (l := cs) Char.isDigit).length_le

/-- What follows a reference is no longer than what follows its letter. -/
theorem length_le_of_read {letter : Char} {cs text rest : List Char} {reference : Backreference}
    (h : read letter cs = some (reference, text, rest)) : rest.length ≤ cs.length := by
  unfold read at h
  split at h
  · simp at h
  · rename_i c inner
    split at h
    · simp only [Option.bind_eq_bind, Option.bind_eq_some_iff, Option.pure_def,
        Option.some.injEq, Prod.mk.injEq] at h
      obtain ⟨⟨inside, after⟩, hs, _, _, _, _, rfl⟩ := h
      have := length_le_of_splitClosed hs
      simp only [List.length_cons]
      omega
    · split at h
      · have hle := length_splitNumber_le (c :: inner)
        simp only [Option.bind_eq_bind, Option.bind_eq_some_iff, Option.pure_def,
          Option.some.injEq, Prod.mk.injEq] at h
        obtain ⟨_, _, _, _, rfl⟩ := h
        exact hle
      · simp at h

/-! ### Writing -/

/-- A reference to a group by its number; it is wrapped where a digit follows, which would
    otherwise belong to the number. -/
def numbered (number : Nat) (after : List Char) : List Char :=
  let plain := '\\' :: Nat.toDigits 10 number
  match after with
  | c :: _ => if c.isDigit then "(?:".toList ++ plain ++ [')'] else plain
  | [] => plain

/-- The text before the first unescaped `\k` or `\g`, and, if there is one, its letter and
    what follows it. -/
def splitFirst : List Char → List Char × Option (Char × List Char)
  | [] => ([], none)
  | ['\\'] => (['\\'], none)
  | '\\' :: c :: cs =>
    if c = 'k' ∨ c = 'g' then ([], some (c, cs))
    else
      let (before, found) := splitFirst cs
      ('\\' :: c :: before, found)
  | c :: cs =>
    let (before, found) := splitFirst cs
    (c :: before, found)

/-- What follows a reference's letter is shorter than the text. -/
theorem length_lt_of_splitFirst {cs before after : List Char} {letter : Char}
    (h : splitFirst cs = (before, some (letter, after))) : after.length < cs.length := by
  fun_induction splitFirst cs generalizing before with
  | case1 => simp at h
  | case2 => simp at h
  | case3 c cs hc =>
    simp only [Prod.mk.injEq, Option.some.injEq] at h
    obtain ⟨_, _, rfl⟩ := h
    simp only [List.length_cons]
    omega
  | case4 c cs hc front found hs ih =>
    simp only [Prod.mk.injEq] at h
    have := ih (hs.trans (Prod.ext rfl h.2))
    simp only [List.length_cons]
    omega
  | case5 c cs _ _ front found hs ih =>
    simp only [Prod.mk.injEq] at h
    have := ih (hs.trans (Prod.ext rfl h.2))
    simp only [List.length_cons]
    omega

end Backreference

end RegexText
