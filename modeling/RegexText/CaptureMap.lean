/-
  RegexText/CaptureMap.lean
  =========================
  **Named captures and their group numbers, in the order of first mention.**

  A name keeps the place where it was first recorded and takes the number that
  was recorded last.
-/

namespace RegexText

structure CaptureMap where
  entries : List (String × Nat)
deriving DecidableEq, Repr

namespace CaptureMap

def empty : CaptureMap := ⟨[]⟩

/-- Give a name its new number where it stands, or put it at the end. -/
def insertEntry (name : String) (index : Nat) : List (String × Nat) → List (String × Nat)
  | [] => [(name, index)]
  | (known, number) :: later =>
    if known = name then (known, index) :: later
    else (known, number) :: insertEntry name index later

def insert (captures : CaptureMap) (name : String) (index : Nat) : CaptureMap :=
  ⟨insertEntry name index captures.entries⟩

/-- The number of the group that a name stands for. -/
def get? (captures : CaptureMap) (name : String) : Option Nat :=
  captures.entries.lookup name

def size (captures : CaptureMap) : Nat := captures.entries.length

def isEmpty (captures : CaptureMap) : Bool := captures.entries.isEmpty

/-- The pairs, in the order in which the names were first recorded. -/
def toList (captures : CaptureMap) : List (String × Nat) := captures.entries

end CaptureMap

end RegexText
