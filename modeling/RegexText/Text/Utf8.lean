/-
  RegexText/Text/Utf8.lean
  ========================
  **Decoding UTF-8, with the point of refusal.**

  Only shortest forms of Unicode scalar values are accepted.  A refusal tells
  the offset of the sequence that is wrong and how much of it is wrong: the
  longest part that could still have begun a character, or, when the bytes end
  inside such a part, that the sequence is incomplete.
-/

namespace RegexText.Text

/-- Why some bytes are not UTF-8. -/
inductive Utf8Refusal where
  /-- The `length` bytes at offset `index` begin no character. -/
  | invalid (length index : Nat)
  /-- The bytes end inside the character that starts at offset `index`. -/
  | incomplete (index : Nat)
deriving DecidableEq, Repr

namespace Utf8Refusal

def message : Utf8Refusal → String
  | .invalid length index => s!"invalid utf-8 sequence of {length} bytes from index {index}"
  | .incomplete index => s!"incomplete utf-8 byte sequence from index {index}"

end Utf8Refusal

/-- A byte that may follow the first byte of a sequence: `10xxxxxx`. -/
def isContinuation (b : UInt8) : Bool := 0x80 ≤ b && b ≤ 0xBF

/-- The first byte of a sequence of two bytes. -/
def leadsTwo (b : UInt8) : Bool := 0xC2 ≤ b && b ≤ 0xDF

/-- The first byte of a sequence of three bytes. -/
def leadsThree (b : UInt8) : Bool := 0xE0 ≤ b && b ≤ 0xEF

/-- The first byte of a sequence of four bytes. -/
def leadsFour (b : UInt8) : Bool := 0xF0 ≤ b && b ≤ 0xF4

/-- May `b` be the second byte after `lead`?  After the extreme leads the range is
    narrower, which rules out overlong forms, surrogates and codes above `10FFFF`. -/
def secondFits (lead b : UInt8) : Bool :=
  if lead = 0xE0 then 0xA0 ≤ b && b ≤ 0xBF
  else if lead = 0xED then 0x80 ≤ b && b ≤ 0x9F
  else if lead = 0xF0 then 0x90 ≤ b && b ≤ 0xBF
  else if lead = 0xF4 then 0x80 ≤ b && b ≤ 0x8F
  else isContinuation b

/-- The six low bits of a continuation byte. -/
def payload (b : UInt8) : Nat := b.toNat % 64

/-- Decode the bytes from offset `index` on. -/
def decodeFrom (index : Nat) : List UInt8 → Except Utf8Refusal (List Char)
  | [] => .ok []
  | a :: rest =>
    if a < 0x80 then do
      let cs ← decodeFrom (index + 1) rest
      return Char.ofNat a.toNat :: cs
    else if leadsTwo a then
      match rest with
      | [] => .error (.incomplete index)
      | b :: rest =>
        if !isContinuation b then .error (.invalid 1 index)
        else do
          let cs ← decodeFrom (index + 2) rest
          return Char.ofNat (a.toNat % 32 * 64 + payload b) :: cs
    else if leadsThree a then
      match rest with
      | [] => .error (.incomplete index)
      | [b] => if !secondFits a b then .error (.invalid 1 index) else .error (.incomplete index)
      | b :: c :: rest =>
        if !secondFits a b then .error (.invalid 1 index)
        else if !isContinuation c then .error (.invalid 2 index)
        else do
          let cs ← decodeFrom (index + 3) rest
          return Char.ofNat ((a.toNat % 16 * 64 + payload b) * 64 + payload c) :: cs
    else if leadsFour a then
      match rest with
      | [] => .error (.incomplete index)
      | [b] => if !secondFits a b then .error (.invalid 1 index) else .error (.incomplete index)
      | [b, c] =>
        if !secondFits a b then .error (.invalid 1 index)
        else if !isContinuation c then .error (.invalid 2 index)
        else .error (.incomplete index)
      | b :: c :: d :: rest =>
        if !secondFits a b then .error (.invalid 1 index)
        else if !isContinuation c then .error (.invalid 2 index)
        else if !isContinuation d then .error (.invalid 3 index)
        else do
          let cs ← decodeFrom (index + 4) rest
          return Char.ofNat (((a.toNat % 8 * 64 + payload b) * 64 + payload c) * 64 + payload d) :: cs
    else .error (.invalid 1 index)

/-- Decode a whole byte sequence. -/
def decodeUtf8 (bytes : List UInt8) : Except Utf8Refusal String :=
  (decodeFrom 0 bytes).map String.ofList

end RegexText.Text
