/-
  RegexText/Text/Offset.lean
  ==========================
  **Byte offsets into a text that is read as a list of characters.**

  Every position and length that the library hands out counts the bytes of the
  UTF-8 form, while every scanner works on `List Char`.  `byteLength` is the
  bridge between the two, and `splitBytes` cuts a text at a byte offset.

  Main statements: the length of a concatenation is the sum of the lengths, a
  cut loses nothing, and a cut at the length of a front gives that front back.
-/

namespace RegexText.Text

/-- The number of bytes of the UTF-8 form. -/
def byteLength : List Char → Nat
  | [] => 0
  | c :: cs => c.utf8Size + byteLength cs

@[simp] theorem byteLength_nil : byteLength [] = 0 := rfl

@[simp] theorem byteLength_cons (c : Char) (cs : List Char) :
    byteLength (c :: cs) = c.utf8Size + byteLength cs := rfl

@[simp] theorem byteLength_append (as bs : List Char) :
    byteLength (as ++ bs) = byteLength as + byteLength bs := by
  induction as with
  | nil => simp
  | cons a as ih => simp [ih, Nat.add_assoc]

/-- The first characters that fit into `n` bytes, and the rest.  When `n` is the
    offset of a character the first part has exactly `n` bytes. -/
def splitBytes : Nat → List Char → List Char × List Char
  | _, [] => ([], [])
  | n, c :: cs =>
    if c.utf8Size ≤ n then
      let later := splitBytes (n - c.utf8Size) cs
      (c :: later.1, later.2)
    else ([], c :: cs)

/-- A cut loses nothing. -/
theorem splitBytes_append (n : Nat) (cs : List Char) :
    (splitBytes n cs).1 ++ (splitBytes n cs).2 = cs := by
  induction cs generalizing n with
  | nil => rfl
  | cons c cs ih =>
    unfold splitBytes
    split
    · simp [ih]
    · rfl

/-- Cutting at the length of a front gives the front and what follows it. -/
theorem splitBytes_byteLength (as bs : List Char) :
    splitBytes (byteLength as) (as ++ bs) = (as, bs) := by
  induction as with
  | nil =>
    cases bs with
    | nil => rfl
    | cons b bs =>
      have hb : ¬ b.utf8Size ≤ 0 := by have := b.utf8Size_pos; omega
      simp [splitBytes, hb]
  | cons a as ih => simp [splitBytes, ih]

/-- The text between two byte offsets. -/
def sliceBytes (start stop : Nat) (cs : List Char) : List Char :=
  (splitBytes (stop - start) (splitBytes start cs).2).1

/-- Between the offsets of its two ends a part of a text is found again. -/
theorem sliceBytes_append (as bs cs : List Char) :
    sliceBytes (byteLength as) (byteLength as + byteLength bs) (as ++ (bs ++ cs)) = bs := by
  rw [sliceBytes, Nat.add_sub_cancel_left, splitBytes_byteLength, splitBytes_byteLength]

end RegexText.Text
