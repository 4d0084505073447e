/-
  RegexText/Text/Numeral.lean
  ===========================
  **Numbers as text.**

  Character codes are written in hexadecimal, with or without padding, and
  sizes are read as unsigned decimals below `2 ^ 64`.
-/

namespace RegexText.Text

/-! ### Hexadecimal -/

/-- The lower-case hexadecimal digits of a number, without leading zeros. -/
def hexDigits (n : Nat) : List Char := Nat.toDigits 16 n

/-- Lower-case hexadecimal, filled up with zeros to at least `width` digits. -/
def paddedHex (width n : Nat) : List Char :=
  let digits := hexDigits n
  List.replicate (width - digits.length) '0' ++ digits

/-- Upper-case hexadecimal, filled up with zeros to at least `width` digits. -/
def paddedUpperHex (width n : Nat) : List Char := (paddedHex width n).map Char.toUpper

/-! ### Sizes -/

/-- The first number that does not fit a size, `2 ^ 64`. -/
def sizeBound : Nat := 18446744073709551616

/-- The number that a list of decimal digits stands for. -/
def digitsValue (digits : List Char) : Nat :=
  digits.foldl (fun value c => 10 * value + (c.toNat - '0'.toNat)) 0

/-- Read a non-empty run of decimal digits, and nothing else, as a size. -/
def readDigits? (cs : List Char) : Option Nat :=
  if !cs.isEmpty && cs.all Char.isDigit && digitsValue cs < sizeBound then some (digitsValue cs)
  else none

/-- Read a size: decimal digits after an optional plus sign. -/
def readSize? : List Char → Option Nat
  | '+' :: cs => readDigits? cs
  | cs => readDigits? cs

end RegexText.Text
