/-
  RegexText/Unicode/Category.lean
  ===============================
  **General categories and their names.**

  Every code point has exactly one of thirty general categories.  A name stands
  for one category (`Lu`), for a major class (`L`), or for the cased letters
  (`LC`, also spelled `L&`).
-/

namespace RegexText.Unicode

/-- The general categories, called by their standard two-letter abbreviations. -/
inductive Category where
  /-- Upper-case, lower-case, title-case, modifier and other letters. -/
  | lu | ll | lt | lm | lo
  /-- Non-spacing, spacing and enclosing marks. -/
  | mn | mc | me
  /-- Decimal digits, letter numbers and other numbers. -/
  | nd | nl | no
  /-- Connectors, dashes, opening, closing, initial, final and other punctuation. -/
  | pc | pd | ps | pe | pi | pf | po
  /-- Mathematical, currency, modifier and other symbols. -/
  | sm | sc | sk | so
  /-- Spaces, line separators and paragraph separators. -/
  | zs | zl | zp
  /-- Controls, format characters, surrogates, private use and unassigned codes. -/
  | cc | cf | cs | co | cn
deriving DecidableEq, Repr

namespace Category

/-! ### Major classes -/

def letters : List Category := [.lu, .ll, .lt, .lm, .lo]

def casedLetters : List Category := [.lu, .ll, .lt]

def marks : List Category := [.mn, .mc, .me]

def numbers : List Category := [.nd, .nl, .no]

def punctuation : List Category := [.pc, .pd, .ps, .pe, .pi, .pf, .po]

def symbols : List Category := [.sm, .sc, .sk, .so]

def separators : List Category := [.zs, .zl, .zp]

def others : List Category := [.cc, .cf, .cs, .co, .cn]

/-- The categories that a name stands for; `none` for a name that is no general
    category.  Names are case sensitive. -/
def named? : String → Option (List Category)
  | "L" => some letters
  | "LC" => some casedLetters
  | "L&" => some casedLetters
  | "Lu" => some [.lu]
  | "Ll" => some [.ll]
  | "Lt" => some [.lt]
  | "Lm" => some [.lm]
  | "Lo" => some [.lo]
  | "M" => some marks
  | "Mn" => some [.mn]
  | "Mc" => some [.mc]
  | "Me" => some [.me]
  | "N" => some numbers
  | "Nd" => some [.nd]
  | "Nl" => some [.nl]
  | "No" => some [.no]
  | "P" => some punctuation
  | "Pc" => some [.pc]
  | "Pd" => some [.pd]
  | "Ps" => some [.ps]
  | "Pe" => some [.pe]
  | "Pi" => some [.pi]
  | "Pf" => some [.pf]
  | "Po" => some [.po]
  | "S" => some symbols
  | "Sm" => some [.sm]
  | "Sc" => some [.sc]
  | "Sk" => some [.sk]
  | "So" => some [.so]
  | "Z" => some separators
  | "Zs" => some [.zs]
  | "Zl" => some [.zl]
  | "Zp" => some [.zp]
  | "C" => some others
  | "Cc" => some [.cc]
  | "Cf" => some [.cf]
  | "Cs" => some [.cs]
  | "Co" => some [.co]
  | "Cn" => some [.cn]
  | _ => none

end Category

/-! ### Tables of runs -/

/-- A table of categories: consecutive runs of codes, each given by its length and
    its category.  Being lengths, the runs cover their codes without gap or overlap. -/
abbrev CategoryRuns := List (Nat × Category)

/-- The category at `offset` codes into a table; `cn` behind its end. -/
def CategoryRuns.at : CategoryRuns → Nat → Category
  | [], _ => .cn
  | (length, category) :: later, offset =>
    if offset < length then category else CategoryRuns.at later (offset - length)

end RegexText.Unicode
