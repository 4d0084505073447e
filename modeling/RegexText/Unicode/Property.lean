/-
  RegexText/Unicode/Property.lean
  ===============================
  **Classes of characters that are not general categories.**

  White space, alphabetic characters, characters that extend the one before
  them, and characters that can be shown as they are.  Each class is a union of
  general categories and of ranges that the standard adds to them.

  The category tables, which the category escapes are written out from, stay at
  Unicode 16.0.  The classes follow Unicode 17.0, so they are stated over
  `currentCategory`, which adds the characters that are new in it.
-/
import RegexText.Unicode.Category
import RegexText.Unicode.CategoryRuns.Alphabetic
import RegexText.Unicode.CategoryRuns.Ideographic
import RegexText.Unicode.CategoryRuns.Supplementary

namespace RegexText.Unicode

open CategoryRuns

/-! ### The category of a code -/

/-- The categories of the codes `0000` to `FFFF`, in order.  Surrogates are `cs`. -/
def basicPlane : CategoryRuns :=
  codes0000 ++ codes0400 ++ codes0800 ++ codes0C00 ++ codes1000 ++ codes1800 ++ codes2000 ++
    codes2E00 ++ codesA000 ++ codesD800

/-- The categories of the codes `10000` to `10FFFF`, in order. -/
def supplementaryPlanes : CategoryRuns :=
  codes10000 ++ codes11000 ++ codes13000 ++ codes1D000 ++ codes1E000 ++ codes1F000 ++ codes20000

def categoryOf (code : Nat) : Category :=
  if code < 0x10000 then basicPlane.at code else supplementaryPlanes.at (code - 0x10000)

/-- The codes that Unicode 17.0 assigns and 16.0 leaves unassigned: ranges, ends included,
    and their category. -/
def newlyAssigned : List (Nat × Nat × Category) :=
  [(0x088F, 0x088F, .lo), (0x0C5C, 0x0C5C, .lo), (0x0CDC, 0x0CDC, .lo), (0x1ACF, 0x1ADD, .mn),
   (0x1AE0, 0x1AEB, .mn), (0x20C1, 0x20C1, .sc), (0x2B96, 0x2B96, .so), (0xA7CE, 0xA7CE, .lu),
   (0xA7CF, 0xA7CF, .ll), (0xA7D2, 0xA7D2, .lu), (0xA7D4, 0xA7D4, .lu), (0xA7F1, 0xA7F1, .lm),
   (0xFBC3, 0xFBD2, .so), (0xFD90, 0xFD91, .so), (0xFDC8, 0xFDCE, .so), (0x10940, 0x10959, .lo),
   (0x10EC5, 0x10EC5, .lm), (0x10EC6, 0x10EC7, .lo), (0x10ED0, 0x10ED0, .po),
   (0x10ED1, 0x10ED8, .so), (0x10EFA, 0x10EFB, .mn), (0x11B60, 0x11B60, .mn),
   (0x11B61, 0x11B61, .mc), (0x11B62, 0x11B64, .mn), (0x11B65, 0x11B65, .mc),
   (0x11B66, 0x11B66, .mn), (0x11B67, 0x11B67, .mc), (0x11DB0, 0x11DD8, .lo),
   (0x11DD9, 0x11DD9, .lm), (0x11DDA, 0x11DDB, .lo), (0x11DE0, 0x11DE9, .nd),
   (0x16EA0, 0x16EB8, .lu), (0x16EBB, 0x16ED3, .ll), (0x16FF2, 0x16FF3, .lm),
   (0x16FF4, 0x16FF6, .nl), (0x187F8, 0x187FF, .lo), (0x18D09, 0x18D1E, .lo),
   (0x18D80, 0x18DF2, .lo), (0x1CCFA, 0x1CCFC, .so), (0x1CEBA, 0x1CED0, .so),
   (0x1CEE0, 0x1CEEF, .so), (0x1CEF0, 0x1CEF0, .sm), (0x1E6C0, 0x1E6DE, .lo),
   (0x1E6E0, 0x1E6E2, .lo), (0x1E6E3, 0x1E6E3, .mn), (0x1E6E4, 0x1E6E5, .lo),
   (0x1E6E6, 0x1E6E6, .mn), (0x1E6E7, 0x1E6ED, .lo), (0x1E6EE, 0x1E6EF, .mn),
   (0x1E6F0, 0x1E6F4, .lo), (0x1E6F5, 0x1E6F5, .mn), (0x1E6FE, 0x1E6FE, .lo),
   (0x1E6FF, 0x1E6FF, .lm), (0x1F6D8, 0x1F6D8, .so), (0x1F777, 0x1F77A, .so),
   (0x1F8D0, 0x1F8D8, .sm), (0x1FA54, 0x1FA57, .so), (0x1FA8A, 0x1FA8A, .so),
   (0x1FA8E, 0x1FA8E, .so), (0x1FAC8, 0x1FAC8, .so), (0x1FACD, 0x1FACD, .so),
   (0x1FAEA, 0x1FAEA, .so), (0x1FAEF, 0x1FAEF, .so), (0x1FBFA, 0x1FBFA, .so),
   (0x2B73A, 0x2B73F, .lo), (0x2CEA2, 0x2CEAD, .lo), (0x323B0, 0x33479, .lo)]

/-- The general category of a code point, with the newly assigned codes. -/
def currentCategory (code : Nat) : Category :=
  match newlyAssigned.find? fun (first, last, _) => first ≤ code && code ≤ last with
  | some (_, _, category) => category
  | none => categoryOf code

/-- Is a code in one of some ranges, ends included? -/
def inRanges (ranges : List (Nat × Nat)) (code : Nat) : Bool :=
  ranges.any fun (first, last) => first ≤ code && code ≤ last

/-! ### White space -/

/-- White space in the sense of the standard: the separators, the controls from tab to
    carriage return, and the next-line control. -/
def isWhiteSpace (c : Char) : Bool :=
  Category.separators.contains (currentCategory c.toNat) ||
    inRanges [(0x0009, 0x000D), (0x0085, 0x0085)] c.toNat

/-! ### Letters and numbers -/

/-- Alphabetic characters that are neither letters nor letter numbers: mostly vowel
    signs and circled letters. -/
def otherAlphabetic : List (Nat × Nat) :=
  [(0x0345, 0x0345), (0x0363, 0x036F), (0x05B0, 0x05BD), (0x05BF, 0x05BF), (0x05C1, 0x05C2),
   (0x05C4, 0x05C5), (0x05C7, 0x05C7), (0x0610, 0x061A), (0x064B, 0x0657), (0x0659, 0x065F),
   (0x0670, 0x0670), (0x06D6, 0x06DC), (0x06E1, 0x06E4), (0x06E7, 0x06E8), (0x06ED, 0x06ED),
   (0x0711, 0x0711), (0x0730, 0x073F), (0x07A6, 0x07B0), (0x0816, 0x0817), (0x081B, 0x0823),
   (0x0825, 0x0827), (0x0829, 0x082C), (0x0897, 0x0897), (0x08D4, 0x08DF), (0x08E3, 0x08E9),
   (0x08F0, 0x0903), (0x093A, 0x093B), (0x093E, 0x094C), (0x094E, 0x094F), (0x0955, 0x0957),
   (0x0962, 0x0963), (0x0981, 0x0983), (0x09BE, 0x09C4), (0x09C7, 0x09C8), (0x09CB, 0x09CC),
   (0x09D7, 0x09D7), (0x09E2, 0x09E3), (0x0A01, 0x0A03), (0x0A3E, 0x0A42), (0x0A47, 0x0A48),
   (0x0A4B, 0x0A4C), (0x0A51, 0x0A51), (0x0A70, 0x0A71), (0x0A75, 0x0A75), (0x0A81, 0x0A83),
   (0x0ABE, 0x0AC5), (0x0AC7, 0x0AC9), (0x0ACB, 0x0ACC), (0x0AE2, 0x0AE3), (0x0AFA, 0x0AFC),
   (0x0B01, 0x0B03), (0x0B3E, 0x0B44), (0x0B47, 0x0B48), (0x0B4B, 0x0B4C), (0x0B56, 0x0B57),
   (0x0B62, 0x0B63), (0x0B82, 0x0B82), (0x0BBE, 0x0BC2), (0x0BC6, 0x0BC8), (0x0BCA, 0x0BCC),
   (0x0BD7, 0x0BD7), (0x0C00, 0x0C04), (0x0C3E, 0x0C44), (0x0C46, 0x0C48), (0x0C4A, 0x0C4C),
   (0x0C55, 0x0C56), (0x0C62, 0x0C63), (0x0C81, 0x0C83), (0x0CBE, 0x0CC4), (0x0CC6, 0x0CC8),
   (0x0CCA, 0x0CCC), (0x0CD5, 0x0CD6), (0x0CE2, 0x0CE3), (0x0CF3, 0x0CF3), (0x0D00, 0x0D03),
   (0x0D3E, 0x0D44), (0x0D46, 0x0D48), (0x0D4A, 0x0D4C), (0x0D57, 0x0D57), (0x0D62, 0x0D63),
   (0x0D81, 0x0D83), (0x0DCF, 0x0DD4), (0x0DD6, 0x0DD6), (0x0DD8, 0x0DDF), (0x0DF2, 0x0DF3),
   (0x0E31, 0x0E31), (0x0E34, 0x0E3A), (0x0E4D, 0x0E4D), (0x0EB1, 0x0EB1), (0x0EB4, 0x0EB9),
   (0x0EBB, 0x0EBC), (0x0ECD, 0x0ECD), (0x0F71, 0x0F83), (0x0F8D, 0x0F97), (0x0F99, 0x0FBC),
   (0x102B, 0x1036), (0x1038, 0x1038), (0x103B, 0x103E), (0x1056, 0x1059), (0x105E, 0x1060),
   (0x1062, 0x1064), (0x1067, 0x106D), (0x1071, 0x1074), (0x1082, 0x108D), (0x108F, 0x108F),
   (0x109A, 0x109D), (0x1712, 0x1713), (0x1732, 0x1733), (0x1752, 0x1753), (0x1772, 0x1773),
   (0x17B6, 0x17C8), (0x1885, 0x1886), (0x18A9, 0x18A9), (0x1920, 0x192B), (0x1930, 0x1938),
   (0x1A17, 0x1A1B), (0x1A55, 0x1A5E), (0x1A61, 0x1A74), (0x1ABF, 0x1AC0), (0x1ACC, 0x1ACE),
   (0x1B00, 0x1B04), (0x1B35, 0x1B43), (0x1B80, 0x1B82), (0x1BA1, 0x1BA9), (0x1BAC, 0x1BAD),
   (0x1BE7, 0x1BF1), (0x1C24, 0x1C36), (0x1DD3, 0x1DF4), (0x24B6, 0x24E9), (0x2DE0, 0x2DFF),
   (0xA674, 0xA67B), (0xA69E, 0xA69F), (0xA802, 0xA802), (0xA80B, 0xA80B), (0xA823, 0xA827),
   (0xA880, 0xA881), (0xA8B4, 0xA8C3), (0xA8C5, 0xA8C5), (0xA8FF, 0xA8FF), (0xA926, 0xA92A),
   (0xA947, 0xA952), (0xA980, 0xA983), (0xA9B4, 0xA9BF), (0xA9E5, 0xA9E5), (0xAA29, 0xAA36),
   (0xAA43, 0xAA43), (0xAA4C, 0xAA4D), (0xAA7B, 0xAA7D), (0xAAB0, 0xAAB0), (0xAAB2, 0xAAB4),
   (0xAAB7, 0xAAB8), (0xAABE, 0xAABE), (0xAAEB, 0xAAEF), (0xAAF5, 0xAAF5), (0xABE3, 0xABEA),
   (0xFB1E, 0xFB1E), (0x10376, 0x1037A), (0x10A01, 0x10A03), (0x10A05, 0x10A06),
   (0x10A0C, 0x10A0F), (0x10D24, 0x10D27), (0x10D69, 0x10D69), (0x10EAB, 0x10EAC),
   (0x10EFA, 0x10EFC), (0x11000, 0x11002), (0x11038, 0x11045), (0x11073, 0x11074),
   (0x11080, 0x11082), (0x110B0, 0x110B8), (0x110C2, 0x110C2), (0x11100, 0x11102),
   (0x11127, 0x11132), (0x11145, 0x11146), (0x11180, 0x11182), (0x111B3, 0x111BF),
   (0x111CE, 0x111CF), (0x1122C, 0x11234), (0x11237, 0x11237), (0x1123E, 0x1123E),
   (0x11241, 0x11241), (0x112DF, 0x112E8), (0x11300, 0x11303), (0x1133E, 0x11344),
   (0x11347, 0x11348), (0x1134B, 0x1134C), (0x11357, 0x11357), (0x11362, 0x11363),
   (0x113B8, 0x113C0), (0x113C2, 0x113C2), (0x113C5, 0x113C5), (0x113C7, 0x113CA),
   (0x113CC, 0x113CD), (0x11435, 0x11441), (0x11443, 0x11445), (0x114B0, 0x114C1),
   (0x115AF, 0x115B5), (0x115B8, 0x115BE), (0x115DC, 0x115DD), (0x11630, 0x1163E),
   (0x11640, 0x11640), (0x116AB, 0x116B5), (0x1171D, 0x1172A), (0x1182C, 0x11838),
   (0x11930, 0x11935), (0x11937, 0x11938), (0x1193B, 0x1193C), (0x11940, 0x11940),
   (0x11942, 0x11942), (0x119D1, 0x119D7), (0x119DA, 0x119DF), (0x119E4, 0x119E4),
   (0x11A01, 0x11A0A), (0x11A35, 0x11A39), (0x11A3B, 0x11A3E), (0x11A51, 0x11A5B),
   (0x11A8A, 0x11A97), (0x11B60, 0x11B67), (0x11C2F, 0x11C36), (0x11C38, 0x11C3E),
   (0x11C92, 0x11CA7), (0x11CA9, 0x11CB6), (0x11D31, 0x11D36), (0x11D3A, 0x11D3A),
   (0x11D3C, 0x11D3D), (0x11D3F, 0x11D41), (0x11D43, 0x11D43), (0x11D47, 0x11D47),
   (0x11D8A, 0x11D8E), (0x11D90, 0x11D91), (0x11D93, 0x11D96), (0x11EF3, 0x11EF6),
   (0x11F00, 0x11F01), (0x11F03, 0x11F03), (0x11F34, 0x11F3A), (0x11F3E, 0x11F40),
   (0x1611E, 0x1612E), (0x16F4F, 0x16F4F), (0x16F51, 0x16F87), (0x16F8F, 0x16F92),
   (0x16FF0, 0x16FF1), (0x1BC9E, 0x1BC9E), (0x1E000, 0x1E006), (0x1E008, 0x1E018),
   (0x1E01B, 0x1E021), (0x1E023, 0x1E024), (0x1E026, 0x1E02A), (0x1E08F, 0x1E08F),
   (0x1E6E3, 0x1E6E3), (0x1E6E6, 0x1E6E6), (0x1E6EE, 0x1E6EF), (0x1E6F5, 0x1E6F5),
   (0x1E947, 0x1E947), (0x1F130, 0x1F149), (0x1F150, 0x1F169), (0x1F170, 0x1F189)]

/-- Letters, letter numbers, and the other alphabetic characters. -/
def isAlphabetic (c : Char) : Bool :=
  let category := currentCategory c.toNat
  Category.letters.contains category || category == .nl || inRanges otherAlphabetic c.toNat

/-- Alphabetic characters and numbers. -/
def isAlphanumeric (c : Char) : Bool :=
  isAlphabetic c || Category.numbers.contains (currentCategory c.toNat)

/-! ### Showing characters -/

/-- Characters other than non-spacing and enclosing marks that extend the character
    before them: spacing marks that are half of a vowel sign or silence a vowel, and a
    few controls.  The halfwidth sound marks `FF9E` and `FF9F` are not among them: each
    is as wide as a letter and can be seen on its own. -/
def otherGraphemeExtend : List (Nat × Nat) :=
  [(0x09BE, 0x09BE), (0x09D7, 0x09D7), (0x0B3E, 0x0B3E), (0x0B57, 0x0B57), (0x0BBE, 0x0BBE),
   (0x0BD7, 0x0BD7), (0x0CC0, 0x0CC0), (0x0CC2, 0x0CC2), (0x0CC7, 0x0CC8), (0x0CCA, 0x0CCB),
   (0x0CD5, 0x0CD6), (0x0D3E, 0x0D3E), (0x0D57, 0x0D57), (0x0DCF, 0x0DCF), (0x0DDF, 0x0DDF),
   (0x1715, 0x1715), (0x1734, 0x1734), (0x1B35, 0x1B35), (0x1B3B, 0x1B3B), (0x1B3D, 0x1B3D),
   (0x1B43, 0x1B44), (0x1BAA, 0x1BAA), (0x1BF2, 0x1BF3), (0x200C, 0x200C), (0x302E, 0x302F),
   (0xA953, 0xA953), (0xA9C0, 0xA9C0), (0x111C0, 0x111C0), (0x11235, 0x11235), (0x1133E, 0x1133E),
   (0x1134D, 0x1134D), (0x11357, 0x11357), (0x113B8, 0x113B8), (0x113C2, 0x113C2),
   (0x113C5, 0x113C5), (0x113C7, 0x113C9), (0x113CF, 0x113CF), (0x114B0, 0x114B0),
   (0x114BD, 0x114BD), (0x115AF, 0x115AF), (0x116B6, 0x116B6), (0x11930, 0x11930),
   (0x1193D, 0x1193D), (0x11F41, 0x11F41), (0x16FF0, 0x16FF1), (0x1D165, 0x1D166),
   (0x1D16D, 0x1D172), (0xE0020, 0xE007F)]

/-- Does a character extend the one before it, so that it cannot stand alone? -/
def extendsGrapheme (c : Char) : Bool :=
  let category := currentCategory c.toNat
  category == .mn || category == .me || inRanges otherGraphemeExtend c.toNat

/-- Letters without a shape: the fillers, which hold the place of a Hangul letter that is
    not there.  They are the only letters that a display ignores by default. -/
def fillers : List (Nat × Nat) :=
  [(0x115F, 0x1160), (0x3164, 0x3164), (0xFFA0, 0xFFA0)]

/-- The space and every character that is neither a separator, nor one of the
    categories without a shape, nor a filler. -/
def isPrintable (c : Char) : Bool :=
  let category := currentCategory c.toNat
  c == ' ' || !(Category.separators.contains category || Category.others.contains category ||
    inRanges fillers c.toNat)

end RegexText.Unicode
