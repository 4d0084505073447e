/-
  RegexText/Unicode/CategoryRuns/Ideographic.lean
  ===============================================
  **General categories of the codes `2E00` to `FFFF`.**

  East Asian scripts, surrogates, private use and compatibility forms, by runs
  of equal category (Unicode 16.0).  Each table starts where the one before it
  ends.
-/
import RegexText.Unicode.Category

namespace RegexText.Unicode.CategoryRuns

/-- The codes `2E00` to `9FFF`: from CJK symbols through unified ideographs. -/
def codes2E00 : CategoryRuns :=
  [(2, .po), (1, .pi), (1, .pf), (1, .pi), (1, .pf), (3, .po), (1, .pi), (1, .pf), (1, .po),
   (1, .pi), (1, .pf), (9, .po), (1, .pd), (2, .po), (1, .pd), (1, .po), (1, .pi), (1, .pf),
   (2, .po), (1, .pi), (1, .pf), (1, .ps), (1, .pe), (1, .ps), (1, .pe), (1, .ps), (1, .pe),
   (1, .ps), (1, .pe), (5, .po), (1, .lm), (10, .po), (2, .pd), (4, .po), (1, .pd), (1, .po),
   (1, .ps), (13, .po), (2, .so), (3, .po), (1, .ps), (1, .pe), (1, .ps), (1, .pe), (1, .ps),
   (1, .pe), (1, .ps), (1, .pe), (1, .pd), (34, .cn), (26, .so), (1, .cn), (89, .so), (12, .cn),
   (214, .so), (26, .cn), (16, .so), (1, .zs), (3, .po), (1, .so), (1, .lm), (1, .lo), (1, .nl),
   (1, .ps), (1, .pe), (1, .ps), (1, .pe), (1, .ps), (1, .pe), (1, .ps), (1, .pe), (1, .ps),
   (1, .pe), (2, .so), (1, .ps), (1, .pe), (1, .ps), (1, .pe), (1, .ps), (1, .pe), (1, .ps),
   (1, .pe), (1, .pd), (1, .ps), (2, .pe), (1, .so), (9, .nl), (4, .mn), (2, .mc), (1, .pd),
   (5, .lm), (2, .so), (3, .nl), (1, .lm), (1, .lo), (1, .po), (2, .so), (1, .cn), (86, .lo),
   (2, .cn), (2, .mn), (2, .sk), (2, .lm), (1, .lo), (1, .pd), (90, .lo), (1, .po), (3, .lm),
   (1, .lo), (5, .cn), (43, .lo), (1, .cn), (94, .lo), (1, .cn), (2, .so), (4, .no), (10, .so),
   (32, .lo), (38, .so), (9, .cn), (1, .so), (16, .lo), (31, .so), (1, .cn), (10, .no),
   (30, .so), (8, .no), (1, .so), (15, .no), (32, .so), (10, .no), (39, .so), (15, .no),
   (320, .so), (6592, .lo), (64, .so), (20992, .lo)]

/-- The codes `A000` to `D7FF`: from Yi through Hangul syllables. -/
def codesA000 : CategoryRuns :=
  [(21, .lo), (1, .lm), (1143, .lo), (3, .cn), (55, .so), (9, .cn), (40, .lo), (6, .lm), (2, .po),
   (268, .lo), (1, .lm), (3, .po), (16, .lo), (10, .nd), (2, .lo), (20, .cn), (1, .lu), (1, .ll),
   (1, .lu), (1, .ll), (1, .lu), (1, .ll), (1, .lu), (1, .ll), (1, .lu), (1, .ll), (1, .lu),
   (1, .ll), (1, .lu), (1, .ll), (1, .lu), (1, .ll), (1, .lu), (1, .ll), (1, .lu), (1, .ll),
   (1, .lu), (1, .ll), (1, .lu), (1, .ll), (1, .lu), (1, .ll), (1, .lu), (1, .ll), (1, .lu),
   (1, .ll), (1, .lu), (1, .ll), (1, .lu), (1, .ll), (1, .lu), (1, .ll), (1, .lu), (1, .ll),
   (1, .lu), (1, .ll), (1, .lu), (1, .ll), (1, .lu), (1, .ll), (1, .lu), (1, .ll), (1, .lo),
   (1, .mn), (3, .me), (1, .po), (10, .mn), (1, .po), (1, .lm), (1, .lu), (1, .ll), (1, .lu),
   (1, .ll), (1, .lu), (1, .ll), (1, .lu), (1, .ll), (1, .lu), (1, .ll), (1, .lu), (1, .ll),
   (1, .lu), (1, .ll), (1, .lu), (1, .ll), (1, .lu), (1, .ll), (1, .lu), (1, .ll), (1, .lu),
   (1, .ll), (1, .lu), (1, .ll), (1, .lu), (1, .ll), (1, .lu), (1, .ll), (2, .lm), (2, .mn),
   (70, .lo), (10, .nl), (2, .mn), (6, .po), (8, .cn), (23, .sk), (9, .lm), (2, .sk), (1, .lu),
   (1, .ll), (1, .lu), (1, .ll), (1, .lu), (1, .ll), (1, .lu), (1, .ll), (1, .lu), (1, .ll),
   (1, .lu), (1, .ll), (1, .lu), (3, .ll), (1, .lu), (1, .ll), (1, .lu), (1, .ll), (1, .lu),
   (1, .ll), (1, .lu), (1, .ll), (1, .lu), (1, .ll), (1, .lu), (1, .ll), (1, .lu), (1, .ll),
   (1, .lu), (1, .ll), (1, .lu), (1, .ll), (1, .lu), (1, .ll), (1, .lu), (1, .ll), (1, .lu),
   (1, .ll), (1, .lu), (1, .ll), (1, .lu), (1, .ll), (1, .lu), (1, .ll), (1, .lu), (1, .ll),
   (1, .lu), (1, .ll), (1, .lu), (1, .ll), (1, .lu), (1, .ll), (1, .lu), (1, .ll), (1, .lu),
   (1, .ll), (1, .lu), (1, .ll), (1, .lu), (1, .ll), (1, .lu), (1, .ll), (1, .lu), (1, .ll),
   (1, .lu), (1, .ll), (1, .lu), (1, .ll), (1, .lu), (1, .ll), (1, .lu), (1, .ll), (1, .lu),
   (1, .ll), (1, .lu), (1, .ll), (1, .lm), (8, .ll), (1, .lu), (1, .ll), (1, .lu), (1, .ll),
   (2, .lu), (1, .ll), (1, .lu), (1, .ll), (1, .lu), (1, .ll), (1, .lu), (1, .ll), (1, .lu),
   (1, .ll), (1, .lm), (2, .sk), (1, .lu), (1, .ll), (1, .lu), (1, .ll), (1, .lo), (1, .lu),
   (1, .ll), (1, .lu), (3, .ll), (1, .lu), (1, .ll), (1, .lu), (1, .ll), (1, .lu), (1, .ll),
   (1, .lu), (1, .ll), (1, .lu), (1, .ll), (1, .lu), (1, .ll), (1, .lu), (1, .ll), (1, .lu),
   (1, .ll), (1, .lu), (1, .ll), (1, .lu), (1, .ll), (5, .lu), (1, .ll), (5, .lu), (1, .ll),
   (1, .lu), (1, .ll), (1, .lu), (1, .ll), (1, .lu), (1, .ll), (1, .lu), (1, .ll), (1, .lu),
   (1, .ll), (1, .lu), (1, .ll), (1, .lu), (1, .ll), (4, .lu), (1, .ll), (1, .lu), (1, .ll),
   (2, .lu), (1, .ll), (2, .cn), (1, .lu), (1, .ll), (1, .cn), (1, .ll), (1, .cn), (1, .ll),
   (1, .lu), (1, .ll), (1, .lu), (1, .ll), (1, .lu), (1, .ll), (1, .lu), (21, .cn), (3, .lm),
   (1, .lu), (1, .ll), (1, .lo), (2, .lm), (1, .ll), (7, .lo), (1, .mn), (3, .lo), (1, .mn),
   (4, .lo), (1, .mn), (23, .lo), (2, .mc), (2, .mn), (1, .mc), (4, .so), (1, .mn), (3, .cn),
   (6, .no), (2, .so), (1, .sc), (1, .so), (6, .cn), (52, .lo), (4, .po), (8, .cn), (2, .mc),
   (50, .lo), (16, .mc), (2, .mn), (8, .cn), (2, .po), (10, .nd), (6, .cn), (18, .mn), (6, .lo),
   (3, .po), (1, .lo), (1, .po), (2, .lo), (1, .mn), (10, .nd), (28, .lo), (8, .mn), (2, .po),
   (23, .lo), (11, .mn), (2, .mc), (11, .cn), (1, .po), (29, .lo), (3, .cn), (3, .mn), (1, .mc),
   (47, .lo), (1, .mn), (2, .mc), (4, .mn), (2, .mc), (2, .mn), (3, .mc), (13, .po), (1, .cn),
   (1, .lm), (10, .nd), (4, .cn), (2, .po), (5, .lo), (1, .mn), (1, .lm), (9, .lo), (10, .nd),
   (5, .lo), (1, .cn), (41, .lo), (6, .mn), (2, .mc), (2, .mn), (2, .mc), (2, .mn), (9, .cn),
   (3, .lo), (1, .mn), (8, .lo), (1, .mn), (1, .mc), (2, .cn), (10, .nd), (2, .cn), (4, .po),
   (16, .lo), (1, .lm), (6, .lo), (3, .so), (1, .lo), (1, .mc), (1, .mn), (1, .mc), (50, .lo),
   (1, .mn), (1, .lo), (3, .mn), (2, .lo), (2, .mn), (5, .lo), (2, .mn), (1, .lo), (1, .mn),
   (1, .lo), (24, .cn), (2, .lo), (1, .lm), (2, .po), (11, .lo), (1, .mc), (2, .mn), (2, .mc),
   (2, .po), (1, .lo), (2, .lm), (1, .mc), (1, .mn), (10, .cn), (6, .lo), (2, .cn), (6, .lo),
   (2, .cn), (6, .lo), (9, .cn), (7, .lo), (1, .cn), (7, .lo), (1, .cn), (43, .ll), (1, .sk),
   (4, .lm), (9, .ll), (1, .lm), (2, .sk), (4, .cn), (80, .ll), (35, .lo), (2, .mc), (1, .mn),
   (2, .mc), (1, .mn), (2, .mc), (1, .po), (1, .mc), (1, .mn), (2, .cn), (10, .nd), (6, .cn),
   (11172, .lo), (12, .cn), (23, .lo), (4, .cn), (49, .lo), (4, .cn)]

/-- The codes `D800` to `FFFF`: surrogates, private use, compatibility forms. -/
def codesD800 : CategoryRuns :=
  [(2048, .cs), (6400, .co), (366, .lo), (2, .cn), (106, .lo), (38, .cn), (7, .ll), (12, .cn),
   (5, .ll), (5, .cn), (1, .lo), (1, .mn), (10, .lo), (1, .sm), (13, .lo), (1, .cn), (5, .lo),
   (1, .cn), (1, .lo), (1, .cn), (2, .lo), (1, .cn), (2, .lo), (1, .cn), (108, .lo), (17, .sk),
   (16, .cn), (363, .lo), (1, .pe), (1, .ps), (16, .so), (64, .lo), (2, .cn), (54, .lo),
   (7, .cn), (1, .so), (32, .cn), (12, .lo), (1, .sc), (3, .so), (16, .mn), (7, .po), (1, .ps),
   (1, .pe), (1, .po), (6, .cn), (16, .mn), (1, .po), (2, .pd), (2, .pc), (1, .ps), (1, .pe),
   (1, .ps), (1, .pe), (1, .ps), (1, .pe), (1, .ps), (1, .pe), (1, .ps), (1, .pe), (1, .ps),
   (1, .pe), (1, .ps), (1, .pe), (1, .ps), (1, .pe), (2, .po), (1, .ps), (1, .pe), (4, .po),
   (3, .pc), (3, .po), (1, .cn), (4, .po), (1, .pd), (1, .ps), (1, .pe), (1, .ps), (1, .pe),
   (1, .ps), (1, .pe), (3, .po), (1, .sm), (1, .pd), (3, .sm), (1, .cn), (1, .po), (1, .sc),
   (2, .po), (4, .cn), (5, .lo), (1, .cn), (135, .lo), (2, .cn), (1, .cf), (1, .cn), (3, .po),
   (1, .sc), (3, .po), (1, .ps), (1, .pe), (1, .po), (1, .sm), (1, .po), (1, .pd), (2, .po),
   (10, .nd), (2, .po), (3, .sm), (2, .po), (26, .lu), (1, .ps), (1, .po), (1, .pe), (1, .sk),
   (1, .pc), (1, .sk), (26, .ll), (1, .ps), (1, .sm), (1, .pe), (1, .sm), (1, .ps), (1, .pe),
   (1, .po), (1, .ps), (1, .pe), (2, .po), (10, .lo), (1, .lm), (45, .lo), (2, .lm), (31, .lo),
   (3, .cn), (6, .lo), (2, .cn), (6, .lo), (2, .cn), (6, .lo), (2, .cn), (3, .lo), (3, .cn),
   (2, .sc), (1, .sm), (1, .sk), (1, .so), (2, .sc), (1, .cn), (1, .so), (4, .sm), (2, .so),
   (10, .cn), (3, .cf), (2, .so), (2, .cn)]

end RegexText.Unicode.CategoryRuns
