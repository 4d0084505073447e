/-
  RegexText/Unicode/CategoryRuns/Alphabetic.lean
  ==============================================
  **General categories of the codes `0000` to `2DFF`.**

  Alphabetic and syllabic scripts, punctuation and symbols, by runs of equal
  category (Unicode 16.0).  Each table starts where the one before it ends.
-/
import RegexText.Unicode.Category

namespace RegexText.Unicode.CategoryRuns

/-- The codes `0000` to `03FF`: Latin, phonetic letters, combining marks, Greek. -/
def codes0000 : CategoryRuns :=
  [(32, .cc), (1, .zs), (3, .po), (1, .sc), (3, .po), (1, .ps), (1, .pe), (1, .po), (1, .sm),
   (1, .po), (1, .pd), (2, .po), (10, .nd), (2, .po), (3, .sm), (2, .po), (26, .lu), (1, .ps),
   (1, .po), (1, .pe), (1, .sk), (1, .pc), (1, .sk), (26, .ll), (1, .ps), (1, .sm), (1, .pe),
   (1, .sm), (33, .cc), (1, .zs), (1, .po), (4, .sc), (1, .so), (1, .po), (1, .sk), (1, .so),
   (1, .lo), (1, .pi), (1, .sm), (1, .cf), (1, .so), (1, .sk), (1, .so), (1, .sm), (2, .no),
   (1, .sk), (1, .ll), (2, .po), (1, .sk), (1, .no), (1, .lo), (1, .pf), (3, .no), (1, .po),
   (23, .lu), (1, .sm), (7, .lu), (24, .ll), (1, .sm), (8, .ll), (1, .lu), (1, .ll), (1, .lu),
   (1, .ll), (1, .lu), (1, .ll), (1, .lu), (1, .ll), (1, .lu), (1, .ll), (1, .lu), (1, .ll),
   (1, .lu), (1, .ll), (1, .lu), (1, .ll), (1, .lu), (1, .ll), (1, .lu), (1, .ll), (1, .lu),
   (1, .ll), (1, .lu), (1, .ll), (1, .lu), (1, .ll), (1, .lu), (1, .ll), (1, .lu), (1, .ll),
   (1, .lu), (1, .ll), (1, .lu), (1, .ll), (1, .lu), (1, .ll), (1, .lu), (1, .ll), (1, .lu),
   (1, .ll), (1, .lu), (1, .ll), (1, .lu), (1, .ll), (1, .lu), (1, .ll), (1, .lu), (1, .ll),
   (1, .lu), (1, .ll), (1, .lu), (1, .ll), (1, .lu), (1, .ll), (1, .lu), (2, .ll), (1, .lu),
   (1, .ll), (1, .lu), (1, .ll), (1, .lu), (1, .ll), (1, .lu), (1, .ll), (1, .lu), (1, .ll),
   (1, .lu), (1, .ll), (1, .lu), (1, .ll), (1, .lu), (2, .ll), (1, .lu), (1, .ll), (1, .lu),
   (1, .ll), (1, .lu), (1, .ll), (1, .lu), (1, .ll), (1, .lu), (1, .ll), (1, .lu), (1, .ll),
   (1, .lu), (1, .ll), (1, .lu), (1, .ll), (1, .lu), (1, .ll), (1, .lu), (1, .ll), (1, .lu),
   (1, .ll), (1, .lu), (1, .ll), (1, .lu), (1, .ll), (1, .lu), (1, .ll), (1, .lu), (1, .ll),
   (1, .lu), (1, .ll), (1, .lu), (1, .ll), (1, .lu), (1, .ll), (1, .lu), (1, .ll), (1, .lu),
   (1, .ll), (1, .lu), (1, .ll), (1, .lu), (1, .ll), (1, .lu), (1, .ll), (2, .lu), (1, .ll),
   (1, .lu), (1, .ll), (1, .lu), (3, .ll), (2, .lu), (1, .ll), (1, .lu), (1, .ll), (2, .lu),
   (1, .ll), (3, .lu), (2, .ll), (4, .lu), (1, .ll), (2, .lu), (1, .ll), (3, .lu), (3, .ll),
   (2, .lu), (1, .ll), (2, .lu), (1, .ll), (1, .lu), (1, .ll), (1, .lu), (1, .ll), (2, .lu),
   (1, .ll), (1, .lu), (2, .ll), (1, .lu), (1, .ll), (2, .lu), (1, .ll), (3, .lu), (1, .ll),
   (1, .lu), (1, .ll), (2, .lu), (2, .ll), (1, .lo), (1, .lu), (3, .ll), (4, .lo), (1, .lu),
   (1, .lt), (1, .ll), (1, .lu), (1, .lt), (1, .ll), (1, .lu), (1, .lt), (1, .ll), (1, .lu),
   (1, .ll), (1, .lu), (1, .ll), (1, .lu), (1, .ll), (1, .lu), (1, .ll), (1, .lu), (1, .ll),
   (1, .lu), (1, .ll), (1, .lu), (1, .ll), (1, .lu), (2, .ll), (1, .lu), (1, .ll), (1, .lu),
   (1, .ll), (1, .lu), (1, .ll), (1, .lu), (1, .ll), (1, .lu), (1, .ll), (1, .lu), (1, .ll),
   (1, .lu), (1, .ll), (1, .lu), (1, .ll), (1, .lu), (2, .ll), (1, .lu), (1, .lt), (1, .ll),
   (1, .lu), (1, .ll), (3, .lu), (1, .ll), (1, .lu), (1, .ll), (1, .lu), (1, .ll), (1, .lu),
   (1, .ll), (1, .lu), (1, .ll), (1, .lu), (1, .ll), (1, .lu), (1, .ll), (1, .lu), (1, .ll),
   (1, .lu), (1, .ll), (1, .lu), (1, .ll), (1, .lu), (1, .ll), (1, .lu), (1, .ll), (1, .lu),
   (1, .ll), (1, .lu), (1, .ll), (1, .lu), (1, .ll), (1, .lu), (1, .ll), (1, .lu), (1, .ll),
   (1, .lu), (1, .ll), (1, .lu), (1, .ll), (1, .lu), (1, .ll), (1, .lu), (1, .ll), (1, .lu),
   (1, .ll), (1, .lu), (1, .ll), (1, .lu), (1, .ll), (1, .lu), (1, .ll), (1, .lu), (1, .ll),
   (1, .lu), (1, .ll), (1, .lu), (1, .ll), (1, .lu), (1, .ll), (1, .lu), (7, .ll), (2, .lu),
   (1, .ll), (2, .lu), (2, .ll), (1, .lu), (1, .ll), (4, .lu), (1, .ll), (1, .lu), (1, .ll),
   (1, .lu), (1, .ll), (1, .lu), (1, .ll), (1, .lu), (69, .ll), (1, .lo), (27, .ll), (18, .lm),
   (4, .sk), (12, .lm), (14, .sk), (5, .lm), (7, .sk), (1, .lm), (1, .sk), (1, .lm), (17, .sk),
   (112, .mn), (1, .lu), (1, .ll), (1, .lu), (1, .ll), (1, .lm), (1, .sk), (1, .lu), (1, .ll),
   (2, .cn), (1, .lm), (3, .ll), (1, .po), (1, .lu), (4, .cn), (2, .sk), (1, .lu), (1, .po),
   (3, .lu), (1, .cn), (1, .lu), (1, .cn), (2, .lu), (1, .ll), (17, .lu), (1, .cn), (9, .lu),
   (35, .ll), (1, .lu), (2, .ll), (3, .lu), (3, .ll), (1, .lu), (1, .ll), (1, .lu), (1, .ll),
   (1, .lu), (1, .ll), (1, .lu), (1, .ll), (1, .lu), (1, .ll), (1, .lu), (1, .ll), (1, .lu),
   (1, .ll), (1, .lu), (1, .ll), (1, .lu), (1, .ll), (1, .lu), (1, .ll), (1, .lu), (1, .ll),
   (1, .lu), (5, .ll), (1, .lu), (1, .ll), (1, .sm), (1, .lu), (1, .ll), (2, .lu), (2, .ll),
   (3, .lu)]

/-- The codes `0400` to `07FF`: Cyrillic, Armenian, Hebrew, Arabic, Syriac, Thaana, NKo. -/
def codes0400 : CategoryRuns :=
  [(48, .lu), (48, .ll), (1, .lu), (1, .ll), (1, .lu), (1, .ll), (1, .lu), (1, .ll), (1, .lu),
   (1, .ll), (1, .lu), (1, .ll), (1, .lu), (1, .ll), (1, .lu), (1, .ll), (1, .lu), (1, .ll),
   (1, .lu), (1, .ll), (1, .lu), (1, .ll), (1, .lu), (1, .ll), (1, .lu), (1, .ll), (1, .lu),
   (1, .ll), (1, .lu), (1, .ll), (1, .lu), (1, .ll), (1, .lu), (1, .ll), (1, .lu), (1, .ll),
   (1, .so), (5, .mn), (2, .me), (1, .lu), (1, .ll), (1, .lu), (1, .ll), (1, .lu), (1, .ll),
   (1, .lu), (1, .ll), (1, .lu), (1, .ll), (1, .lu), (1, .ll), (1, .lu), (1, .ll), (1, .lu),
   (1, .ll), (1, .lu), (1, .ll), (1, .lu), (1, .ll), (1, .lu), (1, .ll), (1, .lu), (1, .ll),
   (1, .lu), (1, .ll), (1, .lu), (1, .ll), (1, .lu), (1, .ll), (1, .lu), (1, .ll), (1, .lu),
   (1, .ll), (1, .lu), (1, .ll), (1, .lu), (1, .ll), (1, .lu), (1, .ll), (1, .lu), (1, .ll),
   (1, .lu), (1, .ll), (1, .lu), (1, .ll), (1, .lu), (1, .ll), (1, .lu), (1, .ll), (1, .lu),
   (1, .ll), (1, .lu), (1, .ll), (2, .lu), (1, .ll), (1, .lu), (1, .ll), (1, .lu), (1, .ll),
   (1, .lu), (1, .ll), (1, .lu), (1, .ll), (1, .lu), (1, .ll), (1, .lu), (2, .ll), (1, .lu),
   (1, .ll), (1, .lu), (1, .ll), (1, .lu), (1, .ll), (1, .lu), (1, .ll), (1, .lu), (1, .ll),
   (1, .lu), (1, .ll), (1, .lu), (1, .ll), (1, .lu), (1, .ll), (1, .lu), (1, .ll), (1, .lu),
   (1, .ll), (1, .lu), (1, .ll), (1, .lu), (1, .ll), (1, .lu), (1, .ll), (1, .lu), (1, .ll),
   (1, .lu), (1, .ll), (1, .lu), (1, .ll), (1, .lu), (1, .ll), (1, .lu), (1, .ll), (1, .lu),
   (1, .ll), (1, .lu), (1, .ll), (1, .lu), (1, .ll), (1, .lu), (1, .ll), (1, .lu), (1, .ll),
   (1, .lu), (1, .ll), (1, .lu), (1, .ll), (1, .lu), (1, .ll), (1, .lu), (1, .ll), (1, .lu),
   (1, .ll), (1, .lu), (1, .ll), (1, .lu), (1, .ll), (1, .lu), (1, .ll), (1, .lu), (1, .ll),
   (1, .lu), (1, .ll), (1, .lu), (1, .ll), (1, .lu), (1, .ll), (1, .lu), (1, .ll), (1, .lu),
   (1, .ll), (1, .lu), (1, .ll), (1, .lu), (1, .ll), (1, .lu), (1, .ll), (1, .lu), (1, .ll),
   (1, .lu), (1, .ll), (1, .lu), (1, .ll), (1, .lu), (1, .ll), (1, .lu), (1, .ll), (1, .lu),
   (1, .ll), (1, .lu), (1, .ll), (1, .lu), (1, .ll), (1, .cn), (38, .lu), (2, .cn), (1, .lm),
   (6, .po), (41, .ll), (1, .po), (1, .pd), (2, .cn), (2, .so), (1, .sc), (1, .cn), (45, .mn),
   (1, .pd), (1, .mn), (1, .po), (2, .mn), (1, .po), (2, .mn), (1, .po), (1, .mn), (8, .cn),
   (27, .lo), (4, .cn), (4, .lo), (2, .po), (11, .cn), (6, .cf), (3, .sm), (2, .po), (1, .sc),
   (2, .po), (2, .so), (11, .mn), (1, .po), (1, .cf), (3, .po), (32, .lo), (1, .lm), (10, .lo),
   (21, .mn), (10, .nd), (4, .po), (2, .lo), (1, .mn), (99, .lo), (1, .po), (1, .lo), (7, .mn),
   (1, .cf), (1, .so), (6, .mn), (2, .lm), (2, .mn), (1, .so), (4, .mn), (2, .lo), (10, .nd),
   (3, .lo), (2, .so), (1, .lo), (14, .po), (1, .cn), (1, .cf), (1, .lo), (1, .mn), (30, .lo),
   (27, .mn), (2, .cn), (89, .lo), (11, .mn), (1, .lo), (14, .cn), (10, .nd), (33, .lo),
   (9, .mn), (2, .lm), (1, .so), (3, .po), (1, .lm), (2, .cn), (1, .mn), (2, .sc)]

/-- The codes `0800` to `0BFF`: from Samaritan through Tamil. -/
def codes0800 : CategoryRuns :=
  [(22, .lo), (4, .mn), (1, .lm), (9, .mn), (1, .lm), (3, .mn), (1, .lm), (5, .mn), (2, .cn),
   (15, .po), (1, .cn), (25, .lo), (3, .mn), (2, .cn), (1, .po), (1, .cn), (11, .lo), (5, .cn),
   (24, .lo), (1, .sk), (6, .lo), (1, .cn), (2, .cf), (5, .cn), (9, .mn), (41, .lo), (1, .lm),
   (24, .mn), (1, .cf), (32, .mn), (1, .mc), (54, .lo), (1, .mn), (1, .mc), (1, .mn), (1, .lo),
   (3, .mc), (8, .mn), (4, .mc), (1, .mn), (2, .mc), (1, .lo), (7, .mn), (10, .lo), (2, .mn),
   (2, .po), (10, .nd), (1, .po), (1, .lm), (15, .lo), (1, .mn), (2, .mc), (1, .cn), (8, .lo),
   (2, .cn), (2, .lo), (2, .cn), (22, .lo), (1, .cn), (7, .lo), (1, .cn), (1, .lo), (3, .cn),
   (4, .lo), (2, .cn), (1, .mn), (1, .lo), (3, .mc), (4, .mn), (2, .cn), (2, .mc), (2, .cn),
   (2, .mc), (1, .mn), (1, .lo), (8, .cn), (1, .mc), (4, .cn), (2, .lo), (1, .cn), (3, .lo),
   (2, .mn), (2, .cn), (10, .nd), (2, .lo), (2, .sc), (6, .no), (1, .so), (1, .sc), (1, .lo),
   (1, .po), (1, .mn), (2, .cn), (2, .mn), (1, .mc), (1, .cn), (6, .lo), (4, .cn), (2, .lo),
   (2, .cn), (22, .lo), (1, .cn), (7, .lo), (1, .cn), (2, .lo), (1, .cn), (2, .lo), (1, .cn),
   (2, .lo), (2, .cn), (1, .mn), (1, .cn), (3, .mc), (2, .mn), (4, .cn), (2, .mn), (2, .cn),
   (3, .mn), (3, .cn), (1, .mn), (7, .cn), (4, .lo), (1, .cn), (1, .lo), (7, .cn), (10, .nd),
   (2, .mn), (3, .lo), (1, .mn), (1, .po), (10, .cn), (2, .mn), (1, .mc), (1, .cn), (9, .lo),
   (1, .cn), (3, .lo), (1, .cn), (22, .lo), (1, .cn), (7, .lo), (1, .cn), (2, .lo), (1, .cn),
   (5, .lo), (2, .cn), (1, .mn), (1, .lo), (3, .mc), (5, .mn), (1, .cn), (2, .mn), (1, .mc),
   (1, .cn), (2, .mc), (1, .mn), (2, .cn), (1, .lo), (15, .cn), (2, .lo), (2, .mn), (2, .cn),
   (10, .nd), (1, .po), (1, .sc), (7, .cn), (1, .lo), (6, .mn), (1, .cn), (1, .mn), (2, .mc),
   (1, .cn), (8, .lo), (2, .cn), (2, .lo), (2, .cn), (22, .lo), (1, .cn), (7, .lo), (1, .cn),
   (2, .lo), (1, .cn), (5, .lo), (2, .cn), (1, .mn), (1, .lo), (1, .mc), (1, .mn), (1, .mc),
   (4, .mn), (2, .cn), (2, .mc), (2, .cn), (2, .mc), (1, .mn), (7, .cn), (2, .mn), (1, .mc),
   (4, .cn), (2, .lo), (1, .cn), (3, .lo), (2, .mn), (2, .cn), (10, .nd), (1, .so), (1, .lo),
   (6, .no), (10, .cn), (1, .mn), (1, .lo), (1, .cn), (6, .lo), (3, .cn), (3, .lo), (1, .cn),
   (4, .lo), (3, .cn), (2, .lo), (1, .cn), (1, .lo), (1, .cn), (2, .lo), (3, .cn), (2, .lo),
   (3, .cn), (3, .lo), (3, .cn), (12, .lo), (4, .cn), (2, .mc), (1, .mn), (2, .mc), (3, .cn),
   (3, .mc), (1, .cn), (3, .mc), (1, .mn), (2, .cn), (1, .lo), (6, .cn), (1, .mc), (14, .cn),
   (10, .nd), (3, .no), (6, .so), (1, .sc), (1, .so), (5, .cn)]

/-- The codes `0C00` to `0FFF`: from Telugu through Tibetan. -/
def codes0C00 : CategoryRuns :=
  [(1, .mn), (3, .mc), (1, .mn), (8, .lo), (1, .cn), (3, .lo), (1, .cn), (23, .lo), (1, .cn),
   (16, .lo), (2, .cn), (1, .mn), (1, .lo), (3, .mn), (4, .mc), (1, .cn), (3, .mn), (1, .cn),
   (4, .mn), (7, .cn), (2, .mn), (1, .cn), (3, .lo), (2, .cn), (1, .lo), (2, .cn), (2, .lo),
   (2, .mn), (2, .cn), (10, .nd), (7, .cn), (1, .po), (7, .no), (1, .so), (1, .lo), (1, .mn),
   (2, .mc), (1, .po), (8, .lo), (1, .cn), (3, .lo), (1, .cn), (23, .lo), (1, .cn), (10, .lo),
   (1, .cn), (5, .lo), (2, .cn), (1, .mn), (1, .lo), (1, .mc), (1, .mn), (5, .mc), (1, .cn),
   (1, .mn), (2, .mc), (1, .cn), (2, .mc), (2, .mn), (7, .cn), (2, .mc), (6, .cn), (2, .lo),
   (1, .cn), (2, .lo), (2, .mn), (2, .cn), (10, .nd), (1, .cn), (2, .lo), (1, .mc), (12, .cn),
   (2, .mn), (2, .mc), (9, .lo), (1, .cn), (3, .lo), (1, .cn), (41, .lo), (2, .mn), (1, .lo),
   (3, .mc), (4, .mn), (1, .cn), (3, .mc), (1, .cn), (3, .mc), (1, .mn), (1, .lo), (1, .so),
   (4, .cn), (3, .lo), (1, .mc), (7, .no), (3, .lo), (2, .mn), (2, .cn), (10, .nd), (9, .no),
   (1, .so), (6, .lo), (1, .cn), (1, .mn), (2, .mc), (1, .cn), (18, .lo), (3, .cn), (24, .lo),
   (1, .cn), (9, .lo), (1, .cn), (1, .lo), (2, .cn), (7, .lo), (3, .cn), (1, .mn), (4, .cn),
   (3, .mc), (3, .mn), (1, .cn), (1, .mn), (1, .cn), (8, .mc), (6, .cn), (10, .nd), (2, .cn),
   (2, .mc), (1, .po), (12, .cn), (48, .lo), (1, .mn), (2, .lo), (7, .mn), (4, .cn), (1, .sc),
   (6, .lo), (1, .lm), (8, .mn), (1, .po), (10, .nd), (2, .po), (37, .cn), (2, .lo), (1, .cn),
   (1, .lo), (1, .cn), (5, .lo), (1, .cn), (24, .lo), (1, .cn), (1, .lo), (1, .cn), (10, .lo),
   (1, .mn), (2, .lo), (9, .mn), (1, .lo), (2, .cn), (5, .lo), (1, .cn), (1, .lm), (1, .cn),
   (7, .mn), (1, .cn), (10, .nd), (2, .cn), (4, .lo), (32, .cn), (1, .lo), (3, .so), (15, .po),
   (1, .so), (1, .po), (3, .so), (2, .mn), (6, .so), (10, .nd), (10, .no), (1, .so), (1, .mn),
   (1, .so), (1, .mn), (1, .so), (1, .mn), (1, .ps), (1, .pe), (1, .ps), (1, .pe), (2, .mc),
   (8, .lo), (1, .cn), (36, .lo), (4, .cn), (14, .mn), (1, .mc), (5, .mn), (1, .po), (2, .mn),
   (5, .lo), (11, .mn), (1, .cn), (36, .mn), (1, .cn), (8, .so), (1, .mn), (6, .so), (1, .cn),
   (2, .so), (5, .po), (4, .so), (2, .po), (37, .cn)]

/-- The codes `1000` to `17FF`: from Myanmar through Khmer. -/
def codes1000 : CategoryRuns :=
  [(43, .lo), (2, .mc), (4, .mn), (1, .mc), (6, .mn), (1, .mc), (2, .mn), (2, .mc), (2, .mn),
   (1, .lo), (10, .nd), (6, .po), (6, .lo), (2, .mc), (2, .mn), (4, .lo), (3, .mn), (1, .lo),
   (3, .mc), (2, .lo), (7, .mc), (3, .lo), (4, .mn), (13, .lo), (1, .mn), (2, .mc), (2, .mn),
   (6, .mc), (1, .mn), (1, .lo), (1, .mc), (10, .nd), (3, .mc), (1, .mn), (2, .so), (38, .lu),
   (1, .cn), (1, .lu), (5, .cn), (1, .lu), (2, .cn), (43, .ll), (1, .po), (1, .lm), (3, .ll),
   (329, .lo), (1, .cn), (4, .lo), (2, .cn), (7, .lo), (1, .cn), (1, .lo), (1, .cn), (4, .lo),
   (2, .cn), (41, .lo), (1, .cn), (4, .lo), (2, .cn), (33, .lo), (1, .cn), (4, .lo), (2, .cn),
   (7, .lo), (1, .cn), (1, .lo), (1, .cn), (4, .lo), (2, .cn), (15, .lo), (1, .cn), (57, .lo),
   (1, .cn), (4, .lo), (2, .cn), (67, .lo), (2, .cn), (3, .mn), (9, .po), (20, .no), (3, .cn),
   (16, .lo), (10, .so), (6, .cn), (86, .lu), (2, .cn), (6, .ll), (2, .cn), (1, .pd), (620, .lo),
   (1, .so), (1, .po), (17, .lo), (1, .zs), (26, .lo), (1, .ps), (1, .pe), (3, .cn), (75, .lo),
   (3, .po), (3, .nl), (8, .lo), (7, .cn), (18, .lo), (3, .mn), (1, .mc), (9, .cn), (19, .lo),
   (2, .mn), (1, .mc), (2, .po), (9, .cn), (18, .lo), (2, .mn), (12, .cn), (13, .lo), (1, .cn),
   (3, .lo), (1, .cn), (2, .mn), (12, .cn), (52, .lo), (2, .mn), (1, .mc), (7, .mn), (8, .mc),
   (1, .mn), (2, .mc), (11, .mn), (3, .po), (1, .lm), (3, .po), (1, .sc), (1, .lo), (1, .mn),
   (2, .cn), (10, .nd), (6, .cn), (10, .no), (6, .cn)]

/-- The codes `1800` to `1FFF`: from Mongolian through extended Greek. -/
def codes1800 : CategoryRuns :=
  [(6, .po), (1, .pd), (4, .po), (3, .mn), (1, .cf), (1, .mn), (10, .nd), (6, .cn), (35, .lo),
   (1, .lm), (53, .lo), (7, .cn), (5, .lo), (2, .mn), (34, .lo), (1, .mn), (1, .lo), (5, .cn),
   (70, .lo), (10, .cn), (31, .lo), (1, .cn), (3, .mn), (4, .mc), (2, .mn), (3, .mc), (4, .cn),
   (2, .mc), (1, .mn), (6, .mc), (3, .mn), (4, .cn), (1, .so), (3, .cn), (2, .po), (10, .nd),
   (30, .lo), (2, .cn), (5, .lo), (11, .cn), (44, .lo), (4, .cn), (26, .lo), (6, .cn), (10, .nd),
   (1, .no), (3, .cn), (34, .so), (23, .lo), (2, .mn), (2, .mc), (1, .mn), (2, .cn), (2, .po),
   (53, .lo), (1, .mc), (1, .mn), (1, .mc), (7, .mn), (1, .cn), (1, .mn), (1, .mc), (1, .mn),
   (2, .mc), (8, .mn), (6, .mc), (10, .mn), (2, .cn), (1, .mn), (10, .nd), (6, .cn), (10, .nd),
   (6, .cn), (7, .po), (1, .lm), (6, .po), (2, .cn), (14, .mn), (1, .me), (16, .mn), (49, .cn),
   (4, .mn), (1, .mc), (47, .lo), (1, .mn), (1, .mc), (5, .mn), (1, .mc), (1, .mn), (5, .mc),
   (1, .mn), (2, .mc), (8, .lo), (1, .cn), (2, .po), (10, .nd), (7, .po), (10, .so), (9, .mn),
   (9, .so), (3, .po), (2, .mn), (1, .mc), (30, .lo), (1, .mc), (4, .mn), (2, .mc), (2, .mn),
   (1, .mc), (3, .mn), (2, .lo), (10, .nd), (44, .lo), (1, .mn), (1, .mc), (2, .mn), (3, .mc),
   (1, .mn), (1, .mc), (3, .mn), (2, .mc), (8, .cn), (4, .po), (36, .lo), (8, .mc), (8, .mn),
   (2, .mc), (2, .mn), (3, .cn), (5, .po), (10, .nd), (3, .cn), (3, .lo), (10, .nd), (30, .lo),
   (6, .lm), (2, .po), (9, .ll), (1, .lu), (1, .ll), (5, .cn), (43, .lu), (2, .cn), (3, .lu),
   (8, .po), (8, .cn), (3, .mn), (1, .po), (13, .mn), (1, .mc), (7, .mn), (4, .lo), (1, .mn),
   (6, .lo), (1, .mn), (2, .lo), (1, .mc), (2, .mn), (1, .lo), (5, .cn), (44, .ll), (63, .lm),
   (13, .ll), (1, .lm), (34, .ll), (37, .lm), (64, .mn), (1, .lu), (1, .ll), (1, .lu), (1, .ll),
   (1, .lu), (1, .ll), (1, .lu), (1, .ll), (1, .lu), (1, .ll), (1, .lu), (1, .ll), (1, .lu),
   (1, .ll), (1, .lu), (1, .ll), (1, .lu), (1, .ll), (1, .lu), (1, .ll), (1, .lu), (1, .ll),
   (1, .lu), (1, .ll), (1, .lu), (1, .ll), (1, .lu), (1, .ll), (1, .lu), (1, .ll), (1, .lu),
   (1, .ll), (1, .lu), (1, .ll), (1, .lu), (1, .ll), (1, .lu), (1, .ll), (1, .lu), (1, .ll),
   (1, .lu), (1, .ll), (1, .lu), (1, .ll), (1, .lu), (1, .ll), (1, .lu), (1, .ll), (1, .lu),
   (1, .ll), (1, .lu), (1, .ll), (1, .lu), (1, .ll), (1, .lu), (1, .ll), (1, .lu), (1, .ll),
   (1, .lu), (1, .ll), (1, .lu), (1, .ll), (1, .lu), (1, .ll), (1, .lu), (1, .ll), (1, .lu),
   (1, .ll), (1, .lu), (1, .ll), (1, .lu), (1, .ll), (1, .lu), (1, .ll), (1, .lu), (1, .ll),
   (1, .lu), (1, .ll), (1, .lu), (1, .ll), (1, .lu), (1, .ll), (1, .lu), (1, .ll), (1, .lu),
   (1, .ll), (1, .lu), (1, .ll), (1, .lu), (1, .ll), (1, .lu), (1, .ll), (1, .lu), (1, .ll),
   (1, .lu), (1, .ll), (1, .lu), (1, .ll), (1, .lu), (1, .ll), (1, .lu), (1, .ll), (1, .lu),
   (1, .ll), (1, .lu), (1, .ll), (1, .lu), (1, .ll), (1, .lu), (1, .ll), (1, .lu), (1, .ll),
   (1, .lu), (1, .ll), (1, .lu), (1, .ll), (1, .lu), (1, .ll), (1, .lu), (1, .ll), (1, .lu),
   (1, .ll), (1, .lu), (1, .ll), (1, .lu), (1, .ll), (1, .lu), (1, .ll), (1, .lu), (1, .ll),
   (1, .lu), (1, .ll), (1, .lu), (1, .ll), (1, .lu), (1, .ll), (1, .lu), (1, .ll), (1, .lu),
   (1, .ll), (1, .lu), (1, .ll), (1, .lu), (1, .ll), (1, .lu), (1, .ll), (1, .lu), (1, .ll),
   (1, .lu), (9, .ll), (1, .lu), (1, .ll), (1, .lu), (1, .ll), (1, .lu), (1, .ll), (1, .lu),
   (1, .ll), (1, .lu), (1, .ll), (1, .lu), (1, .ll), (1, .lu), (1, .ll), (1, .lu), (1, .ll),
   (1, .lu), (1, .ll), (1, .lu), (1, .ll), (1, .lu), (1, .ll), (1, .lu), (1, .ll), (1, .lu),
   (1, .ll), (1, .lu), (1, .ll), (1, .lu), (1, .ll), (1, .lu), (1, .ll), (1, .lu), (1, .ll),
   (1, .lu), (1, .ll), (1, .lu), (1, .ll), (1, .lu), (1, .ll), (1, .lu), (1, .ll), (1, .lu),
   (1, .ll), (1, .lu), (1, .ll), (1, .lu), (1, .ll), (1, .lu), (1, .ll), (1, .lu), (1, .ll),
   (1, .lu), (1, .ll), (1, .lu), (1, .ll), (1, .lu), (1, .ll), (1, .lu), (1, .ll), (1, .lu),
   (1, .ll), (1, .lu), (1, .ll), (1, .lu), (1, .ll), (1, .lu), (1, .ll), (1, .lu), (1, .ll),
   (1, .lu), (1, .ll), (1, .lu), (1, .ll), (1, .lu), (1, .ll), (1, .lu), (1, .ll), (1, .lu),
   (1, .ll), (1, .lu), (1, .ll), (1, .lu), (1, .ll), (1, .lu), (1, .ll), (1, .lu), (1, .ll),
   (1, .lu), (1, .ll), (1, .lu), (1, .ll), (1, .lu), (1, .ll), (1, .lu), (1, .ll), (1, .lu),
   (9, .ll), (8, .lu), (6, .ll), (2, .cn), (6, .lu), (2, .cn), (8, .ll), (8, .lu), (8, .ll),
   (8, .lu), (6, .ll), (2, .cn), (6, .lu), (2, .cn), (8, .ll), (1, .cn), (1, .lu), (1, .cn),
   (1, .lu), (1, .cn), (1, .lu), (1, .cn), (1, .lu), (8, .ll), (8, .lu), (14, .ll), (2, .cn),
   (8, .ll), (8, .lt), (8, .ll), (8, .lt), (8, .ll), (8, .lt), (5, .ll), (1, .cn), (2, .ll),
   (4, .lu), (1, .lt), (1, .sk), (1, .ll), (3, .sk), (3, .ll), (1, .cn), (2, .ll), (4, .lu),
   (1, .lt), (3, .sk), (4, .ll), (2, .cn), (2, .ll), (4, .lu), (1, .cn), (3, .sk), (8, .ll),
   (5, .lu), (3, .sk), (2, .cn), (3, .ll), (1, .cn), (2, .ll), (4, .lu), (1, .lt), (2, .sk),
   (1, .cn)]

/-- The codes `2000` to `2DFF`: punctuation, symbols, Coptic, Ethiopic. -/
def codes2000 : CategoryRuns :=
  [(11, .zs), (5, .cf), (6, .pd), (2, .po), (1, .pi), (1, .pf), (1, .ps), (2, .pi), (1, .pf),
   (1, .ps), (1, .pi), (8, .po), (1, .zl), (1, .zp), (5, .cf), (1, .zs), (9, .po), (1, .pi),
   (1, .pf), (4, .po), (2, .pc), (3, .po), (1, .sm), (1, .ps), (1, .pe), (11, .po), (1, .sm),
   (1, .po), (1, .pc), (10, .po), (1, .zs), (5, .cf), (1, .cn), (10, .cf), (1, .no), (1, .lm),
   (2, .cn), (6, .no), (3, .sm), (1, .ps), (1, .pe), (1, .lm), (10, .no), (3, .sm), (1, .ps),
   (1, .pe), (1, .cn), (13, .lm), (3, .cn), (33, .sc), (15, .cn), (13, .mn), (4, .me), (1, .mn),
   (3, .me), (12, .mn), (15, .cn), (2, .so), (1, .lu), (4, .so), (1, .lu), (2, .so), (1, .ll),
   (3, .lu), (2, .ll), (3, .lu), (1, .ll), (1, .so), (1, .lu), (2, .so), (1, .sm), (5, .lu),
   (6, .so), (1, .lu), (1, .so), (1, .lu), (1, .so), (1, .lu), (1, .so), (4, .lu), (1, .so),
   (1, .ll), (4, .lu), (1, .ll), (4, .lo), (1, .ll), (2, .so), (2, .ll), (2, .lu), (5, .sm),
   (1, .lu), (4, .ll), (1, .so), (1, .sm), (2, .so), (1, .ll), (1, .so), (16, .no), (35, .nl),
   (1, .lu), (1, .ll), (4, .nl), (1, .no), (2, .so), (4, .cn), (5, .sm), (5, .so), (2, .sm),
   (4, .so), (1, .sm), (2, .so), (1, .sm), (2, .so), (1, .sm), (7, .so), (1, .sm), (31, .so),
   (2, .sm), (2, .so), (1, .sm), (1, .so), (1, .sm), (31, .so), (268, .sm), (8, .so), (1, .ps),
   (1, .pe), (1, .ps), (1, .pe), (20, .so), (2, .sm), (7, .so), (1, .ps), (1, .pe), (81, .so),
   (1, .sm), (30, .so), (25, .sm), (40, .so), (6, .sm), (72, .so), (22, .cn), (11, .so),
   (21, .cn), (60, .no), (78, .so), (22, .no), (183, .so), (1, .sm), (9, .so), (1, .sm),
   (54, .so), (8, .sm), (111, .so), (1, .sm), (248, .so), (1, .ps), (1, .pe), (1, .ps), (1, .pe),
   (1, .ps), (1, .pe), (1, .ps), (1, .pe), (1, .ps), (1, .pe), (1, .ps), (1, .pe), (1, .ps),
   (1, .pe), (30, .no), (44, .so), (5, .sm), (1, .ps), (1, .pe), (31, .sm), (1, .ps), (1, .pe),
   (1, .ps), (1, .pe), (1, .ps), (1, .pe), (1, .ps), (1, .pe), (1, .ps), (1, .pe), (16, .sm),
   (256, .so), (131, .sm), (1, .ps), (1, .pe), (1, .ps), (1, .pe), (1, .ps), (1, .pe), (1, .ps),
   (1, .pe), (1, .ps), (1, .pe), (1, .ps), (1, .pe), (1, .ps), (1, .pe), (1, .ps), (1, .pe),
   (1, .ps), (1, .pe), (1, .ps), (1, .pe), (1, .ps), (1, .pe), (63, .sm), (1, .ps), (1, .pe),
   (1, .ps), (1, .pe), (32, .sm), (1, .ps), (1, .pe), (258, .sm), (48, .so), (21, .sm), (2, .so),
   (6, .sm), (39, .so), (2, .cn), (32, .so), (1, .cn), (105, .so), (48, .lu), (48, .ll),
   (1, .lu), (1, .ll), (3, .lu), (2, .ll), (1, .lu), (1, .ll), (1, .lu), (1, .ll), (1, .lu),
   (1, .ll), (4, .lu), (1, .ll), (1, .lu), (2, .ll), (1, .lu), (6, .ll), (2, .lm), (3, .lu),
   (1, .ll), (1, .lu), (1, .ll), (1, .lu), (1, .ll), (1, .lu), (1, .ll), (1, .lu), (1, .ll),
   (1, .lu), (1, .ll), (1, .lu), (1, .ll), (1, .lu), (1, .ll), (1, .lu), (1, .ll), (1, .lu),
   (1, .ll), (1, .lu), (1, .ll), (1, .lu), (1, .ll), (1, .lu), (1, .ll), (1, .lu), (1, .ll),
   (1, .lu), (1, .ll), (1, .lu), (1, .ll), (1, .lu), (1, .ll), (1, .lu), (1, .ll), (1, .lu),
   (1, .ll), (1, .lu), (1, .ll), (1, .lu), (1, .ll), (1, .lu), (1, .ll), (1, .lu), (1, .ll),
   (1, .lu), (1, .ll), (1, .lu), (1, .ll), (1, .lu), (1, .ll), (1, .lu), (1, .ll), (1, .lu),
   (1, .ll), (1, .lu), (1, .ll), (1, .lu), (1, .ll), (1, .lu), (1, .ll), (1, .lu), (1, .ll),
   (1, .lu), (1, .ll), (1, .lu), (1, .ll), (1, .lu), (1, .ll), (1, .lu), (1, .ll), (1, .lu),
   (1, .ll), (1, .lu), (1, .ll), (1, .lu), (1, .ll), (1, .lu), (1, .ll), (1, .lu), (1, .ll),
   (1, .lu), (1, .ll), (1, .lu), (1, .ll), (1, .lu), (1, .ll), (1, .lu), (1, .ll), (1, .lu),
   (1, .ll), (1, .lu), (1, .ll), (1, .lu), (1, .ll), (1, .lu), (1, .ll), (1, .lu), (2, .ll),
   (6, .so), (1, .lu), (1, .ll), (1, .lu), (1, .ll), (3, .mn), (1, .lu), (1, .ll), (5, .cn),
   (4, .po), (1, .no), (2, .po), (38, .ll), (1, .cn), (1, .ll), (5, .cn), (1, .ll), (2, .cn),
   (56, .lo), (7, .cn), (1, .lm), (1, .po), (14, .cn), (1, .mn), (23, .lo), (9, .cn), (7, .lo),
   (1, .cn), (7, .lo), (1, .cn), (7, .lo), (1, .cn), (7, .lo), (1, .cn), (7, .lo), (1, .cn),
   (7, .lo), (1, .cn), (7, .lo), (1, .cn), (7, .lo), (1, .cn), (32, .mn)]

end RegexText.Unicode.CategoryRuns
