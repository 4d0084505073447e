/-
  RegexText/Unicode/CategoryRuns/Supplementary.lean
  =================================================
  **General categories of the codes from `10000` on.**

  The planes above the basic one, by runs of equal category (Unicode 16.0).
  Each table starts where the one before it ends.
-/
import RegexText.Unicode.Category

namespace RegexText.Unicode.CategoryRuns

/-- The codes `10000` to `10FFF`. -/
def codes10000 : CategoryRuns :=
  [(12, .lo), (1, .cn), (26, .lo), (1, .cn), (19, .lo), (1, .cn), (2, .lo), (1, .cn), (15, .lo),
   (2, .cn), (14, .lo), (34, .cn), (123, .lo), (5, .cn), (3, .po), (4, .cn), (45, .no), (3, .cn),
   (9, .so), (53, .nl), (4, .no), (17, .so), (2, .no), (3, .so), (1, .cn), (13, .so), (3, .cn),
   (1, .so), (47, .cn), (45, .so), (1, .mn), (130, .cn), (29, .lo), (3, .cn), (49, .lo),
   (15, .cn), (1, .mn), (27, .no), (4, .cn), (32, .lo), (4, .no), (9, .cn), (20, .lo), (1, .nl),
   (8, .lo), (1, .nl), (5, .cn), (38, .lo), (5, .mn), (5, .cn), (30, .lo), (1, .cn), (1, .po),
   (36, .lo), (4, .cn), (8, .lo), (1, .po), (5, .nl), (42, .cn), (40, .lu), (40, .ll), (78, .lo),
   (2, .cn), (10, .nd), (6, .cn), (36, .lu), (4, .cn), (36, .ll), (4, .cn), (40, .lo), (8, .cn),
   (52, .lo), (11, .cn), (1, .po), (11, .lu), (1, .cn), (15, .lu), (1, .cn), (7, .lu), (1, .cn),
   (2, .lu), (1, .cn), (11, .ll), (1, .cn), (15, .ll), (1, .cn), (7, .ll), (1, .cn), (2, .ll),
   (3, .cn), (52, .lo), (12, .cn), (311, .lo), (9, .cn), (22, .lo), (10, .cn), (8, .lo),
   (24, .cn), (6, .lm), (1, .cn), (42, .lm), (1, .cn), (9, .lm), (69, .cn), (6, .lo), (2, .cn),
   (1, .lo), (1, .cn), (44, .lo), (1, .cn), (2, .lo), (3, .cn), (1, .lo), (2, .cn), (23, .lo),
   (1, .cn), (1, .po), (8, .no), (23, .lo), (2, .so), (7, .no), (31, .lo), (8, .cn), (9, .no),
   (48, .cn), (19, .lo), (1, .cn), (2, .lo), (5, .cn), (5, .no), (22, .lo), (6, .no), (3, .cn),
   (1, .po), (26, .lo), (5, .cn), (1, .po), (64, .cn), (56, .lo), (4, .cn), (2, .no), (2, .lo),
   (16, .no), (2, .cn), (46, .no), (1, .lo), (3, .mn), (1, .cn), (2, .mn), (5, .cn), (4, .mn),
   (4, .lo), (1, .cn), (3, .lo), (1, .cn), (29, .lo), (2, .cn), (3, .mn), (4, .cn), (1, .mn),
   (9, .no), (7, .cn), (9, .po), (7, .cn), (29, .lo), (2, .no), (1, .po), (29, .lo), (3, .no),
   (32, .cn), (8, .lo), (1, .so), (28, .lo), (2, .mn), (4, .cn), (5, .no), (7, .po), (9, .cn),
   (54, .lo), (3, .cn), (7, .po), (22, .lo), (2, .cn), (8, .no), (19, .lo), (5, .cn), (8, .no),
   (18, .lo), (7, .cn), (4, .po), (12, .cn), (7, .no), (80, .cn), (73, .lo), (55, .cn),
   (51, .lu), (13, .cn), (51, .ll), (7, .cn), (6, .no), (36, .lo), (4, .mn), (8, .cn), (10, .nd),
   (6, .cn), (10, .nd), (4, .lo), (1, .lm), (1, .lo), (22, .lu), (3, .cn), (5, .mn), (1, .pd),
   (1, .lm), (22, .ll), (8, .cn), (2, .sm), (208, .cn), (31, .no), (1, .cn), (42, .lo), (1, .cn),
   (2, .mn), (1, .pd), (2, .cn), (2, .lo), (16, .cn), (3, .lo), (55, .cn), (4, .mn), (29, .lo),
   (10, .no), (1, .lo), (8, .cn), (22, .lo), (11, .mn), (4, .no), (5, .po), (22, .cn), (18, .lo),
   (4, .mn), (4, .po), (38, .cn), (21, .lo), (7, .no), (20, .cn), (23, .lo), (9, .cn)]

/-- The codes `11000` to `12FFF`. -/
def codes11000 : CategoryRuns :=
  [(1, .mc), (1, .mn), (1, .mc), (53, .lo), (15, .mn), (7, .po), (4, .cn), (20, .no), (10, .nd),
   (1, .mn), (2, .lo), (2, .mn), (1, .lo), (9, .cn), (3, .mn), (1, .mc), (45, .lo), (3, .mc),
   (4, .mn), (2, .mc), (2, .mn), (2, .po), (1, .cf), (4, .po), (1, .mn), (10, .cn), (1, .cf),
   (2, .cn), (25, .lo), (7, .cn), (10, .nd), (6, .cn), (3, .mn), (36, .lo), (5, .mn), (1, .mc),
   (8, .mn), (1, .cn), (10, .nd), (4, .po), (1, .lo), (2, .mc), (1, .lo), (8, .cn), (35, .lo),
   (1, .mn), (2, .po), (1, .lo), (9, .cn), (2, .mn), (1, .mc), (48, .lo), (3, .mc), (9, .mn),
   (2, .mc), (4, .lo), (4, .po), (4, .mn), (1, .po), (1, .mc), (1, .mn), (10, .nd), (1, .lo),
   (1, .po), (1, .lo), (3, .po), (1, .cn), (20, .no), (11, .cn), (18, .lo), (1, .cn), (25, .lo),
   (3, .mc), (3, .mn), (2, .mc), (1, .mn), (1, .mc), (2, .mn), (6, .po), (1, .mn), (2, .lo),
   (1, .mn), (62, .cn), (7, .lo), (1, .cn), (1, .lo), (1, .cn), (4, .lo), (1, .cn), (15, .lo),
   (1, .cn), (10, .lo), (1, .po), (6, .cn), (47, .lo), (1, .mn), (3, .mc), (8, .mn), (5, .cn),
   (10, .nd), (6, .cn), (2, .mn), (2, .mc), (1, .cn), (8, .lo), (2, .cn), (2, .lo), (2, .cn),
   (22, .lo), (1, .cn), (7, .lo), (1, .cn), (2, .lo), (1, .cn), (5, .lo), (1, .cn), (2, .mn),
   (1, .lo), (2, .mc), (1, .mn), (4, .mc), (2, .cn), (2, .mc), (2, .cn), (3, .mc), (2, .cn),
   (1, .lo), (6, .cn), (1, .mc), (5, .cn), (5, .lo), (2, .mc), (2, .cn), (7, .mn), (3, .cn),
   (5, .mn), (11, .cn), (10, .lo), (1, .cn), (1, .lo), (2, .cn), (1, .lo), (1, .cn), (38, .lo),
   (1, .cn), (1, .lo), (3, .mc), (6, .mn), (1, .cn), (1, .mc), (2, .cn), (1, .mc), (1, .cn),
   (4, .mc), (1, .cn), (2, .mc), (1, .mn), (1, .mc), (1, .mn), (1, .lo), (1, .mn), (1, .lo),
   (2, .po), (1, .cn), (2, .po), (8, .cn), (2, .mn), (29, .cn), (53, .lo), (3, .mc), (8, .mn),
   (2, .mc), (3, .mn), (1, .mc), (1, .mn), (4, .lo), (5, .po), (10, .nd), (2, .po), (1, .cn),
   (1, .po), (1, .mn), (3, .lo), (30, .cn), (48, .lo), (3, .mc), (6, .mn), (1, .mc), (1, .mn),
   (4, .mc), (2, .mn), (1, .mc), (2, .mn), (2, .lo), (1, .po), (1, .lo), (8, .cn), (10, .nd),
   (166, .cn), (47, .lo), (3, .mc), (4, .mn), (2, .cn), (4, .mc), (2, .mn), (1, .mc), (2, .mn),
   (23, .po), (4, .lo), (2, .mn), (34, .cn), (48, .lo), (3, .mc), (8, .mn), (2, .mc), (1, .mn),
   (1, .mc), (2, .mn), (3, .po), (1, .lo), (11, .cn), (10, .nd), (6, .cn), (13, .po), (19, .cn),
   (43, .lo), (1, .mn), (1, .mc), (1, .mn), (2, .mc), (6, .mn), (1, .mc), (1, .mn), (1, .lo),
   (1, .po), (6, .cn), (10, .nd), (6, .cn), (20, .nd), (28, .cn), (27, .lo), (2, .cn), (1, .mn),
   (1, .mc), (1, .mn), (2, .mc), (4, .mn), (1, .mc), (5, .mn), (4, .cn), (10, .nd), (2, .no),
   (3, .po), (1, .so), (7, .lo), (185, .cn), (44, .lo), (3, .mc), (9, .mn), (1, .mc), (2, .mn),
   (1, .po), (100, .cn), (32, .lu), (32, .ll), (10, .nd), (9, .no), (12, .cn), (8, .lo),
   (2, .cn), (1, .lo), (2, .cn), (8, .lo), (1, .cn), (2, .lo), (1, .cn), (24, .lo), (6, .mc),
   (1, .cn), (2, .mc), (2, .cn), (2, .mn), (1, .mc), (1, .mn), (1, .lo), (1, .mc), (1, .lo),
   (1, .mc), (1, .mn), (3, .po), (9, .cn), (10, .nd), (70, .cn), (8, .lo), (2, .cn), (39, .lo),
   (3, .mc), (4, .mn), (2, .cn), (2, .mn), (4, .mc), (1, .mn), (1, .lo), (1, .po), (1, .lo),
   (1, .mc), (27, .cn), (1, .lo), (10, .mn), (40, .lo), (6, .mn), (1, .mc), (1, .lo), (4, .mn),
   (8, .po), (1, .mn), (8, .cn), (1, .lo), (6, .mn), (2, .mc), (3, .mn), (46, .lo), (13, .mn),
   (1, .mc), (2, .mn), (3, .po), (1, .lo), (5, .po), (13, .cn), (73, .lo), (7, .cn), (10, .po),
   (182, .cn), (33, .lo), (1, .po), (14, .cn), (10, .nd), (6, .cn), (9, .lo), (1, .cn),
   (37, .lo), (1, .mc), (7, .mn), (1, .cn), (6, .mn), (1, .mc), (1, .mn), (1, .lo), (5, .po),
   (10, .cn), (10, .nd), (19, .no), (3, .cn), (2, .po), (30, .lo), (2, .cn), (22, .mn), (1, .cn),
   (1, .mc), (7, .mn), (1, .mc), (2, .mn), (1, .mc), (2, .mn), (73, .cn), (7, .lo), (1, .cn),
   (2, .lo), (1, .cn), (38, .lo), (6, .mn), (3, .cn), (1, .mn), (1, .cn), (2, .mn), (1, .cn),
   (7, .mn), (1, .lo), (1, .mn), (8, .cn), (10, .nd), (6, .cn), (6, .lo), (1, .cn), (2, .lo),
   (1, .cn), (32, .lo), (5, .mc), (1, .cn), (2, .mn), (1, .cn), (2, .mc), (1, .mn), (1, .mc),
   (1, .mn), (1, .lo), (7, .cn), (10, .nd), (310, .cn), (19, .lo), (2, .mn), (2, .mc), (2, .po),
   (7, .cn), (2, .mn), (1, .lo), (1, .mc), (13, .lo), (1, .cn), (34, .lo), (2, .mc), (5, .mn),
   (3, .cn), (2, .mc), (1, .mn), (1, .mc), (1, .mn), (13, .po), (10, .nd), (1, .mn), (85, .cn),
   (1, .lo), (15, .cn), (21, .no), (8, .so), (4, .sc), (17, .so), (13, .cn), (1, .po),
   (922, .lo), (102, .cn), (111, .nl), (1, .cn), (5, .po), (11, .cn), (196, .lo), (2636, .cn),
   (97, .lo), (2, .po), (13, .cn)]

/-- The codes `13000` to `1CFFF`. -/
def codes13000 : CategoryRuns :=
  [(1072, .lo), (16, .cf), (1, .mn), (6, .lo), (15, .mn), (10, .cn), (3995, .lo), (5, .cn),
   (583, .lo), (6841, .cn), (30, .lo), (12, .mn), (3, .mc), (3, .mn), (10, .nd), (1734, .cn),
   (569, .lo), (7, .cn), (31, .lo), (1, .cn), (10, .nd), (4, .cn), (2, .po), (79, .lo), (1, .cn),
   (10, .nd), (6, .cn), (30, .lo), (2, .cn), (5, .mn), (1, .po), (10, .cn), (48, .lo), (7, .mn),
   (5, .po), (4, .so), (4, .lm), (1, .po), (1, .so), (10, .cn), (10, .nd), (1, .cn), (7, .no),
   (1, .cn), (21, .lo), (5, .cn), (19, .lo), (432, .cn), (3, .lm), (40, .lo), (2, .lm), (3, .po),
   (10, .nd), (198, .cn), (32, .lu), (32, .ll), (23, .no), (4, .po), (101, .cn), (75, .lo),
   (4, .cn), (1, .mn), (1, .lo), (55, .mc), (7, .cn), (4, .mn), (13, .lm), (64, .cn), (2, .lm),
   (1, .po), (1, .lm), (1, .mn), (11, .cn), (2, .mc), (14, .cn), (6136, .lo), (8, .cn),
   (1238, .lo), (41, .cn), (10, .lo), (8935, .cn), (4, .lm), (1, .cn), (7, .lm), (1, .cn),
   (2, .lm), (1, .cn), (291, .lo), (15, .cn), (1, .lo), (29, .cn), (3, .lo), (2, .cn), (1, .lo),
   (14, .cn), (4, .lo), (8, .cn), (396, .lo), (2308, .cn), (107, .lo), (5, .cn), (13, .lo),
   (3, .cn), (9, .lo), (7, .cn), (10, .lo), (2, .cn), (1, .so), (2, .mn), (1, .po), (4, .cf),
   (3932, .cn), (240, .so), (10, .nd), (6, .cn), (436, .so), (76, .cn), (46, .mn), (2, .cn),
   (23, .mn), (9, .cn), (116, .so), (60, .cn)]

/-- The codes `1D000` to `1DFFF`. -/
def codes1D000 : CategoryRuns :=
  [(246, .so), (10, .cn), (39, .so), (2, .cn), (60, .so), (2, .mc), (3, .mn), (3, .so), (6, .mc),
   (8, .cf), (8, .mn), (2, .so), (7, .mn), (30, .so), (4, .mn), (61, .so), (21, .cn), (66, .so),
   (3, .mn), (1, .so), (122, .cn), (20, .no), (12, .cn), (20, .no), (12, .cn), (87, .so),
   (9, .cn), (25, .no), (135, .cn), (26, .lu), (26, .ll), (26, .lu), (7, .ll), (1, .cn),
   (18, .ll), (26, .lu), (26, .ll), (1, .lu), (1, .cn), (2, .lu), (2, .cn), (1, .lu), (2, .cn),
   (2, .lu), (2, .cn), (4, .lu), (1, .cn), (8, .lu), (4, .ll), (1, .cn), (1, .ll), (1, .cn),
   (7, .ll), (1, .cn), (11, .ll), (26, .lu), (26, .ll), (2, .lu), (1, .cn), (4, .lu), (2, .cn),
   (8, .lu), (1, .cn), (7, .lu), (1, .cn), (26, .ll), (2, .lu), (1, .cn), (4, .lu), (1, .cn),
   (5, .lu), (1, .cn), (1, .lu), (3, .cn), (7, .lu), (1, .cn), (26, .ll), (26, .lu), (26, .ll),
   (26, .lu), (26, .ll), (26, .lu), (26, .ll), (26, .lu), (26, .ll), (26, .lu), (26, .ll),
   (26, .lu), (28, .ll), (2, .cn), (25, .lu), (1, .sm), (25, .ll), (1, .sm), (6, .ll), (25, .lu),
   (1, .sm), (25, .ll), (1, .sm), (6, .ll), (25, .lu), (1, .sm), (25, .ll), (1, .sm), (6, .ll),
   (25, .lu), (1, .sm), (25, .ll), (1, .sm), (6, .ll), (25, .lu), (1, .sm), (25, .ll), (1, .sm),
   (6, .ll), (1, .lu), (1, .ll), (2, .cn), (50, .nd), (512, .so), (55, .mn), (4, .so), (50, .mn),
   (8, .so), (1, .mn), (14, .so), (1, .mn), (2, .so), (5, .po), (15, .cn), (5, .mn), (1, .cn),
   (15, .mn), (1104, .cn), (10, .ll), (1, .lo), (20, .ll), (6, .cn), (6, .ll), (213, .cn)]

/-- The codes `1E000` to `1EFFF`. -/
def codes1E000 : CategoryRuns :=
  [(7, .mn), (1, .cn), (17, .mn), (2, .cn), (7, .mn), (1, .cn), (2, .mn), (1, .cn), (5, .mn),
   (5, .cn), (62, .lm), (33, .cn), (1, .mn), (112, .cn), (45, .lo), (3, .cn), (7, .mn), (7, .lm),
   (2, .cn), (10, .nd), (4, .cn), (1, .lo), (1, .so), (320, .cn), (30, .lo), (1, .mn), (17, .cn),
   (44, .lo), (4, .mn), (10, .nd), (5, .cn), (1, .sc), (464, .cn), (27, .lo), (1, .lm), (4, .mn),
   (10, .nd), (214, .cn), (30, .lo), (2, .mn), (1, .lo), (10, .nd), (4, .cn), (1, .po),
   (480, .cn), (7, .lo), (1, .cn), (4, .lo), (1, .cn), (2, .lo), (1, .cn), (15, .lo), (1, .cn),
   (197, .lo), (2, .cn), (9, .no), (7, .mn), (41, .cn), (34, .lu), (34, .ll), (7, .mn), (1, .lm),
   (4, .cn), (10, .nd), (4, .cn), (2, .po), (785, .cn), (59, .no), (1, .so), (3, .no), (1, .sc),
   (4, .no), (76, .cn), (45, .no), (1, .so), (15, .no), (194, .cn), (4, .lo), (1, .cn),
   (27, .lo), (1, .cn), (2, .lo), (1, .cn), (1, .lo), (2, .cn), (1, .lo), (1, .cn), (10, .lo),
   (1, .cn), (4, .lo), (1, .cn), (1, .lo), (1, .cn), (1, .lo), (6, .cn), (1, .lo), (4, .cn),
   (1, .lo), (1, .cn), (1, .lo), (1, .cn), (1, .lo), (1, .cn), (3, .lo), (1, .cn), (2, .lo),
   (1, .cn), (1, .lo), (2, .cn), (1, .lo), (1, .cn), (1, .lo), (1, .cn), (1, .lo), (1, .cn),
   (1, .lo), (1, .cn), (1, .lo), (1, .cn), (2, .lo), (1, .cn), (1, .lo), (2, .cn), (4, .lo),
   (1, .cn), (7, .lo), (1, .cn), (4, .lo), (1, .cn), (4, .lo), (1, .cn), (1, .lo), (1, .cn),
   (10, .lo), (1, .cn), (17, .lo), (5, .cn), (3, .lo), (1, .cn), (5, .lo), (1, .cn), (17, .lo),
   (52, .cn), (2, .sm), (270, .cn)]

/-- The codes `1F000` to `1FFFF`. -/
def codes1F000 : CategoryRuns :=
  [(44, .so), (4, .cn), (100, .so), (12, .cn), (15, .so), (2, .cn), (15, .so), (1, .cn),
   (15, .so), (1, .cn), (37, .so), (10, .cn), (13, .no), (161, .so), (56, .cn), (29, .so),
   (13, .cn), (44, .so), (4, .cn), (9, .so), (7, .cn), (2, .so), (14, .cn), (6, .so), (154, .cn),
   (251, .so), (5, .sk), (728, .so), (4, .cn), (17, .so), (3, .cn), (13, .so), (3, .cn),
   (119, .so), (4, .cn), (95, .so), (6, .cn), (12, .so), (4, .cn), (1, .so), (15, .cn),
   (12, .so), (4, .cn), (56, .so), (8, .cn), (10, .so), (6, .cn), (40, .so), (8, .cn), (30, .so),
   (2, .cn), (12, .so), (4, .cn), (2, .so), (62, .cn), (340, .so), (12, .cn), (14, .so),
   (2, .cn), (13, .so), (3, .cn), (10, .so), (5, .cn), (56, .so), (7, .cn), (15, .so), (2, .cn),
   (11, .so), (6, .cn), (9, .so), (7, .cn), (147, .so), (1, .cn), (92, .so), (10, .nd),
   (1030, .cn)]

/-- The codes `20000` to `10FFFF`: ideographs, tags, variation selectors, private use. -/
def codes20000 : CategoryRuns :=
  [(42720, .lo), (32, .cn), (4154, .lo), (6, .cn), (222, .lo), (2, .cn), (5762, .lo), (14, .cn),
   (7473, .lo), (15, .cn), (622, .lo), (2466, .cn), (542, .lo), (1506, .cn), (4939, .lo),
   (5, .cn), (4192, .lo), (711761, .cn), (1, .cf), (30, .cn), (96, .cf), (128, .cn), (240, .mn),
   (65040, .cn), (65534, .co), (2, .cn), (65534, .co), (2, .cn)]

end RegexText.Unicode.CategoryRuns
