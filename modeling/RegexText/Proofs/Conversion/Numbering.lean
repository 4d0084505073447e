/-
  RegexText/Proofs/Conversion/Numbering.lean
  ==========================================
  **Names stand for the last groups that bear them.**

  The converter counts capturing groups as it meets their tokens.  The tokens open
  the groups of the text, so the numbers that are handed out are the places of the
  groups among all that capture, in the order of their parentheses.
-/
import RegexText.Proofs.Conversion.Groups
import RegexText.Proofs.TokenStream.Captures

namespace RegexText

open Text TokenStream

/-- Is this the number of the last group of a name?  Groups are counted from one on, in the order
    in which they open. -/
def IsLatest (groups : List (Nat × Option String)) (name : String) (number : Nat) : Prop :=
  ∃ i pos, number = i + 1 ∧ groups[i]? = some (pos, some name) ∧
    ∀ j other, i < j → groups[j]? = some other → other.2 ≠ some name

theorem isLatest_iff {groups : List (Nat × Option String)} {name : String} {number : Nat} :
    IsLatest groups name number ↔
      Source.groupNumber? (groups.map Prod.snd).reverse name = some number := by
  rw [Source.groupNumber?_eq_some_iff, List.reverse_reverse]
  constructor
  · rintro ⟨i, pos, rfl, hi, hlater⟩
    refine ⟨i, rfl, by rw [List.getElem?_map, hi]; rfl, ?_⟩
    intro j hj hget
    rw [List.getElem?_map] at hget
    obtain ⟨other, hother, hname⟩ := Option.map_eq_some_iff.1 hget
    exact hlater j other hj hother hname
  · rintro ⟨i, rfl, hi, hlater⟩
    rw [List.getElem?_map] at hi
    obtain ⟨⟨pos, found⟩, hget, hname⟩ := Option.map_eq_some_iff.1 hi
    cases hname
    refine ⟨i, pos, rfl, hget, ?_⟩
    intro j other hj hother hname
    apply hlater j hj
    rw [List.getElem?_map, hother]
    exact congrArg some hname

/-- **Which numbers named groups have.**  When a pattern is converted, the names are those of the
    groups that its text opens, each once and in the order in which they first open; and a name
    stands for the last of its groups, by its place among all groups that capture. -/
theorem captures_convertPattern {limit : Nat} {pattern : String} {t : Converted}
    (h : (convertPattern limit pattern).outcome = .ok t) :
    ∃ p groups, (Pattern.parse limit pattern).outcome = .ok p ∧
      CapturingGroups p.body.toList groups ∧
      t.captures.toList.map Prod.fst = (groups.filterMap Prod.snd).eraseDups ∧
      ∀ name number, (name, number) ∈ t.captures.toList ↔ IsLatest groups name number := by
  obtain ⟨p, hparse, hconvert⟩ := Traced.outcome_bind_eq_ok_iff.1 h
  obtain ⟨flags, text, body, captures, _, htokens, _, rfl⟩ := Pattern.convert_eq_ok hconvert
  have hcaptures : captures = Source.capturesOf ((captureNames p.items).reverse ++ []) :=
    Conversion.captures_of_convertTokens htokens
  have hnames : captures.names = Source.namedGroups ((groupsOf p.tokens).map Prod.snd).reverse := by
    rw [hcaptures, List.append_nil, Source.names_capturesOf, map_groupsOf]
    rfl
  refine ⟨p, groupsOf p.tokens, hparse,
    capturingGroups_of_tokenize (Pattern.tokenize_of_parse hparse), ?_, ?_⟩
  · rw [hnames, Source.namedGroups, CaptureMap.toList, List.reverse_reverse, List.filterMap_map,
      List.map_map]
    exact List.map_id _
  · intro name number
    rw [hnames, Source.mem_namedGroups_iff, isLatest_iff]

/-- A name is borne by the first and by the fourth group, of which the first lies around a group of
    another name; further parentheses are escaped, stand between brackets, or do not capture. -/
theorem captures_convertPattern_repeated_name :
    (convertPattern 256 "/(?<a>x(?P<b>[(]\\()(?:y))(z)(?'a'w)(?=(q))/").outcome =
      .ok ⟨"/(x([(]\\()(?:y))(z)(w)(?=(q))/", ⟨[("a", 4), ("b", 2)]⟩⟩ ∧
    ∃ p groups,
      (Pattern.parse 256 "/(?<a>x(?P<b>[(]\\()(?:y))(z)(?'a'w)(?=(q))/").outcome = .ok p ∧
        CapturingGroups p.body.toList groups ∧
        ["a", "b"] = (groups.filterMap Prod.snd).eraseDups ∧
        IsLatest groups "a" 4 ∧ IsLatest groups "b" 2 := by
  have hrun : (convertPattern 256 "/(?<a>x(?P<b>[(]\\()(?:y))(z)(?'a'w)(?=(q))/").outcome =
      .ok ⟨"/(x([(]\\()(?:y))(z)(w)(?=(q))/", ⟨[("a", 4), ("b", 2)]⟩⟩ := by decide +kernel
  obtain ⟨p, groups, hparse, hgroups, hnames, hnumbers⟩ := captures_convertPattern hrun
  exact ⟨hrun, p, groups, hparse, hgroups, hnames, (hnumbers "a" 4).1 (by decide),
    (hnumbers "b" 2).1 (by decide)⟩

end RegexText
