/-
  RegexText/Proofs/Source/Clashing.lean
  =====================================
  **Two symbols fold unless they clash.**

  The condition that a class is read member by member is about its text.  For a class
  of two symbols it comes down to a short list of pairs, `Clashes`: a number without
  digits and a digit, a number or an end of quoted text and a brace or a caret, and
  two ways of writing a sign of a POSIX class.

  The order of the members needs care.  Two symbols change places only if a hyphen
  has to come first or an escaped one loses its backslash (`classMembers_pair`), and
  no pair clashes by that alone.
-/
import RegexText.Proofs.Source.Folding
import RegexText.WordList

namespace RegexText.Source

open RegexText.Symbol
open Text (forall_mem_of_all)
open Target (hexDigit? isOctalDigit number)

variable {c : Char} {x y s t : String}

/-! ### Symbols that do not go together -/

/-- The letters of escapes that take in a character that has lost its backslash, with that
    character. -/
def takenBare : List (Char × Char) := [('x', '{'), ('E', '^')]

/-- The pairs of symbols whose class is not read member by member: one takes in the other, or the
    class is written like a name.  A symbol that loses its backslash goes to the end in any case. -/
inductive Clashes : String → String → Prop where
  | octal {c : Char} (h : isOctalDigit c = true) : Clashes "\\0" (String.singleton c)
  | hex {c : Char} (h : (hexDigit? c).isSome = true) : Clashes "\\x" (String.singleton c)
  | brace : Clashes "\\x" (String.singleton '{')
  | unescaped {letter c : Char} (h : (letter, c) ∈ takenBare) : Clashes (escaped letter) (escaped c)
  | unescapedFirst {letter c : Char} (h : (letter, c) ∈ takenBare) :
      Clashes (escaped c) (escaped letter)
  | named {sign : Char} (h : sign = ':' ∨ sign = '=') :
      Clashes (String.singleton sign) (escaped sign)

/-- A character that is written as it is clashes with a number only. -/
theorem Clashes.of_singleton (h : Clashes s (String.singleton c)) :
    s = "\\0" ∧ isOctalDigit c = true ∨
      s = "\\x" ∧ ((hexDigit? c).isSome = true ∨ c = '{') := by
  generalize ht : String.singleton c = t at h
  cases h with
  | octal hdigit => exact .inl ⟨rfl, String.singleton_inj.1 ht ▸ hdigit⟩
  | hex hdigit => exact .inr ⟨rfl, .inl (String.singleton_inj.1 ht ▸ hdigit)⟩
  | brace => exact .inr ⟨rfl, .inr (String.singleton_inj.1 ht)⟩
  | unescaped | unescapedFirst | named => exact absurd ht.symm (escaped_ne_singleton _ c)

/-- A symbol is read in the same way without its backslash, where it loses that. -/
theorem inside?_bare (x : String) : inside? (bare x) = inside? x := by
  by_cases hx : x ∈ literalInClass.map escaped
  · obtain ⟨c, hc, rfl⟩ := List.mem_map.1 hx
    rw [bare_escaped hc, inside?_escaped c hc]
  · rw [bare_of_not_mem hx]

/-- What takes in a member is an escape, and what it takes in is a character. -/
theorem exists_of_takesIn (hy : (inside? y).isSome = true) (h : TakesIn x y.toList) :
    ∃ letter c, x = escaped letter ∧ y = String.singleton c ∧
      (letter = '0' ∧ isOctalDigit c = true ∨ letter = 'x' ∧ (hexDigit? c).isSome = true ∨
        (letter, c) ∈ takenBare) := by
  rcases exists_of_isSome_inside? hy with ⟨c, rfl⟩ | ⟨c, rfl⟩
  · simp only [TakesIn, String.toList_singleton, List.head?_cons, Option.mem_some_iff,
      exists_eq_left', Option.some.injEq] at h
    rcases h with ⟨rfl, hdigit⟩ | ⟨rfl, hdigit | rfl⟩ | ⟨rfl, rfl⟩
    · exact ⟨'0', c, rfl, rfl, .inl ⟨rfl, hdigit⟩⟩
    · exact ⟨'x', c, rfl, rfl, .inr (.inl ⟨rfl, hdigit⟩)⟩
    · exact ⟨'x', '{', rfl, rfl, .inr (.inr (by decide))⟩
    · exact ⟨'E', '^', rfl, rfl, .inr (.inr (by decide))⟩
  · have hbackslash : isOctalDigit '\\' = false ∧ (hexDigit? '\\').isSome = false := by decide
    simp [TakesIn, escaped, hbackslash.1, hbackslash.2] at h

theorem mem_takenBare {letter : Char} (hc : c ∈ literalInClass)
    (h : letter = '0' ∧ isOctalDigit c = true ∨ letter = 'x' ∧ (hexDigit? c).isSome = true ∨
      (letter, c) ∈ takenBare) : (letter, c) ∈ takenBare := by
  have hdigits : ∀ c ∈ literalInClass, isOctalDigit c = false ∧ (hexDigit? c).isSome = false :=
    forall_mem_of_all (by decide)
  rcases h with ⟨_, h⟩ | ⟨_, h⟩ | h
  · exact absurd h (by simp [(hdigits c hc).1])
  · exact absurd h (by simp [(hdigits c hc).2])
  · exact h

theorem Clashes.of_takesIn (hcaret : t ≠ "^") (ht : (inside? (bare t)).isSome = true)
    (h : TakesIn (bare s) (bare t).toList) : Clashes s t := by
  obtain ⟨letter, c, hbares, hbaret, hcases⟩ := exists_of_takesIn ht h
  obtain ⟨rfl, _⟩ := bare_eq_escaped.1 hbares
  rcases bare_eq_singleton.1 hbaret with rfl | ⟨rfl, hc⟩
  · rcases hcases with ⟨rfl, hdigit⟩ | ⟨rfl, hdigit⟩ | htaken
    · exact .octal hdigit
    · exact .hex hdigit
    · simp only [takenBare, List.mem_cons, Prod.mk.injEq, List.not_mem_nil, or_false] at htaken
      rcases htaken with ⟨rfl, rfl⟩ | ⟨rfl, rfl⟩
      · exact .brace
      · exact absurd rfl hcaret
  · exact .unescaped (mem_takenBare hc hcases)

/-- The same for symbols that have changed places. -/
theorem Clashes.of_takesIn_swap (hlast : t = "-" ∨ s ∈ literalInClass.map escaped)
    (hs : (inside? (bare s)).isSome = true) (h : TakesIn (bare t) (bare s).toList) :
    Clashes s t := by
  obtain ⟨letter, c, hbaret, hbares, hcases⟩ := exists_of_takesIn hs h
  obtain ⟨rfl, _⟩ := bare_eq_escaped.1 hbaret
  rcases hlast with hhyphen | hmem
  · exact absurd hhyphen (escaped_ne_singleton letter '-')
  · obtain ⟨d, hd, rfl⟩ := List.mem_map.1 hmem
    obtain rfl : d = c := String.singleton_inj.1 ((bare_escaped hd).symm.trans hbares)
    exact .unescapedFirst (mem_takenBare hd hcases)

/-- A class of two members that looks like a name has the same sign twice. -/
theorem exists_of_looksNamed (hx : (inside? x).isSome = true) (hy : (inside? y).isSome = true)
    (h : Class.looksNamed (x.toList ++ y.toList) = true) :
    ∃ sign ∈ [':', '.', '='], x = String.singleton sign ∧
      (y = String.singleton sign ∨ y = escaped sign) := by
  obtain ⟨sign, hsign, hends⟩ := List.any_eq_true.1 h
  simp only [Bool.and_eq_true, beq_iff_eq] at hends
  refine ⟨sign, hsign, ?_⟩
  rcases exists_of_isSome_inside? hx with ⟨c, rfl⟩ | ⟨c, rfl⟩
  · rcases exists_of_isSome_inside? hy with ⟨d, rfl⟩ | ⟨d, rfl⟩ <;>
      obtain ⟨rfl, rfl⟩ : c = sign ∧ d = sign := by simpa [escaped] using hends
    · exact ⟨rfl, .inl rfl⟩
    · exact ⟨rfl, .inr rfl⟩
  · obtain rfl : '\\' = sign := by simpa [escaped] using hends.1
    exact absurd hsign (by decide)

theorem Clashes.of_looksNamed (hst : s ≠ t) (hdot : s ≠ "." ∧ t ≠ ".")
    (hs : (inside? (bare s)).isSome = true) (ht : (inside? (bare t)).isSome = true)
    (h : Class.looksNamed ((bare s).toList ++ (bare t).toList) = true) : Clashes s t := by
  obtain ⟨sign, hsign, hbares, hbaret⟩ := exists_of_looksNamed hs ht h
  have hliteral : ∀ sign ∈ [':', '.', '='], sign ∈ literalInClass → sign = '.' :=
    forall_mem_of_all (by decide)
  rcases bare_eq_singleton.1 hbares with rfl | ⟨rfl, hmem⟩
  · have hsigns : sign = ':' ∨ sign = '=' := by
      have hne : sign ≠ '.' := fun h => hdot.1 (h ▸ rfl)
      simpa [hne] using hsign
    rcases hbaret with hbaret | hbaret
    · rcases bare_eq_singleton.1 hbaret with rfl | ⟨rfl, hmem⟩
      · exact absurd rfl hst
      · exact absurd (hliteral sign hsign hmem ▸ rfl) hdot.1
    · obtain ⟨rfl, _⟩ := bare_eq_escaped.1 hbaret
      exact .named hsigns
  · rcases hbaret with hbaret | hbaret
    · rcases bare_eq_singleton.1 hbaret with rfl | ⟨rfl, _⟩
      · exact absurd (hliteral sign hsign hmem ▸ rfl) hdot.2
      · exact absurd rfl hst
    · exact absurd hmem (bare_eq_escaped.1 hbaret).2

/-- Symbols that have changed places do not look like a name. -/
theorem looksNamed_swap (hst : s ≠ t) (hdot : t ≠ ".")
    (hlast : t = "-" ∨ s ∈ literalInClass.map escaped)
    (hs : (inside? (bare s)).isSome = true) (ht : (inside? (bare t)).isSome = true) :
    Class.looksNamed ((bare t).toList ++ (bare s).toList) = false := by
  by_contra hname
  obtain ⟨sign, hsign, hbaret, hbares⟩ := exists_of_looksNamed ht hs (by simpa using hname)
  have hliteral : ∀ sign ∈ [':', '.', '='], sign ∈ literalInClass → sign = '.' :=
    forall_mem_of_all (by decide)
  rcases hlast with rfl | hmem
  · obtain rfl : '-' = sign := String.singleton_inj.1 hbaret
    exact absurd hsign (by decide)
  · obtain ⟨d, hd, rfl⟩ := List.mem_map.1 hmem
    rw [bare_escaped hd, String.singleton_inj,
      or_iff_left (escaped_ne_singleton sign d).symm] at hbares
    subst hbares
    rcases bare_eq_singleton.1 hbaret with rfl | ⟨rfl, _⟩
    · exact hdot (hliteral d hsign hd ▸ rfl)
    · exact hst rfl

/-! ### Which symbols fold -/

/-- What can be checked for the characters up to one holds of all of them. -/
theorem forall_le_of_all {p : Char → Prop} [DecidablePred p] {d : Char}
    (h : ((List.range (d.toNat + 1)).all fun n => decide (p (Char.ofNat n))) = true) :
    ∀ c ≤ d, p c := by
  intro c hc
  have hn : c.toNat < d.toNat + 1 := Nat.lt_succ_of_le hc
  simpa [Char.ofNat_toNat] using forall_mem_of_all h c.toNat (List.mem_range.2 hn)

theorem Clashes.not_folds (h : Clashes s t) : ¬ Folds s t := by
  cases h with
  | @octal c hdigit =>
    have hall : ∀ c ≤ '7', isOctalDigit c = true →
        (characterClass ["\\0", String.singleton c]).toList = '[' :: ['\\', '0', c] ++ [']'] ∧
          Class.read? ['\\', '0', c] = some ⟨false, [.char (Char.ofNat (number 8 [c]))]⟩ ∧
            alone? (String.singleton c) = some (.char c) ∧ c ≠ Char.ofNat (number 8 [c]) :=
      forall_le_of_all (by decide +kernel)
    have hle : c ≤ '7' := by
      simp only [isOctalDigit, Bool.and_eq_true, decide_eq_true_eq] at hdigit
      exact hdigit.2
    obtain ⟨htext, hread, halone, hne⟩ := hall c hle hdigit
    exact not_folds_of_read?_eq_char _ htext hread halone hne
  | @hex c hdigit =>
    have hall : ∀ c ≤ 'f', (hexDigit? c).isSome = true →
        (characterClass ["\\x", String.singleton c]).toList = '[' :: ['\\', 'x', c] ++ [']'] ∧
          Class.read? ['\\', 'x', c] = some ⟨false, [.char (Char.ofNat (number 16 [c]))]⟩ ∧
            alone? (String.singleton c) = some (.char c) ∧ c ≠ Char.ofNat (number 16 [c]) :=
      forall_le_of_all (by decide +kernel)
    have hle : c ≤ 'f' := by
      unfold hexDigit? at hdigit
      split_ifs at hdigit with h h h
      · exact h.2.trans (by decide)
      · exact h.2.trans (by decide)
      · exact h.2
      · cases hdigit
    obtain ⟨htext, hread, halone, hne⟩ := hall c hle hdigit
    exact not_folds_of_read?_eq_char _ htext hread halone hne
  | brace =>
    exact not_folds_of_read?_eq_none ['\\', 'x', '{'] (by decide +kernel)
      (by decide +kernel)
  | @unescaped letter c htaken =>
    have hall : ∀ p ∈ takenBare, (characterClass [escaped p.1, escaped p.2]).toList =
        '[' :: ['\\', p.1, p.2] ++ [']'] ∧ Class.read? ['\\', p.1, p.2] = none := by
      decide +kernel
    exact not_folds_of_read?_eq_none _ (hall _ htaken).1 (hall _ htaken).2
  | @unescapedFirst letter c htaken =>
    have hall : ∀ p ∈ takenBare, (characterClass [escaped p.2, escaped p.1]).toList =
        '[' :: ['\\', p.1, p.2] ++ [']'] ∧ Class.read? ['\\', p.1, p.2] = none := by
      decide +kernel
    exact not_folds_of_read?_eq_none _ (hall _ htaken).1 (hall _ htaken).2
  | @named sign hsign =>
    have hall : ∀ sign ∈ [':', '='],
        (characterClass [String.singleton sign, escaped sign]).toList =
          '[' :: [sign, '\\', sign] ++ [']'] ∧ Class.read? [sign, '\\', sign] = none :=
      forall_mem_of_all (by decide +kernel)
    have hmem : sign ∈ [':', '='] := by simpa using hsign
    exact not_folds_of_read?_eq_none _ (hall sign hmem).1 (hall sign hmem).2

/-- **Folding keeps the meaning of two class-safe symbols exactly if they do not clash**, where both
    are patterns by themselves and neither is on the list of those that are misread. -/
theorem folds_iff_not_clashes (hs : isClassSafe s = true) (ht : isClassSafe t = true) (hst : s ≠ t)
    (hspattern : (alone? s).isSome = true) (htpattern : (alone? t).isSome = true)
    (hskept : s ∉ misread) (htkept : t ∉ misread) : Folds s t ↔ ¬ Clashes s t := by
  refine ⟨fun hfolds hclash => hclash.not_folds hfolds, fun hclash => ?_⟩
  have hpattern : ∀ x ∈ [s, t], (alone? x).isSome = true := by simp [hspattern, htpattern]
  have hsame : ∀ x ∈ [s, t], inside? x = alone? x := by
    intro x hx
    have hsafe : isClassSafe x = true := by
      rcases List.mem_pair.1 hx with rfl | rfl <;> assumption
    have hkept : x ∉ misread := by
      rcases List.mem_pair.1 hx with rfl | rfl <;> assumption
    obtain ⟨m, hm⟩ := Option.isSome_iff_exists.1 (hpattern x hx)
    rw [hm, (inside?_eq_iff hsafe hm).2 hkept]
  have hbare : ∀ x ∈ [s, t], (inside? (bare x)).isSome = true := by
    intro x hx
    rw [inside?_bare, hsame x hx]
    exact hpattern x hx
  obtain ⟨hbares, hbaret⟩ : (inside? (bare s)).isSome = true ∧ (inside? (bare t)).isSome = true :=
    ⟨hbare s (by simp), hbare t (by simp)⟩
  have hcaret : s ≠ "^" ∧ t ≠ "^" :=
    ⟨fun h => hskept (h ▸ by decide), fun h => htkept (h ▸ by decide)⟩
  have hdot : s ≠ "." ∧ t ≠ "." :=
    ⟨fun h => absurd hs (h ▸ by decide), fun h => absurd ht (h ▸ by decide)⟩
  obtain ⟨hopen, hname⟩ : (classMembers [s, t]).IsChain (fun x y => ¬ TakesIn x y.toList) ∧
      Class.looksNamed ((classMembers [s, t]).flatMap String.toList) = false := by
    rcases classMembers_pair hst with hmembers | ⟨hmembers, hlast⟩
    · rw [hmembers, List.isChain_pair]
      refine ⟨fun htakes => hclash (.of_takesIn hcaret.2 hbaret htakes), ?_⟩
      by_contra hname
      exact hclash (.of_looksNamed hst hdot hbares hbaret (by simpa using hname))
    · rw [hmembers, List.isChain_pair]
      exact ⟨fun htakes => hclash (.of_takesIn_swap hlast hbares htakes),
        by simpa using looksNamed_swap hst hdot.2 hlast hbares hbaret⟩
  exact folds_of_inside?_eq hst (by simp [hcaret.1.symm, hcaret.2.symm]) hpattern hsame hopen hname

/-- A hyphen and a caret, of which the one goes to the front and the other to the end; and a number
    with a digit behind it that is none of its own. -/
theorem folds_iff_not_clashes_hyphen :
    characterClass ["\\^", "-"] = "[-^]" ∧ Folds "\\^" "-" ∧
      characterClass ["\\0", "8"] = "[\\08]" ∧ Folds "\\0" "8" := by
  have hhyphen : ¬ Clashes "\\^" "-" := fun h => absurd (h.of_singleton (c := '-')) (by decide)
  have height : ¬ Clashes "\\0" "8" := fun h => absurd (h.of_singleton (c := '8')) (by decide)
  exact ⟨by decide +kernel,
    (folds_iff_not_clashes (by decide) (by decide) (by decide) (by decide) (by decide) (by decide)
      (by decide)).2 hhyphen,
    by decide +kernel,
    (folds_iff_not_clashes (by decide) (by decide) (by decide) (by decide) (by decide) (by decide)
      (by decide)).2 height⟩

/-- A caret and a letter count as class safe and make a negated class, also where the caret was
    given as a special text. -/
theorem not_folds_caret :
    isClassSafe "^" = true ∧ isClassSafe "a" = true ∧ "^" ≠ "a" ∧
      alone? "^" = some .place ∧ alone? "a" = some (.char 'a') ∧
      characterClass ["^", "a"] = "[^a]" ∧ Class.read? ['^', 'a'] = some ⟨true, [.char 'a']⟩ ∧
      ¬ Folds "^" "a" ∧
      (WordList.synthesize (WordList.Options.default.withSpecial 'x' "^") ["a", "x"]).outcome =
        .ok "[^a]" := by
  have hread : Class.read? ['^', 'a'] = some ⟨true, [.char 'a']⟩ := by decide +kernel
  refine ⟨by decide, by decide, by decide, by decide, by decide, by decide +kernel, hread, ?_,
    by decide +kernel⟩
  refine not_folds ['^', 'a'] (by decide +kernel) ?_
  rw [hread]
  rintro _ ⟨rfl⟩
  refine ⟨fun _ _ => False, 'b', ?_⟩
  have halone : alone? "^" = some .place ∧ alone? "a" = some (.char 'a') := by decide
  simp [Class.Matches, Meaning.Matches, halone.1, halone.2]

end RegexText.Source
