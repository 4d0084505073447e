/-
  RegexText/Proofs/Symbol.lean
  ============================
  **A class of symbols denotes the set of their characters.**

  Between its brackets a class of class-safe symbols is a list of characters, each
  in the spelling that it needs there: three of them keep their backslash.  All
  that matters of their order is where the hyphen and the caret stand, and that no
  opening bracket comes before a sign of a POSIX class (`Ordered`).  From such a
  list the two dialects, and a reader for what they have in common, read one
  character after the other.

  The target reads code units.  A character beyond the basic plane is two of them,
  and each is a member of its own, so that the class matches either unit and never
  the character.  To the target a class denotes the set of its characters if and
  only if all of them are on the basic plane.
-/
import Mathlib.Data.Set.List
import RegexText.Proofs.Source.Folding
import RegexText.Proofs.Target.Bracket
import RegexText.Proofs.Target.Units
import RegexText.Proofs.WordList.Lookahead

namespace RegexText.Symbol

open Text Regular

variable {symbols : List String} {c : Char} {cs : List Char}

/-! ### Characters as members -/

/-- The special characters that need their backslash between brackets, or keep it there. -/
def escapedInClass : List Char := ['\\', ']', '#']

/-- A character as it is written between brackets. -/
def spelled (c : Char) : String :=
  if c ∈ escapedInClass then escaped c else String.singleton c

theorem ofChar_of_mem_special (h : c ∈ special) : ofChar c = escaped c := by
  have hnul : ∀ d ∈ special, d ≠ '\x00' := forall_mem_of_all (by decide)
  rw [ofChar, if_neg (hnul c h), if_pos h]
  rfl

theorem ofChar_of_not_mem_special (hnul : c ≠ '\x00') (h : c ∉ special) :
    ofChar c = String.singleton c := by
  rw [ofChar, if_neg hnul, if_neg h]

/-- A special character loses its backslash between brackets, or it is one of three. -/
theorem bare_ofChar (hnul : c ≠ '\x00') : bare (ofChar c) = spelled c := by
  by_cases hspecial : c ∈ special
  · have hcases : ∀ d ∈ special, bare (escaped d) = spelled d := forall_mem_of_all (by decide)
    rw [ofChar_of_mem_special hspecial, hcases c hspecial]
  · have hescaped : ∀ d ∈ escapedInClass, d ∈ special := forall_mem_of_all (by decide)
    have hbare : String.singleton c ∉ literalInClass.map escaped := by
      intro hmem
      rcases List.mem_map.1 hmem with ⟨d, -, hd⟩
      exact escaped_ne_singleton d c hd
    rw [ofChar_of_not_mem_special hnul hspecial, bare_of_not_mem hbare, spelled,
      if_neg fun hmem => hspecial (hescaped c hmem)]

theorem spelled_injective : Function.Injective spelled := by
  intro c d h
  unfold spelled at h
  split_ifs at h
  · exact escaped_inj.1 h
  · exact absurd h (escaped_ne_singleton c d)
  · exact absurd h.symm (escaped_ne_singleton d c)
  · exact String.singleton_inj.1 h

/-- A spelling begins with its character, or with a backslash. -/
theorem eq_of_head?_spelled {d : Char} {rest : List Char} (hd : d ≠ '\\')
    (h : ((spelled c).toList ++ rest).head? = some d) : c = d := by
  unfold spelled at h
  split_ifs at h
  · simp [escaped] at h
    exact absurd h.symm hd
  · simpa using h

/-! ### The members of a class -/

/-- Is a symbol one that a class may be made of? -/
def IsMember (x : String) : Prop := isClassSafe x = true ∧ ∃ c, x = ofChar c

theorem IsMember.exists_char {x : String} (h : IsMember x) : ∃ c, x = ofChar c ∧ c ≠ '\x00' := by
  rcases h with ⟨hsafe, c, rfl⟩
  exact ⟨c, rfl, isClassSafe_ofChar.1 hsafe⟩

theorem isMember_of_mem_map (hnul : '\x00' ∉ cs) : ∀ x ∈ cs.map ofChar, IsMember x := by
  intro x hx
  rcases List.mem_map.1 hx with ⟨c, hc, rfl⟩
  refine ⟨isClassSafe_ofChar.2 ?_, c, rfl⟩
  rintro rfl
  exact hnul hc

/-- Characters in an order in which they can be written between brackets. -/
structure Ordered (cs : List Char) : Prop where
  nodup : cs.Nodup
  hyphen : '-' ∉ cs.tail
  caret : cs.head? ≠ some '^'
  posix : cs.Pairwise fun c d => c = '[' → d ∉ [':', '.', '=']

theorem singleton_not_mem (hsymbols : ∀ x ∈ symbols, IsMember x) :
    ∀ c ∈ literalInClass, String.singleton c ∉ symbols := by
  intro c hc hmem
  have hspecial : ∀ d ∈ literalInClass, d ∈ special := forall_mem_of_all (by decide)
  rcases (hsymbols _ hmem).exists_char with ⟨d, hd, hnul⟩
  by_cases hdspecial : d ∈ special
  · rw [ofChar_of_mem_special hdspecial] at hd
    exact escaped_ne_singleton d c hd.symm
  · rw [ofChar_of_not_mem_special hnul hdspecial] at hd
    exact hdspecial (String.singleton_inj.1 hd ▸ hspecial c hc)

theorem mem_classMembers_iff (hsymbols : ∀ x ∈ symbols, IsMember x) {x : String} :
    x ∈ classMembers symbols ↔ ∃ c, ofChar c ∈ symbols ∧ x = spelled c := by
  rw [(perm_classMembers symbols).mem_iff, List.mem_map]
  constructor
  · rintro ⟨y, hy, rfl⟩
    have hmem := List.mem_eraseDups.1 hy
    rcases (hsymbols y hmem).exists_char with ⟨c, rfl, hnul⟩
    exact ⟨c, hmem, bare_ofChar hnul⟩
  · rintro ⟨c, hc, rfl⟩
    exact ⟨ofChar c, List.mem_eraseDups.2 hc, bare_ofChar (isClassSafe_ofChar.1 (hsymbols _ hc).1)⟩

theorem nodup_classMembers (hsymbols : ∀ x ∈ symbols, IsMember x) :
    (classMembers symbols).Nodup := by
  apply (perm_classMembers symbols).nodup_iff.2
  apply List.Nodup.map_on _ (nodup_eraseDups symbols)
  intro x hx y hy heq
  rcases (hsymbols x (List.mem_eraseDups.1 hx)).exists_char with ⟨c, rfl, hc⟩
  rcases (hsymbols y (List.mem_eraseDups.1 hy)).exists_char with ⟨d, rfl, hd⟩
  rw [bare_ofChar hc, bare_ofChar hd] at heq
  rw [spelled_injective heq]

/-- **The members of a class are the characters of its symbols, in order.** -/
theorem exists_classMembers (hsymbols : ∀ x ∈ symbols, IsMember x) {a b : String}
    (ha : a ∈ symbols) (hb : b ∈ symbols) (hab : a ≠ b) :
    ∃ cs, classMembers symbols = cs.map spelled ∧ Ordered cs ∧
      ∀ c, c ∈ cs ↔ ofChar c ∈ symbols := by
  have hbare := singleton_not_mem hsymbols
  have hspelled : ∀ x ∈ classMembers symbols, x ∈ Set.range spelled := by
    intro x hx
    rcases (mem_classMembers_iff hsymbols).1 hx with ⟨c, -, rfl⟩
    exact ⟨c, rfl⟩
  have hrange : classMembers symbols ∈ Set.range (List.map spelled) := by
    rw [Set.range_list_map]
    exact hspelled
  rcases hrange with ⟨cs, hcs⟩
  refine ⟨cs, hcs.symm, ⟨?_, ?_, ?_, ?_⟩, ?_⟩
  · apply List.Nodup.of_map spelled
    rw [hcs]
    exact nodup_classMembers hsymbols
  · intro hmem
    have htail : "-" ∈ (classMembers symbols).tail := by
      rw [← hcs, ← List.map_tail]
      exact List.mem_map_of_mem hmem
    exact ne_hyphen_of_mem_tail_classMembers htail rfl
  · intro hhead
    have hcaret : (classMembers symbols).head? = some "^" := by
      rw [← hcs, List.head?_map, hhead]
      rfl
    exact head?_classMembers_ne (hbare '^' (by decide)) ha hb hab hcaret
  · have hposix := pairwise_classMembers (hbare '[' (by decide))
    rw [← hcs, List.pairwise_map] at hposix
    apply hposix.imp
    rintro c d hcd rfl hd
    have hsign : ∀ d ∈ [':', '.', '='], spelled d = ":" ∨ spelled d = "." ∨ spelled d = "=" :=
      forall_mem_of_all (by decide)
    have hno := hcd rfl
    rcases hsign d hd with h | h | h
    · exact hno.1 h
    · exact hno.2.1 h
    · exact hno.2.2 h
  · intro c
    rw [← List.mem_map_of_injective spelled_injective, hcs, mem_classMembers_iff hsymbols]
    constructor
    · rintro ⟨d, hd, heq⟩
      rwa [spelled_injective heq]
    · intro hc
      exact ⟨c, hc, rfl⟩

/-! ### The text of a class -/

/-- What stands between the brackets. -/
def content (cs : List Char) : List Char := (cs.map spelled).flatMap String.toList

theorem content_cons (c : Char) (cs : List Char) :
    content (c :: cs) = (spelled c).toList ++ content cs := rfl

theorem head?_content {d : Char} (hd : d ≠ '\\') (h : (content cs).head? = some d) :
    cs.head? = some d := by
  cases cs with
  | nil => cases h
  | cons c cs => rw [List.head?_cons, eq_of_head?_spelled hd h]

theorem mem_of_mem_content {d : Char} (hd : d ≠ '\\') (h : d ∈ content cs) : d ∈ cs := by
  rw [content, List.flatMap_map] at h
  rcases List.mem_flatMap.1 h with ⟨c, hc, hmem⟩
  have heq : d = c := by
    unfold spelled at hmem
    split_ifs at hmem
    · simpa [escaped, hd] using hmem
    · simpa using hmem
  rwa [heq]

/-- Nothing between the brackets looks like the opening of a POSIX class. -/
theorem not_posix_infix (h : cs.Pairwise fun c d => c = '[' → d ∉ [':', '.', '='])
    {sign : Char} (hsign : sign ∈ [':', '.', '=']) : ¬ ['[', sign] <:+: content cs := by
  have hplain : sign ≠ '\\' := by
    rintro rfl
    exact absurd hsign (by decide)
  induction cs with
  | nil => simp [content]
  | cons c cs ih =>
    rcases List.pairwise_cons.1 h with ⟨hfirst, hrest⟩
    have hlater := ih hrest
    rw [content_cons, spelled]
    split_ifs with hescaped
    · have hbracket : c ≠ '[' := by
        rintro rfl
        exact absurd hescaped (by decide)
      simp [escaped, List.infix_cons_iff, List.cons_prefix_cons, hlater, hbracket.symm]
    · intro hinfix
      rw [String.toList_singleton, List.singleton_append, List.infix_cons_iff,
        List.cons_prefix_cons, or_iff_left hlater] at hinfix
      rcases hinfix with ⟨rfl, rest, hrest⟩
      have hhead := head?_content hplain (congrArg List.head? hrest).symm
      exact hfirst sign (List.mem_of_mem_head? hhead) rfl hsign

/-- A bracket expression by itself is one token. -/
theorem outcome_tokenize_bracket (limit : Nat) {content : List Char}
    (h : FreeOf (· = ']') content) :
    (tokenize limit ('[' :: content ++ [']'])).outcome =
      .ok [⟨0, byteLength ('[' :: content ++ [']']),
        .characterClass (String.ofList content) ""⟩] := by
  have hlexemes : Lexeme.ofBody ('[' :: content ++ [']']) = [.bracket content []] := by
    have hbracket := Lexeme.ofBody_bracket h none fresh_nil
    simpa [Quantifier.text, Quantifier.absorbed, Quantifier.remaining, Lexeme.ofBody] using hbracket
  rw [outcome_tokenize, hlexemes]
  rfl

/-! ### What the dialects have in common -/

theorem member?_ofChar (hnul : c ≠ '\x00') : member? (ofChar c) = some (Member.ofChar c) := by
  by_cases hspecial : c ∈ special
  · have hall : ∀ d ∈ special, member? (escaped d) = some (Member.ofChar d) :=
      forall_mem_of_all (by decide)
    rw [ofChar_of_mem_special hspecial, hall c hspecial]
  · have hne : ∀ d ∈ special, c ≠ d := fun d hd heq => hspecial (heq ▸ hd)
    rw [ofChar_of_not_mem_special hnul hspecial]
    simp [member?, hne '\\' (by decide), hne ']' (by decide)]

theorem matches_memberOfChar {D : Dialect} {d : Char} : (Member.ofChar c).Matches D d ↔ d = c := by
  unfold Member.ofChar
  split_ifs with h
  · rw [h]
    rfl
  · rfl

/-! ### The source dialect -/

theorem inside?_ofChar (hnul : c ≠ '\x00') : Source.inside? (ofChar c) = some (.char c) := by
  by_cases hspecial : c ∈ special
  · have hall : ∀ d ∈ special, Source.inside? (escaped d) = some (.char d) :=
      forall_mem_of_all (by decide)
    rw [ofChar_of_mem_special hspecial, hall c hspecial]
  · have hne : ∀ d ∈ special, c ≠ d := fun d hd heq => hspecial (heq ▸ hd)
    rw [ofChar_of_not_mem_special hnul hspecial]
    simp [Source.inside?, hne '\\' (by decide), hne ']' (by decide)]

theorem not_takesIn_spelled (c : Char) (cs : List Char) : ¬ Source.TakesIn (spelled c) cs := by
  have hplain : ∀ d ∈ ['0', 'x', 'E'], d ∉ escapedInClass := forall_mem_of_all (by decide)
  have hletter : ∀ d ∈ ['0', 'x', 'E'], spelled c ≠ escaped d := by
    intro d hd heq
    unfold spelled at heq
    split_ifs at heq with hescaped
    · rw [escaped_inj.1 heq] at hescaped
      exact absurd hescaped (hplain d hd)
    · exact escaped_ne_singleton d c heq.symm
  rintro (⟨h, -⟩ | ⟨h, -⟩ | ⟨h, -⟩)
  · exact hletter '0' (by decide) h
  · exact hletter 'x' (by decide) h
  · exact hletter 'E' (by decide) h

/-- A class does not look like a name, because no sign comes twice. -/
theorem looksNamed_content (h : cs.Nodup) : Source.Class.looksNamed (content cs) = false := by
  apply List.any_eq_false.2
  intro sign hsign hnamed
  have hplain : sign ≠ '\\' := by
    rintro rfl
    exact absurd hsign (by decide)
  have hescaped : sign ∉ escapedInClass :=
    (forall_mem_of_all (by decide) : ∀ d ∈ [':', '.', '='], d ∉ escapedInClass) sign hsign
  simp only [Bool.and_eq_true, beq_iff_eq] at hnamed
  rcases List.head?_eq_some_iff.1 (head?_content hplain hnamed.1) with ⟨ds, rfl⟩
  have htail : (content (sign :: ds)).tail = content ds := by
    rw [content_cons, spelled, if_neg hescaped]
    simp
  rw [htail] at hnamed
  exact (List.nodup_cons.1 h).1 (mem_of_mem_content hplain (List.mem_of_mem_getLast? hnamed.2))

/-! ### The target dialect -/

/-- What the target reads of a character. -/
def atomsOf (c : Char) : List Target.Atom :=
  if c = '-' then [.hyphen] else (Target.unitsOf c).map .unit

theorem atoms?_spelled (c : Char) (rest : List Char) :
    Target.atoms? ((spelled c).toList ++ rest) = (Target.atoms? rest).map (atomsOf c ++ ·) := by
  unfold spelled
  split_ifs with hescaped
  · have hunits : Target.escape c rest = ((Target.unitsOf c).map .unit, 0) ∧ c ≠ '-' := by
      simp only [escapedInClass, List.mem_cons, List.not_mem_nil, or_false] at hescaped
      rcases hescaped with rfl | rfl | rfl
      · exact ⟨rfl, by decide⟩
      · exact ⟨rfl, by decide⟩
      · exact ⟨rfl, by decide⟩
    rw [escaped, String.toList_ofList, List.cons_append, List.cons_append, List.nil_append,
      Target.atoms?_pair, hunits.1, List.drop_zero, atomsOf, if_neg hunits.2]
  · rw [String.toList_singleton, List.singleton_append]
    by_cases hhyphen : c = '-'
    · rw [hhyphen, Target.atoms?_hyphen]
      rfl
    · have hne : ∀ d ∈ escapedInClass, c ≠ d := fun d hd heq => hescaped (heq ▸ hd)
      rw [Target.atoms?_char (hne '\\' (by decide)) (hne ']' (by decide)) hhyphen, atomsOf,
        if_neg hhyphen]

theorem atoms?_content (cs : List Char) :
    Target.atoms? (content cs) = some (cs.flatMap atomsOf) := by
  induction cs with
  | nil => exact Target.atoms?_nil
  | cons c cs ih =>
    rw [content_cons, atoms?_spelled, ih]
    rfl

theorem hyphen_mem_atomsOf : Target.Atom.hyphen ∈ atomsOf c ↔ c = '-' := by
  unfold atomsOf
  split_ifs with h
  · simp [h]
  · simp [h]

/-- Only the first character may be a hyphen, so only the first atom may be one. -/
theorem hyphen_not_mem_tail (h : '-' ∉ cs.tail) :
    Target.Atom.hyphen ∉ (cs.flatMap atomsOf).tail := by
  cases cs with
  | nil => exact List.not_mem_nil
  | cons c cs =>
    have hlater : Target.Atom.hyphen ∉ cs.flatMap atomsOf := by
      intro hmem
      rcases List.mem_flatMap.1 hmem with ⟨d, hd, hhyphen⟩
      exact h (hyphen_mem_atomsOf.1 hhyphen ▸ hd)
    rw [List.flatMap_cons]
    by_cases hc : c = '-'
    · rw [hc]
      exact hlater
    · intro hmem
      rcases List.mem_append.1 (List.mem_of_mem_tail hmem) with hfirst | hrest
      · exact hc (hyphen_mem_atomsOf.1 hfirst)
      · exact hlater hrest

/-- Without a hyphen behind its first atom, a text between brackets has no range. -/
theorem items?_of_hyphen_not_mem_tail {as : List Target.Atom} (h : Target.Atom.hyphen ∉ as.tail) :
    Target.items? as = some (as.map .atom) := by
  induction as with
  | nil => rfl
  | cons a as ih =>
    have hnext : ∀ b bs, as ≠ .hyphen :: b :: bs := by
      rintro b bs rfl
      exact h (List.mem_cons_self ..)
    rw [Target.items?_cons hnext, ih fun hmem => h (List.mem_of_mem_tail hmem)]
    rfl

theorem exists_mem_atomsOf {M : Target.Meaning} {u : Nat} :
    (∃ a ∈ atomsOf c, a.Matches M u) ↔ u ∈ Target.unitsOf c := by
  unfold atomsOf
  split_ifs with h
  · rw [h]
    simp [Target.Atom.Matches, Target.unitsOf]
  · simp [Target.Atom.Matches]

/-- A character that is one unit shares it with no other character, as surrogates are no
    characters. -/
theorem toNat_mem_unitsOf_iff {d : Char} (hplane : c.toNat < 0x10000) :
    c.toNat ∈ Target.unitsOf d ↔ d = c := by
  have hc := Target.unitsOf_cases c
  rw [← Char.toNat_inj]
  rcases Target.unitsOf_cases d with ⟨hd, -⟩ | ⟨high, low, hd, hsurrogates⟩
  · rw [hd, List.mem_singleton, eq_comm]
  · rw [hd]
    simp only [List.mem_cons, List.not_mem_nil, or_false]
    rcases hc with ⟨-, hunit, -⟩ | ⟨high', low', -, hsurrogates'⟩
    · omega
    · omega

/-- Does a class of the target match the characters of a set, and nothing else?  It matches one
    unit at a time. -/
def Denotes (M : Target.Meaning) (b : Target.Class) (cs : Set Char) : Prop :=
  ∀ text, (∃ u, b.Matches M u ∧ text = [u]) ↔ ∃ c ∈ cs, text = Target.unitsOf c

/-- A class that matches the units of some characters denotes these if each has one unit. -/
theorem denotes_iff {M : Target.Meaning} {b : Target.Class} {cs : Set Char}
    (h : ∀ u, b.Matches M u ↔ ∃ c ∈ cs, u ∈ Target.unitsOf c) :
    Denotes M b cs ↔ ∀ c ∈ cs, c.toNat < 0x10000 := by
  constructor
  · intro hdenotes c hc
    rcases Target.unitsOf_cases c with ⟨-, -, hplane⟩ | ⟨high, low, htwo, -⟩
    · exact hplane
    · -- a text of two units is none that a class matches
      rcases (hdenotes (Target.unitsOf c)).2 ⟨c, hc, rfl⟩ with ⟨u, -, hone⟩
      rw [htwo] at hone
      cases hone
  · intro hplane text
    have hone : ∀ c ∈ cs, Target.unitsOf c = [c.toNat] := fun c hc => if_pos (hplane c hc)
    constructor
    · rintro ⟨u, hu, rfl⟩
      rcases (h u).1 hu with ⟨c, hc, hmem⟩
      rw [hone c hc, List.mem_singleton] at hmem
      exact ⟨c, hc, by rw [hone c hc, hmem]⟩
    · rintro ⟨c, hc, rfl⟩
      exact ⟨c.toNat, (h _).2 ⟨c, hc, by simp [hone c hc]⟩, hone c hc⟩

/-! ### What a class denotes -/

section Denotes

variable (hsymbols : ∀ x ∈ symbols, IsMember x) {a b : String} (ha : a ∈ symbols) (hb : b ∈ symbols)
  (hab : a ≠ b)

include hsymbols ha hb hab

theorem exists_common :
    ∃ bracket, Bracket.read? ((classMembers symbols).flatMap String.toList) = some bracket ∧
      bracket.negated = false ∧ (∀ item ∈ bracket.items, ∃ m, item = .member m) ∧
      ∀ D c, bracket.Matches D c ↔ ofChar c ∈ symbols := by
  have hmember : ∀ x ∈ symbols, (member? x).isSome = true := by
    intro x hx
    rcases (hsymbols x hx).exists_char with ⟨c, rfl, hnul⟩
    rw [member?_ofChar hnul]
    rfl
  refine ⟨_, read?_classMembers hmember (singleton_not_mem hsymbols) ha hb hab, rfl, ?_, ?_⟩
  · intro item hitem
    simp only [List.mem_map] at hitem
    rcases hitem with ⟨m, -, rfl⟩
    exact ⟨m, rfl⟩
  · intro D c
    simp only [Bracket.Matches, Bool.false_eq_true, if_false, List.mem_map,
      exists_exists_and_eq_and, mem_filterMap_classMembers member?_escaped, Item.Matches]
    constructor
    · rintro ⟨m, ⟨x, hx, hm⟩, hmatch⟩
      rcases (hsymbols x hx).exists_char with ⟨d, rfl, hnul⟩
      rw [member?_ofChar hnul] at hm
      cases hm
      rwa [matches_memberOfChar.1 hmatch]
    · intro hc
      have hnul := isClassSafe_ofChar.1 (hsymbols _ hc).1
      exact ⟨.ofChar c, ⟨ofChar c, hc, member?_ofChar hnul⟩, matches_memberOfChar.2 rfl⟩

theorem exists_source :
    ∃ bracket, Source.Class.read? ((classMembers symbols).flatMap String.toList) = some bracket ∧
      bracket.negated = false ∧ (∀ m ∈ bracket.members, ∃ c, m = .char c) ∧
      ∀ T c, bracket.Matches T c ↔ ofChar c ∈ symbols := by
  rcases exists_classMembers hsymbols ha hb hab with ⟨cs, hcs, hordered, -⟩
  have hbare := singleton_not_mem hsymbols
  have hinside : ∀ x ∈ symbols, (Source.inside? x).isSome = true := by
    intro x hx
    rcases (hsymbols x hx).exists_char with ⟨c, rfl, hnul⟩
    rw [inside?_ofChar hnul]
    rfl
  have hopen : (classMembers symbols).IsChain fun x y => ¬ Source.TakesIn x y.toList := by
    rw [hcs]
    apply List.Pairwise.isChain
    exact List.pairwise_map.2 (List.pairwise_of_forall fun c d => not_takesIn_spelled c _)
  have hname : Source.Class.looksNamed ((classMembers symbols).flatMap String.toList) = false := by
    rw [hcs]
    exact looksNamed_content hordered.nodup
  have hmem : ∀ m, m ∈ (classMembers symbols).filterMap Source.inside? ↔
      ∃ c, ofChar c ∈ symbols ∧ m = .char c := by
    intro m
    rw [mem_filterMap_classMembers Source.inside?_escaped]
    constructor
    · rintro ⟨x, hx, hm⟩
      rcases (hsymbols x hx).exists_char with ⟨d, rfl, hnul⟩
      rw [inside?_ofChar hnul] at hm
      cases hm
      exact ⟨d, hx, rfl⟩
    · rintro ⟨c, hc, rfl⟩
      exact ⟨ofChar c, hc, inside?_ofChar (isClassSafe_ofChar.1 (hsymbols _ hc).1)⟩
  have hread := Source.read?_classMembers hinside (hbare '[' (by decide)) (hbare '^' (by decide))
    hopen hname ha hb hab
  refine ⟨_, hread, rfl, ?_, ?_⟩
  · intro m hm
    simp only [hmem] at hm
    rcases hm with ⟨c, -, rfl⟩
    exact ⟨c, rfl⟩
  · intro T c
    simp only [Source.Class.Matches, Bool.false_eq_true, if_false, hmem]
    constructor
    · rintro ⟨m, ⟨d, hd, rfl⟩, hmatch⟩
      have heq : c = d := hmatch
      rwa [heq]
    · intro hc
      exact ⟨.char c, ⟨c, hc, rfl⟩, rfl⟩

theorem exists_target :
    ∃ bracket, Target.Class.read? ((classMembers symbols).flatMap String.toList) = some bracket ∧
      bracket.negated = false ∧ (∀ item ∈ bracket.items, ∃ a, item = .atom a) ∧
      ∀ M, (∀ u, bracket.Matches M u ↔ ∃ c, ofChar c ∈ symbols ∧ u ∈ Target.unitsOf c) ∧
        (∀ c, c.toNat < 0x10000 → (bracket.Matches M c.toNat ↔ ofChar c ∈ symbols)) ∧
        (Denotes M bracket {c | ofChar c ∈ symbols} ↔
          ∀ c, ofChar c ∈ symbols → c.toNat < 0x10000) := by
  rcases exists_classMembers hsymbols ha hb hab with ⟨cs, hcs, hordered, hmem⟩
  have hread : Target.Class.read? (content cs) =
      some ⟨false, (cs.flatMap atomsOf).map .atom⟩ := by
    have hcaret : (content cs).head? ≠ some '^' := fun hhead =>
      hordered.caret (head?_content (by decide) hhead)
    have hclass : Target.Class.read? ((if false = true then ['^'] else []) ++ content cs) = _ :=
      Target.Class.read?_caret fun _ => hcaret
    rw [Target.contents?, atoms?_content, Option.bind_some,
      items?_of_hyphen_not_mem_tail (hyphen_not_mem_tail hordered.hyphen)] at hclass
    exact hclass
  rw [hcs]
  refine ⟨_, hread, rfl, ?_, ?_⟩
  · intro item hitem
    simp only [List.mem_map] at hitem
    rcases hitem with ⟨a, -, rfl⟩
    exact ⟨a, rfl⟩
  · intro M
    have hunits : ∀ u, Target.Class.Matches M ⟨false, (cs.flatMap atomsOf).map .atom⟩ u ↔
        ∃ c, ofChar c ∈ symbols ∧ u ∈ Target.unitsOf c := by
      intro u
      simp only [Target.Class.Matches, Bool.false_eq_true, if_false, List.mem_map,
        exists_exists_and_eq_and, List.mem_flatMap, Target.Item.Matches]
      constructor
      · rintro ⟨atom, ⟨c, hc, hatom⟩, hmatch⟩
        exact ⟨c, (hmem c).1 hc, exists_mem_atomsOf.1 ⟨atom, hatom, hmatch⟩⟩
      · rintro ⟨c, hc, hu⟩
        rcases exists_mem_atomsOf.2 hu with ⟨atom, hatom, hmatch⟩
        exact ⟨atom, ⟨c, (hmem c).2 hc, hatom⟩, hmatch⟩
    refine ⟨hunits, fun c hplane => ?_, denotes_iff hunits⟩
    rw [hunits]
    simp only [toNat_mem_unitsOf_iff hplane, exists_eq_right]

end Denotes

/-- **A class of at least two class-safe symbols is one token, and it denotes the set of their
    characters**: to a reader of what the dialects have in common, and in the source.  To the
    target it denotes the set of their code units, which is the set of the characters if and only
    if each has one unit. -/
theorem characterClass_denotes (limit : Nat)
    (hsymbols : ∀ x ∈ symbols, isClassSafe x = true ∧ ∃ c, x = ofChar c)
    {a b : String} (ha : a ∈ symbols) (hb : b ∈ symbols) (hab : a ≠ b) :
    ∃ content,
      (characterClass symbols).toList = '[' :: content ++ [']'] ∧
      (tokenize limit (characterClass symbols).toList).outcome =
        .ok [⟨0, byteLength (characterClass symbols).toList,
          .characterClass (String.ofList content) ""⟩] ∧
      (∀ sign ∈ [':', '.', '='], ¬ ['[', sign] <:+: content) ∧
      (∃ bracket, Bracket.read? content = some bracket ∧ bracket.negated = false ∧
        (∀ item ∈ bracket.items, ∃ m, item = .member m) ∧
        ∀ D c, bracket.Matches D c ↔ ofChar c ∈ symbols) ∧
      (∃ bracket, Source.Class.read? content = some bracket ∧ bracket.negated = false ∧
        (∀ m ∈ bracket.members, ∃ c, m = .char c) ∧
        ∀ T c, bracket.Matches T c ↔ ofChar c ∈ symbols) ∧
      ∃ bracket, Target.Class.read? content = some bracket ∧ bracket.negated = false ∧
        (∀ item ∈ bracket.items, ∃ a, item = .atom a) ∧
        ∀ M, (∀ u, bracket.Matches M u ↔ ∃ c, ofChar c ∈ symbols ∧ u ∈ Target.unitsOf c) ∧
          (∀ c, c.toNat < 0x10000 → (bracket.Matches M c.toNat ↔ ofChar c ∈ symbols)) ∧
          (Denotes M bracket {c | ofChar c ∈ symbols} ↔
            ∀ c, ofChar c ∈ symbols → c.toNat < 0x10000) := by
  rcases exists_classMembers hsymbols ha hb hab with ⟨cs, hcs, hordered, -⟩
  have hcommon := exists_common hsymbols ha hb hab
  have hfree : FreeOf (· = ']') ((classMembers symbols).flatMap String.toList) := by
    rcases hcommon with ⟨bracket, hread, -⟩
    exact Bracket.freeOf_of_read? hread
  have htext := toList_characterClass symbols
  refine ⟨_, htext, ?_, ?_, hcommon, exists_source hsymbols ha hb hab,
    exists_target hsymbols ha hb hab⟩
  · rw [htext]
    exact outcome_tokenize_bracket limit hfree
  · intro sign hsign
    rw [hcs]
    exact not_posix_infix hordered.posix hsign

/-- A caret, a hyphen, and an opening bracket before a sign, with letters beyond ASCII. -/
theorem characterClass_denotes_of_signs :
    let symbols := ["\\^", "é", "\\[", ":", "-", "字", "\\^"]
    characterClass symbols = "[-é:字[^]" ∧
      ∃ content, (characterClass symbols).toList = '[' :: content ++ [']'] ∧
        (∃ bracket, Source.Class.read? content = some bracket ∧ bracket.negated = false ∧
          ∀ T c, bracket.Matches T c ↔ ofChar c ∈ symbols) ∧
        ∃ bracket, Target.Class.read? content = some bracket ∧ bracket.negated = false ∧
          ∀ M, Denotes M bracket {c | ofChar c ∈ symbols} := by
  intro symbols
  have hchars : symbols = ['^', 'é', '[', ':', '-', '字', '^'].map ofChar := by decide
  have hsymbols : ∀ x ∈ symbols, IsMember x := by
    rw [hchars]
    exact isMember_of_mem_map (by decide)
  have hplane : ∀ c, ofChar c ∈ symbols → c.toNat < 0x10000 := by
    have hall : ∀ c ∈ ['^', 'é', '[', ':', '-', '字', '^'], c.toNat < 0x10000 :=
      forall_mem_of_all (by decide)
    intro c hc
    rw [hchars, List.mem_map_of_injective fun _ _ => ofChar_injective] at hc
    exact hall c hc
  have hcaret : "\\^" ∈ symbols := by decide
  have hhyphen : "-" ∈ symbols := by decide
  rcases characterClass_denotes defaultGroupDepth hsymbols hcaret hhyphen (by decide) with
    ⟨content, htext, -, -, -, ⟨source, hsource, hpositive, -, hmatches⟩,
      ⟨target, htarget, hpositive', -, hmatches'⟩⟩
  exact ⟨by decide +kernel, content, htext, ⟨source, hsource, hpositive, hmatches⟩,
    ⟨target, htarget, hpositive', fun M => (hmatches' M).2.2.2 hplane⟩⟩

/-- To the target the class of `😀` and `a` matches a surrogate, which is no character, and
    `😀` it does not match. -/
theorem characterClass_not_denotes :
    (∀ x ∈ ["😀", "a"], isClassSafe x = true ∧ ∃ c, x = ofChar c) ∧
      characterClass ["😀", "a"] = "[😀a]" ∧
      ∃ bracket, Target.Class.read? ['😀', 'a'] = some bracket ∧
        ∀ M, bracket.Matches M 0xD83D ∧ (∀ c : Char, c.toNat ≠ 0xD83D) ∧
          ¬ (∃ u, bracket.Matches M u ∧ Target.unitsOf '😀' = [u]) ∧
          ¬ Denotes M bracket {c | ofChar c ∈ ["😀", "a"]} := by
  have hchars : ["😀", "a"] = ['😀', 'a'].map ofChar := by decide
  have hsymbols : ∀ x ∈ ["😀", "a"], IsMember x := by
    rw [hchars]
    exact isMember_of_mem_map (by decide)
  have hface : ofChar '😀' ∈ ["😀", "a"] := by decide
  rcases exists_target hsymbols hface (by decide : "a" ∈ ["😀", "a"]) (by decide) with
    ⟨bracket, hread, -, -, hmatches⟩
  refine ⟨hsymbols, by decide +kernel, bracket, hread, fun M => ?_⟩
  rcases hmatches M with ⟨hunits, -, hdenotes⟩
  refine ⟨(hunits _).2 ⟨'😀', hface, by decide⟩, ?_, ?_, ?_⟩
  · intro c hc
    have hvalid : c.toNat < 0xD800 ∨ 0xDFFF < c.toNat ∧ c.toNat < 0x110000 := c.valid
    omega
  · rintro ⟨u, -, hone⟩
    cases hone
  · intro hset
    exact absurd (hdenotes.1 hset '😀' hface) (by decide)

end RegexText.Symbol
