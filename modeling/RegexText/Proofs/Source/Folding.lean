/-
  RegexText/Proofs/Source/Folding.lean
  ====================================
  **Which symbols can be folded into a class without a change of meaning.**

  A symbol counts as class safe by its shape.  Its meaning is another matter: an
  anchor between brackets is a character, and at the front a caret even negates the
  class.  `misread` lists the symbols that count as class safe, are patterns by
  themselves, and yet mean something else between brackets (`inside?_eq_iff`).

  Without these, the order of the members takes care of hyphens and carets.  What is
  left is a condition on the text as it is written: no escape takes in the member
  behind it, and the whole does not look like a name.
-/
import Mathlib.Data.List.Chain
import RegexText.Proofs.Source.Bracket

namespace RegexText.Source

open Text
open RegexText.Symbol
open Regular (opensPosix)

variable {c : Char} {m : Meaning} {x y s t : String} {xs symbols : List String}

/-! ### Symbols that mean something else between brackets -/

/-- The symbols that count as class safe and do not mean the same between brackets: anchors, a
    closing bracket, and escapes for places and for what is no set of characters. -/
def misread : List String :=
  ['^', '$', '|', ']'].map String.singleton ++ (placeLetters ++ ['N', 'R', 'X', 'C']).map escaped

theorem singleton_mem_misread : String.singleton c ∈ misread ↔ c ∈ ['^', '$', '|', ']'] := by
  rw [misread, List.mem_append, List.mem_map_of_injective fun _ _ => String.singleton_inj.1]
  refine or_iff_left ?_
  rintro hmem
  obtain ⟨d, _, hd⟩ := List.mem_map.1 hmem
  exact escaped_ne_singleton d c hd

theorem escaped_mem_misread :
    escaped c ∈ misread ↔ c ∈ placeLetters ∨ c ∈ ['N', 'R', 'X', 'C'] := by
  rw [misread, List.mem_append, List.mem_map_of_injective fun _ _ => escaped_inj.1,
    List.mem_append]
  refine or_iff_right ?_
  rintro hmem
  obtain ⟨d, _, hd⟩ := List.mem_map.1 hmem
  exact escaped_ne_singleton c d hd.symm

theorem not_isSet_iff {type : CharType} {negated : Bool}
    (h : CharType.ofLetter? c = some (type, negated)) :
    type.isSet = false ↔ c ∈ ['N', 'R', 'X', 'C'] := by
  unfold CharType.ofLetter? at h
  split at h <;> cases h <;> decide

theorem escapeInside?_eq_iff (h : escapeAlone? c = some m) :
    escapeInside? c [] = some (m, 0) ↔ escaped c ∉ misread := by
  rw [escaped_mem_misread]
  unfold escapeAlone? at h
  split_ifs at h with halnum hnumber hplace
  · cases h
    have hletter : ∀ d ∈ placeLetters ++ ['N', 'R', 'X', 'C'], (!d.isAlphanum) = false :=
      forall_mem_of_all (by decide)
    refine iff_of_true (by rw [escapeInside?, if_pos halnum]) fun hmem => ?_
    rw [hletter c (List.mem_append.2 hmem)] at halnum
    cases halnum
  · cases h
    rcases hnumber with rfl | rfl <;> exact iff_of_true rfl (by decide)
  · cases h
    rcases hplace with hplace | rfl
    · have hall : ∀ d ∈ placeLetters, escapeInside? d [] ≠ some (.place, 0) :=
        forall_mem_of_all (by decide)
      exact iff_of_false (hall c hplace) (not_not_intro (.inl hplace))
    · exact iff_of_true rfl (by decide)
  · have hbell : c ≠ 'b' := by
      rintro rfl
      exact hplace (by decide)
    rw [not_or] at hnumber hplace
    rw [escapeInside?, if_neg halnum, if_neg hnumber.1, if_neg hnumber.2, if_neg hbell,
      if_neg hplace.2, or_iff_right hplace.1]
    cases htype : CharType.ofLetter? c with
    | some letter =>
      obtain ⟨type, negated⟩ := letter
      rw [htype] at h
      cases h
      rw [← not_isSet_iff htype]
      cases hset : type.isSet <;> simp [hset]
    | none =>
      rw [htype] at h
      obtain ⟨d, hd, rfl⟩ := Option.map_eq_some_iff.1 h
      refine iff_of_true (by simp [hd]) ?_
      intro hmem
      have hall : ∀ d ∈ ['N', 'R', 'X', 'C'], (CharType.ofLetter? d).isSome = true :=
        forall_mem_of_all (by decide)
      have hsome := hall c hmem
      rw [htype] at hsome
      cases hsome

/-- **A class-safe symbol keeps its meaning between brackets unless it is on the list.** -/
theorem inside?_eq_iff (hsafe : isClassSafe x = true) (h : alone? x = some m) :
    inside? x = some m ↔ x ∉ misread := by
  unfold alone? at h
  split at h
  · rename_i c hx
    have hsingle : x = String.singleton c := String.toList_injective (by simp [hx])
    have hdot : c ≠ '.' ∧ c ≠ '\\' := by simpa [isClassSafe, hx] using hsafe
    rw [hsingle, singleton_mem_misread]
    simp only [inside?, String.toList_singleton]
    split_ifs at h with hincomplete hanchor
    · cases h
      refine iff_of_false ?_ ?_
      · split_ifs <;> simp
      · simp only [anchors, List.mem_cons, List.not_mem_nil, or_false] at hanchor
        rcases hanchor with rfl | rfl | rfl <;> decide
    · exact absurd ‹c = '.'› hdot.1
    · cases h
      have hother : c ∉ ['^', '$', '|'] := hanchor
      by_cases hclose : c = ']'
      · subst hclose
        decide
      · rw [if_neg (by simp [hdot.2, hclose])]
        simpa using by simpa [hclose] using hother
  · rename_i c hx
    have hescaped : x = escaped c := String.toList_injective (by simp [hx, escaped])
    rw [hescaped, ← escapeInside?_eq_iff h]
    simp only [inside?, escaped, String.toList_ofList, Option.map_eq_some_iff]
    constructor
    · rintro ⟨⟨m', used⟩, hescape, rfl⟩
      rw [hescape, used_eq_zero hescape]
    · intro hescape
      exact ⟨_, hescape, rfl⟩
  · cases h

/-! ### The members of a class -/

theorem takesIn_congr {cs ds : List Char} (h : cs.head? = ds.head?) :
    TakesIn x cs ↔ TakesIn x ds := by
  rw [TakesIn, TakesIn, h]

theorem head?_flatMap (hy : (inside? y).isSome = true) (xs : List String) :
    ((y :: xs).flatMap String.toList).head? = y.toList.head? := by
  rcases exists_of_isSome_inside? hy with ⟨c, rfl⟩ | ⟨c, rfl⟩ <;> simp [escaped]

/-- If a class begins with a character, that is its first member. -/
theorem eq_singleton_of_head? (hy : (inside? y).isSome = true) (hc : c ≠ '\\')
    (h : ((y :: xs).flatMap String.toList).head? = some c) : y = String.singleton c := by
  rw [head?_flatMap hy] at h
  rcases exists_of_isSome_inside? hy with ⟨d, rfl⟩ | ⟨d, rfl⟩
  · obtain rfl : d = c := by simpa using h
    rfl
  · obtain rfl : '\\' = c := by simpa [escaped] using h
    exact absurd rfl hc

/-- Nothing that is no sign of a POSIX class makes a bracket in front of it the opening of one. -/
theorem opensPosix_eq_false (hy : (inside? y).isSome = true) (h : y ≠ ":" ∧ y ≠ "." ∧ y ≠ "=")
    (xs : List String) : opensPosix ((y :: xs).flatMap String.toList) = false := by
  rw [opensPosix, head?_flatMap hy]
  rcases exists_of_isSome_inside? hy with ⟨c, rfl⟩ | ⟨c, rfl⟩
  · have hc : c ≠ ':' ∧ c ≠ '.' ∧ c ≠ '=' :=
      ⟨fun hc => h.1 (hc ▸ rfl), fun hc => h.2.1 (hc ▸ rfl), fun hc => h.2.2 (hc ▸ rfl)⟩
    simp [hc]
  · simp [escaped]

theorem freeOf_flatMap (hinside : ∀ x ∈ xs, (inside? x).isSome = true) :
    FreeOf (· = ']') (xs.flatMap String.toList) := by
  induction xs with
  | nil => exact .nil
  | cons x xs ih =>
    obtain ⟨hx, hinside⟩ := List.forall_mem_cons.1 hinside
    obtain ⟨m, hm⟩ := Option.isSome_iff_exists.1 hx
    rw [List.flatMap_cons]
    exact (freeOf_of_inside? hm).append (ih hinside)

/-- Symbols without hyphens are read one after the other, where none takes in the next. -/
theorem members?_flatMap (hinside : ∀ x ∈ xs, (inside? x).isSome = true)
    (hhyphen : ∀ x ∈ xs, x ≠ "-")
    (hposix : xs.Pairwise fun x y => x = "[" → y ≠ ":" ∧ y ≠ "." ∧ y ≠ "=")
    (hopen : xs.IsChain fun x y => ¬ TakesIn x y.toList) :
    members? (xs.flatMap String.toList) = some (xs.filterMap inside?) := by
  induction xs with
  | nil => exact members?_nil
  | cons x xs ih =>
    obtain ⟨hx, hinside⟩ := List.forall_mem_cons.1 hinside
    obtain ⟨hne, hhyphen⟩ := List.forall_mem_cons.1 hhyphen
    obtain ⟨hfirst, hposix⟩ := List.pairwise_cons.1 hposix
    obtain ⟨m, hm⟩ := Option.isSome_iff_exists.1 hx
    have hlater := ih hinside hhyphen hposix hopen.tail
    have hseam : (x = "[" → opensPosix (xs.flatMap String.toList) = false) ∧
        ¬ TakesIn x (xs.flatMap String.toList) := by
      cases xs with
      | nil => exact ⟨fun _ => rfl, by simp [TakesIn]⟩
      | cons y ys =>
        have hy := hinside y (List.mem_cons_self ..)
        rw [takesIn_congr (head?_flatMap hy ys)]
        exact ⟨fun hx => opensPosix_eq_false hy (hfirst y (List.mem_cons_self ..) hx) ys,
          (List.isChain_cons_cons.1 hopen).1⟩
    rw [List.flatMap_cons, List.filterMap_cons_some hm,
      members?_append hm (fun hx => absurd hx hne) hseam.1 hseam.2, hlater]
    rfl

/-- A hyphen may come first. -/
theorem contents?_flatMap (hinside : ∀ y ∈ x :: xs, (inside? y).isSome = true)
    (hhyphen : ∀ y ∈ xs, y ≠ "-")
    (hposix : (x :: xs).Pairwise fun x y => x = "[" → y ≠ ":" ∧ y ≠ "." ∧ y ≠ "=")
    (hopen : (x :: xs).IsChain fun x y => ¬ TakesIn x y.toList) :
    Class.contents? ((x :: xs).flatMap String.toList) = some ((x :: xs).filterMap inside?) := by
  by_cases hx : x = "-"
  · subst hx
    have hlater := members?_flatMap (List.forall_mem_cons.1 hinside).2 hhyphen
      (List.pairwise_cons.1 hposix).2 hopen.tail
    change (members? (xs.flatMap String.toList)).map (.char '-' :: ·) = _
    rw [hlater]
    rfl
  · rw [← members?_flatMap hinside (List.forall_mem_cons.2 ⟨hx, hhyphen⟩) hposix hopen]
    have hfirst := hinside x (List.mem_cons_self ..)
    unfold Class.contents?
    split
    · rename_i hnil
      rcases exists_of_isSome_inside? hfirst with ⟨c, rfl⟩ | ⟨c, rfl⟩ <;> simp [escaped] at hnil
    · rename_i heq
      exact absurd (eq_singleton_of_head? hfirst (by decide) (congrArg List.head? heq)) hx
    · rfl

theorem inside?_escaped :
    ∀ c ∈ literalInClass, inside? (escaped c) = inside? (String.singleton c) :=
  forall_mem_of_all (by decide)

section Class

variable (hinside : ∀ x ∈ symbols, (inside? x).isSome = true)
  (hbracket : "[" ∉ symbols) (hcaret : "^" ∉ symbols)
  (hopen : (classMembers symbols).IsChain fun x y => ¬ TakesIn x y.toList)
  (hname : Class.looksNamed ((classMembers symbols).flatMap String.toList) = false)
  (hs : s ∈ symbols) (ht : t ∈ symbols) (hst : s ≠ t)

include hinside hbracket hcaret hopen hname hs ht hst

/-- The members of a class of at least two symbols are read one by one. -/
theorem read?_classMembers :
    Class.read? ((classMembers symbols).flatMap String.toList) =
      some ⟨false, (classMembers symbols).filterMap inside?⟩ := by
  have hmembers := isSome_of_mem_classMembers inside?_escaped hinside
  have hposix := pairwise_classMembers hbracket
  have hhead := head?_classMembers_ne hcaret hs ht hst
  have hhyphen : ∀ y ∈ (classMembers symbols).tail, y ≠ "-" := fun y =>
    ne_hyphen_of_mem_tail_classMembers
  obtain ⟨x, xs, hcons⟩ := List.exists_cons_of_ne_nil (classMembers_ne_nil hs)
  rw [hcons] at hmembers hposix hhead hhyphen hopen hname ⊢
  unfold Class.read?
  rw [if_neg (by rw [hname]; exact Bool.false_ne_true)]
  split
  · rename_i heq
    obtain rfl := eq_singleton_of_head? (hmembers x (List.mem_cons_self ..)) (by decide)
      (congrArg List.head? heq)
    exact absurd rfl hhead
  · rw [contents?_flatMap hmembers hhyphen hposix hopen]
    rfl

/-- **A class of at least two symbols matches what one of its members matches.** -/
theorem read?_characterClass :
    ∃ content bracket, (characterClass symbols).toList = '[' :: content ++ [']'] ∧
      FreeOf (· = ']') content ∧ Class.read? content = some bracket ∧
        ∀ T c, bracket.Matches T c ↔ ∃ x ∈ symbols, ∃ m ∈ inside? x, m.Matches T c := by
  refine ⟨_, _, toList_characterClass symbols,
    freeOf_flatMap (isSome_of_mem_classMembers inside?_escaped hinside),
    read?_classMembers hinside hbracket hcaret hopen hname hs ht hst, ?_⟩
  intro T c
  simp only [Class.Matches, Bool.false_eq_true, if_false]
  constructor
  · rintro ⟨m, hm, hmatch⟩
    obtain ⟨y, hy, hym⟩ := (mem_filterMap_classMembers inside?_escaped).1 hm
    exact ⟨y, hy, m, hym, hmatch⟩
  · rintro ⟨y, hy, m, hym, hmatch⟩
    exact ⟨m, (mem_filterMap_classMembers inside?_escaped).2 ⟨y, hy, hym⟩, hmatch⟩

end Class

/-! ### Folding -/

/-- Does the class of two symbols match what one of them matches by itself, and nothing else? -/
def Folds (s t : String) : Prop :=
  ∃ content bracket, (characterClass [s, t]).toList = '[' :: content ++ [']'] ∧
    FreeOf (· = ']') content ∧ Class.read? content = some bracket ∧
      ∀ T c, bracket.Matches T c ↔
        (∃ m ∈ alone? s, m.Matches T c) ∨ ∃ m ∈ alone? t, m.Matches T c

/-- Two symbols that keep their meaning fold if their class is read member by member. -/
theorem folds_of_inside?_eq (hst : s ≠ t) (hcaret : "^" ∉ [s, t])
    (hpattern : ∀ x ∈ [s, t], (alone? x).isSome = true)
    (hsame : ∀ x ∈ [s, t], inside? x = alone? x)
    (hopen : (classMembers [s, t]).IsChain fun x y => ¬ TakesIn x y.toList)
    (hname : Class.looksNamed ((classMembers [s, t]).flatMap String.toList) = false) :
    Folds s t := by
  have hbracket : "[" ∉ [s, t] := fun hmem => absurd (hpattern "[" hmem) (by decide)
  have hsmem : s ∈ [s, t] := List.mem_cons_self ..
  have htmem : t ∈ [s, t] := List.mem_cons_of_mem _ (List.mem_singleton_self t)
  obtain ⟨content, bracket, htext, hfree, hread, hmatches⟩ :=
    read?_characterClass (fun x hx => by rw [hsame x hx]; exact hpattern x hx) hbracket hcaret hopen
      hname hsmem htmem hst
  refine ⟨content, bracket, htext, hfree, hread, fun T c => ?_⟩
  simp only [hmatches, List.mem_cons, List.not_mem_nil, or_false, exists_eq_or_imp, exists_eq_left,
    hsame s hsmem, hsame t htmem]

/-- The text of a class is read in one way, so one character that tells is enough. -/
theorem not_folds (content : List Char)
    (htext : (characterClass [s, t]).toList = '[' :: content ++ [']'])
    (h : ∀ b ∈ Class.read? content, ∃ T c, ¬ (b.Matches T c ↔
      (∃ m ∈ alone? s, m.Matches T c) ∨ ∃ m ∈ alone? t, m.Matches T c)) : ¬ Folds s t := by
  rintro ⟨content', bracket, htext', _, hread, hmatches⟩
  obtain rfl : content' = content := by simpa using htext'.symm.trans htext
  obtain ⟨T, c, hdiffers⟩ := h bracket hread
  exact hdiffers (hmatches T c)

theorem not_folds_of_read?_eq_none (content : List Char)
    (htext : (characterClass [s, t]).toList = '[' :: content ++ [']'])
    (hread : Class.read? content = none) : ¬ Folds s t :=
  not_folds content htext fun b hb => by rw [hread] at hb; cases hb

/-- A class with one other character as its only member does not match the second symbol. -/
theorem not_folds_of_read?_eq_char (content : List Char) {d : Char}
    (htext : (characterClass [s, t]).toList = '[' :: content ++ [']'])
    (hread : Class.read? content = some ⟨false, [.char d]⟩) (ht : alone? t = some (.char c))
    (hne : c ≠ d) : ¬ Folds s t := by
  refine not_folds content htext fun b hb => ?_
  rw [hread] at hb
  cases hb
  refine ⟨fun _ _ => False, c, ?_⟩
  simp [Class.Matches, Meaning.Matches, ht, hne]

/-- **Every symbol of the list is misread**: it counts as class safe and is a pattern by itself, but
    it does not fold with a letter. -/
theorem not_folds_of_mem_misread (h : x ∈ misread) :
    isClassSafe x = true ∧ (alone? x).isSome = true ∧ ¬ Folds "a" x := by
  have hclass : ∀ x ∈ misread, isClassSafe x = true ∧ (alone? x).isSome = true ∧
      (characterClass ["a", x]).toList = '[' :: ('a' :: x.toList) ++ [']'] ∧
        (Class.read? ('a' :: x.toList) = none ∨ alone? x = some .place ∧
          ['^', '$', '|', '\x08'].any fun d =>
            Class.read? ('a' :: x.toList) = some ⟨false, [.char 'a', .char d]⟩) :=
    forall_mem_of_all (by decide +kernel)
  obtain ⟨hsafe, hpattern, htext, hread⟩ := hclass x h
  refine ⟨hsafe, hpattern, ?_⟩
  rcases hread with hnone | ⟨hplace, hread⟩
  · exact not_folds_of_read?_eq_none _ htext hnone
  obtain ⟨d, hd, hread⟩ := List.any_eq_true.1 hread
  rw [decide_eq_true_eq] at hread
  refine not_folds _ htext fun b hb => ?_
  rw [hread] at hb
  cases hb
  have hne : d ≠ 'a' := by
    rintro rfl
    revert hd
    decide
  have halone : alone? "a" = some (.char 'a') := by decide
  refine ⟨fun _ _ => False, d, ?_⟩
  simp [Class.Matches, Meaning.Matches, halone, hplace, hne]

end RegexText.Source
