/-
  RegexText/Proofs/Conversion/Escapes.lean
  ========================================
  **Category escapes are expanded one by one.**

  The expansion of a text is read off from the left.  `Expands` says what a front
  of a text becomes whatever comes behind it, which is stronger than saying what
  it becomes by itself: a front must not end inside a pair or inside the braces of
  an escape.  Fronts of this kind can be put together.
-/
import RegexText.Proofs.Traced
import RegexText.Proofs.Translation

namespace RegexText.Source

open Text

/-- Does a front of a text become `x`, whatever comes behind it? -/
def Expands (inClass dotAll : Bool) (a x : List Char) : Prop :=
  ∀ b y, (CategoryEscape.expand inClass dotAll b).outcome = .ok y →
    (CategoryEscape.expand inClass dotAll (a ++ b)).outcome = .ok (x ++ y)

namespace Expands

variable {inClass dotAll : Bool}

theorem nil : Expands inClass dotAll [] [] := fun _ _ h => h

theorem append {a b x y : List Char} (ha : Expands inClass dotAll a x)
    (hb : Expands inClass dotAll b y) : Expands inClass dotAll (a ++ b) (x ++ y) := by
  intro rest z hz
  rw [List.append_assoc, List.append_assoc]
  exact ha _ _ (hb _ _ hz)

theorem outcome {a x : List Char} (h : Expands inClass dotAll a x) :
    (CategoryEscape.expand inClass dotAll a).outcome = .ok x := by
  have hnil : (CategoryEscape.expand inClass dotAll []).outcome = .ok [] := by
    rw [CategoryEscape.expand]
    rfl
  have happend := h [] [] hnil
  rwa [List.append_nil, List.append_nil] at happend

theorem single {c : Char} (hc : c ≠ '\\') :
    Expands inClass dotAll [c] (if c = '.' then CategoryEscape.dotText dotAll else [c]) := by
  intro b y hb
  rw [List.singleton_append, CategoryEscape.expand.eq_def]
  split
  · simp_all
  · simp_all
  · simp_all
  · rename_i heq
    obtain ⟨rfl, rfl⟩ := List.cons.inj heq
    exact Traced.outcome_bind_eq_ok_iff.2 ⟨y, hb, rfl⟩

theorem char {c : Char} (hc : c ≠ '\\') (hdot : c ≠ '.') : Expands inClass dotAll [c] [c] := by
  have hsingle : Expands inClass dotAll [c] _ := single hc
  rwa [if_neg hdot] at hsingle

theorem pair {c : Char} (hc : ¬ (c = 'p' ∨ c = 'P')) :
    Expands inClass dotAll ['\\', c] ['\\', c] := by
  intro b y hb
  rw [List.cons_append, List.singleton_append, CategoryEscape.expand, if_neg hc]
  exact Traced.outcome_bind_eq_ok_iff.2 ⟨y, hb, rfl⟩

theorem chars {cs : List Char} (h : ∀ c ∈ cs, c ≠ '\\' ∧ c ≠ '.') :
    Expands inClass dotAll cs cs := by
  induction cs with
  | nil => exact nil
  | cons c cs ih =>
    obtain ⟨hc, hdot⟩ := h c (List.mem_cons_self ..)
    exact (char hc hdot).append (ih fun d hd => h d (List.mem_cons_of_mem _ hd))

end Expands

/-! ### Reading one escape -/

namespace CategorySpelling

def tail : CategorySpelling → List Char
  | .short _ name => [name]
  | .braced _ caret name => '{' :: (if caret then ['^'] else []) ++ name ++ ['}']

def isCapital : CategorySpelling → Bool
  | .short capital _ => capital
  | .braced capital _ _ => capital

theorem text_eq (spelling : CategorySpelling) :
    spelling.text = '\\' :: letter spelling.isCapital :: spelling.tail := by
  cases spelling <;> rfl

end CategorySpelling

theorem takeWhile_ne_append {close : Char} {cs : List Char} (h : close ∉ cs)
    (rest : List Char) :
    (cs ++ close :: rest).takeWhile (· != close) = cs ∧
      (cs ++ close :: rest).dropWhile (· != close) = close :: rest := by
  have hall : ∀ c ∈ cs, (c != close) = true := by
    intro c hc
    simp only [bne_iff_ne]
    rintro rfl
    exact h hc
  exact Text.takeWhile_append_of_stop hall fun d hd => by simp [← Option.some.inj hd]

theorem not_mem_of_all {p : Char → Bool} {cs : List Char} (h : ∀ c ∈ cs, p c = true) {d : Char}
    (hd : p d = false) : d ∉ cs := by
  intro hmem
  rw [h d hmem] at hd
  cases hd

theorem isCategoryChar_of_categories? {name : List Char} {categories : List Unicode.Category}
    (h : Unicode.Category.named? (String.ofList name) = some categories) :
    name ≠ [] ∧ ∀ c ∈ name, isCategoryChar c = true := by
  obtain ⟨hne, hall⟩ := name_of_named? h
  rw [String.toList_ofList] at hne hall
  exact ⟨hne, List.all_eq_true.1 hall⟩

/-- An escape is read up to its end. -/
theorem read_category {spelling : CategorySpelling} {categories : List Unicode.Category}
    (h : spelling.categories? = some categories) (rest : List Char) :
    CategoryEscape.read (CategorySpelling.letter spelling.isCapital) (spelling.tail ++ rest) =
      .ok (⟨spelling.text, categories, spelling.negated⟩, rest) := by
  cases spelling with
  | short capital name =>
    obtain ⟨_, hall⟩ := isCategoryChar_of_categories? h
    have hname : name ≠ '{' :=
      ne_of_apply (hall name (List.mem_singleton_self name)) (by decide)
    have hread : ∀ whole, CategoryEscape.readName whole (name :: rest) =
        .ok (false, [name], [name], rest) := by
      intro whole
      rw [CategoryEscape.readName]
      exact hname
    simp only [CategorySpelling.categories?] at h
    simp only [CategoryEscape.read, CategorySpelling.tail, List.singleton_append, hread, h]
    cases capital <;> rfl
  | braced capital caret name =>
    obtain ⟨hne, hall⟩ := isCategoryChar_of_categories? h
    have hclose : '}' ∉ (if caret then ['^'] else []) ++ name := by
      cases caret with
      | true => simpa using not_mem_of_all hall (d := '}') (by decide)
      | false => simpa using not_mem_of_all hall (d := '}') (by decide)
    have hcaret : CategoryEscape.splitCaret ((if caret then ['^'] else []) ++ name) =
        (caret, name) := by
      cases caret with
      | true => rfl
      | false =>
        cases name with
        | nil => exact absurd rfl hne
        | cons c cs =>
          have hc : c ≠ '^' := ne_of_apply (hall c (List.mem_cons_self ..)) (by decide)
          simp only [CategoryEscape.splitCaret, Bool.false_eq_true, if_false, List.nil_append]
          split
          · rename_i heq
            exact absurd (List.cons.inj heq).1 hc
          · rfl
    obtain ⟨htake, hdrop⟩ := takeWhile_ne_append hclose rest
    have hread : ∀ whole, CategoryEscape.readName whole
        ('{' :: ((if caret then ['^'] else []) ++ name ++ '}' :: rest)) =
        .ok (caret, name, '{' :: ((if caret then ['^'] else []) ++ name) ++ ['}'], rest) := by
      intro whole
      simp only [CategoryEscape.readName, hdrop, htake, hcaret]
    have htail : CategorySpelling.tail (.braced capital caret name) ++ rest =
        '{' :: ((if caret then ['^'] else []) ++ name ++ '}' :: rest) := by
      simp [CategorySpelling.tail]
    simp only [CategorySpelling.categories?] at h
    simp only [CategoryEscape.read, htail, hread, h]
    cases capital <;> cases caret <;> rfl

theorem CategorySpelling.ranges_eq {spelling : CategorySpelling}
    {categories : List Unicode.Category} (h : spelling.categories? = some categories)
    (negated : Bool) :
    spelling.ranges negated =
      CategoryEscape.rangesText (CategoryEscape.unitRanges categories negated) := by
  rw [CategorySpelling.ranges, h]
  rfl

theorem CategorySpelling.expanded_eq {spelling : CategorySpelling}
    {categories : List Unicode.Category} (h : spelling.categories? = some categories)
    (inClass : Bool) :
    CategoryEscape.Escape.expanded inClass ⟨spelling.text, categories, spelling.negated⟩ =
      if inClass then spelling.ranges spelling.negated
      else Element.bracketed spelling.negated (spelling.ranges false) := by
  simp only [spelling.ranges_eq h]
  cases inClass <;> cases spelling.negated <;> rfl

theorem Expands.category {inClass dotAll : Bool} {spelling : CategorySpelling}
    (h : spelling.categories?.isSome = true) :
    Expands inClass dotAll spelling.text
      (if inClass then spelling.ranges spelling.negated
        else Element.bracketed spelling.negated (spelling.ranges false)) := by
  obtain ⟨categories, hcategories⟩ := Option.isSome_iff_exists.1 h
  intro b y hb
  have hread := read_category hcategories b
  have hletter : ∀ capital, CategorySpelling.letter capital = 'p' ∨
      CategorySpelling.letter capital = 'P' := by decide
  rw [CategorySpelling.text_eq, List.cons_append, List.cons_append, CategoryEscape.expand,
    if_pos (hletter _)]
  split
  · rename_i feature hfail
    rw [hread] at hfail
    cases hfail
  · rename_i escape rest hok
    rw [hread] at hok
    obtain ⟨rfl, rfl⟩ := Prod.mk.inj (Except.ok.inj hok)
    refine Traced.outcome_bind_eq_ok_iff.2 ⟨(), rfl, ?_⟩
    refine Traced.outcome_bind_eq_ok_iff.2 ⟨(), rfl, ?_⟩
    refine Traced.outcome_bind_eq_ok_iff.2 ⟨y, hb, ?_⟩
    rw [spelling.expanded_eq hcategories]
    rfl

/-! ### Bracket expressions -/

theorem not_category_of_isPunctuation {c : Char} (h : Regular.isPunctuation c = true) :
    ¬ (c = 'p' ∨ c = 'P') := by
  rintro (rfl | rfl)
  · cases h
  · cases h

theorem Expands.literal {inClass dotAll : Bool} {c : Char} (h : (!reserved.contains c) = true) :
    Expands inClass dotAll [c] (literalText false c) :=
  Expands.char (ne_of_not_reserved h (by decide)) (ne_of_not_reserved h (by decide))

theorem Expands.shorthand {inClass dotAll : Bool} (s : Regular.Shorthand) (negated : Bool) :
    Expands inClass dotAll ['\\', s.letter negated] ['\\', s.letter negated] := by
  apply Expands.pair
  cases s <;> cases negated <;> decide

theorem Expands.item {dotAll : Bool} {item : Item} (h : item.isLegal = true) :
    Expands true dotAll item.text (item.translation false) := by
  cases item with
  | literal c => exact Expands.literal h
  | escaped c => exact Expands.pair (not_category_of_isPunctuation h)
  | shorthand s negated => exact Expands.shorthand s negated
  | range first last =>
    simp only [Item.isLegal, Bool.and_eq_true] at h
    have hhyphen : Expands true dotAll ['-'] ['-'] := Expands.char (by decide) (by decide)
    exact (Expands.literal h.1).append (hhyphen.append (Expands.literal h.2))
  | category spelling => exact Expands.category h

/-- The text between brackets becomes the translation of the items, one after the other. -/
theorem Expands.content {dotAll : Bool} {items : List Item} (h : items.all Item.isLegal = true)
    (negated : Bool) :
    Expands true dotAll (Element.content negated items)
      ((if negated then ['^'] else []) ++ items.flatMap (Item.translation false)) := by
  have hitems : Expands true dotAll (items.flatMap Item.text)
      (items.flatMap (Item.translation false)) := by
    induction items with
    | nil => exact Expands.nil
    | cons item items ih =>
      simp only [List.all_cons, Bool.and_eq_true] at h
      exact (Expands.item h.1).append (ih h.2)
  refine Expands.append ?_ hitems
  cases negated with
  | true => exact Expands.char (by decide) (by decide)
  | false => exact Expands.nil

end RegexText.Source
