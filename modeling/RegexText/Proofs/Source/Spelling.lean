/-
  RegexText/Proofs/Source/Spelling.lean
  =====================================
  **Source expressions are cut where their trees are.**

  Names of groups and of categories are made of letters, digits and few other
  characters, so no spelling holds a bracket or a parenthesis of its own, and
  none ends inside an escape.  That is what the general theorems about trees
  ask of units and marks.
-/
import RegexText.Proofs.Source
import RegexText.Proofs.Syntax.Lexing

namespace RegexText.Source

open Text

/-! ### Kinds of characters -/

theorem ne_of_apply {p : Char → Bool} {c d : Char} (hc : p c = true) (hd : p d = false) :
    c ≠ d := by
  rintro rfl
  rw [hc] at hd
  cases hd

theorem ne_of_not_reserved {c d : Char} (hc : (!reserved.contains c) = true)
    (hd : d ∈ reserved) : c ≠ d := by
  rintro rfl
  simp [hd] at hc

def isCategoryChar (c : Char) : Bool := c.isAlphanum || c == '&'

theorem name_of_named? {name : String} {categories : List Unicode.Category}
    (h : Unicode.Category.named? name = some categories) :
    name.toList ≠ [] ∧ name.toList.all isCategoryChar = true := by
  unfold Unicode.Category.named? at h
  split at h
  all_goals first | exact ⟨by decide, by decide⟩ | cases h

theorem all_isNameChar_of_isIdentifier {name : List Char} (h : isIdentifier name = true) :
    ∀ c ∈ name, Lexeme.isNameChar c = true := by
  cases name with
  | nil => cases h
  | cons c cs =>
    simp only [isIdentifier, Bool.and_eq_true] at h
    exact List.all_eq_true.1 h.2

theorem all_isDigit_of_readDigits? {digits : List Char} {number : Nat}
    (h : readDigits? digits = some number) :
    digits ≠ [] ∧ ∀ c ∈ digits, c.isDigit = true := by
  unfold readDigits? at h
  split at h
  · rename_i hdigits
    simp only [Bool.and_eq_true, Bool.not_eq_true', List.isEmpty_eq_false_iff,
      List.all_eq_true] at hdigits
    exact ⟨hdigits.1.1, hdigits.1.2⟩
  · cases h

/-- A text of characters of one kind is free of any character of another kind. -/
theorem freeOf_of_forall_apply {p : Char → Bool} {bad : Char → Prop} {cs : List Char}
    (h : ∀ c ∈ cs, p c = true) (hslash : p '\\' = false) (hbad : ∀ c, p c = true → ¬ bad c) :
    FreeOf bad cs :=
  FreeOf.of_forall fun c hc => ⟨ne_of_apply (h c hc) hslash, hbad c (h c hc)⟩

theorem readDigits?_of_isLegal_numbered {groups : Groups} {braced : Bool} {digits : List Char}
    (h : Reference.isLegal groups (.numbered braced digits) = true) :
    ∃ number, readDigits? digits = some number ∧ 1 ≤ number ∧ number ≤ groups.length := by
  simp only [Reference.isLegal, Bool.and_true, Option.isSome_iff_exists] at h
  obtain ⟨number, h⟩ := h
  obtain ⟨hread, hbounds⟩ := Option.filter_eq_some_iff.1 h
  exact ⟨number, hread, by simpa using hbounds⟩

theorem readDigits?_of_isLegal_relative {groups : Groups} {braced : Bool} {digits : List Char}
    (h : Reference.isLegal groups (.relative braced digits) = true) :
    ∃ count, readDigits? digits = some count ∧ 1 ≤ count ∧ count ≤ groups.length := by
  simp only [Reference.isLegal, Bool.and_true, Option.isSome_iff_exists] at h
  obtain ⟨number, h⟩ := h
  obtain ⟨count, hcount, _⟩ := Option.map_eq_some_iff.1 h
  obtain ⟨hread, hbounds⟩ := Option.filter_eq_some_iff.1 hcount
  exact ⟨count, hread, by simpa using hbounds⟩

/-! ### Units stand by themselves -/

section Free

variable {bad : Char → Prop}

theorem freeOf_identifier {name : List Char} (h : isIdentifier name = true)
    (hbad : ∀ c, Lexeme.isNameChar c = true → ¬ bad c) : FreeOf bad name :=
  freeOf_of_forall_apply (all_isNameChar_of_isIdentifier h) (by decide) hbad

theorem freeOf_category {spelling : CategorySpelling} (h : spelling.categories?.isSome = true)
    (hbad : ∀ c, isCategoryChar c = true → ¬ bad c)
    (hsigns : ¬ bad '{' ∧ ¬ bad '}' ∧ ¬ bad '^') : FreeOf bad spelling.text := by
  obtain ⟨categories, hcategories⟩ := Option.isSome_iff_exists.1 h
  cases spelling with
  | short capital name =>
    obtain ⟨_, hall⟩ := name_of_named? hcategories
    rw [String.toList_ofList] at hall
    exact .pair _ (freeOf_of_forall_apply (List.all_eq_true.1 hall) (by decide) hbad)
  | braced capital caret name =>
    obtain ⟨_, hall⟩ := name_of_named? hcategories
    rw [String.toList_ofList] at hall
    have hname : FreeOf bad name :=
      freeOf_of_forall_apply (List.all_eq_true.1 hall) (by decide) hbad
    have hcaret : FreeOf bad (if caret then ['^'] else []) := by
      cases caret with
      | true => exact .single (by decide) hsigns.2.2 .nil
      | false => exact .nil
    refine .pair _ (.single (by decide) hsigns.1 ?_)
    exact (hcaret.append hname).append (.single (by decide) hsigns.2.1 .nil)

theorem freeOf_reference {groups : Groups} {r : Reference} (h : r.isLegal groups = true)
    (hname : ∀ c, Lexeme.isNameChar c = true → ¬ bad c)
    (hsigns : ¬ bad '{' ∧ ¬ bad '}' ∧ ¬ bad '<' ∧ ¬ bad '>' ∧ ¬ bad '\'' ∧ ¬ bad '-') :
    FreeOf bad r.text := by
  obtain ⟨hopen, hclose, hless, hgreater, hquote, hminus⟩ := hsigns
  have hdigits : ∀ {digits : List Char} {number : Nat}, readDigits? digits = some number →
      FreeOf bad digits := by
    intro digits number hread
    apply freeOf_of_forall_apply (all_isDigit_of_readDigits? hread).2 (by decide)
    intro c hc
    exact hname c (by simp [Lexeme.isNameChar, Char.isAlphanum, hc])
  cases r with
  | named form name =>
    simp only [Reference.isLegal, Bool.and_eq_true] at h
    have hinner := freeOf_identifier h.2 hname
    cases form with
    | angle =>
      exact .pair _ (.single (by decide) hless
        (hinner.append (.single (by decide) hgreater .nil)))
    | quote =>
      exact .pair _ (.single (by decide) hquote
        (hinner.append (.single (by decide) hquote .nil)))
    | brace =>
      exact .pair _ (.single (by decide) hopen
        (hinner.append (.single (by decide) hclose .nil)))
    | gBrace =>
      exact .pair _ (.single (by decide) hopen
        (hinner.append (.single (by decide) hclose .nil)))
  | numbered braced digits =>
    obtain ⟨number, hread, _⟩ := readDigits?_of_isLegal_numbered h
    cases braced with
    | true =>
      exact .pair _ (.single (by decide) hopen
        ((hdigits hread).append (.single (by decide) hclose .nil)))
    | false => exact .pair _ (hdigits hread)
  | relative braced digits =>
    obtain ⟨count, hread, _⟩ := readDigits?_of_isLegal_relative h
    cases braced with
    | true =>
      exact .pair _ (.single (by decide) hopen (.single (by decide) hminus
        ((hdigits hread).append (.single (by decide) hclose .nil))))
    | false => exact .pair _ (.single (by decide) hminus (hdigits hread))

theorem freeOf_literal {c : Char} (h : (!reserved.contains c) = true) (hbad : ¬ bad c) :
    FreeOf bad [c] :=
  .single (ne_of_not_reserved h (by decide)) hbad .nil

end Free

theorem freeOf_item {item : Item} (h : item.isLegal = true) : FreeOf (· = ']') item.text := by
  cases item with
  | literal c => exact freeOf_literal h (ne_of_not_reserved h (by decide))
  | escaped c => exact .pair c .nil
  | shorthand s negated => exact .pair _ .nil
  | range first last =>
    simp only [Item.isLegal, Bool.and_eq_true] at h
    have hclose : ']' ∈ reserved := by decide
    have hfirst : FreeOf (· = ']') [first] := freeOf_literal h.1 (ne_of_not_reserved h.1 hclose)
    have hlast : FreeOf (· = ']') [last] := freeOf_literal h.2 (ne_of_not_reserved h.2 hclose)
    exact hfirst.append (.single (by decide) (by decide) hlast)
  | category spelling =>
    refine freeOf_category h ?_ (by decide)
    rintro c hc rfl
    cases hc

theorem freeOf_content {negated : Bool} {items : List Item}
    (h : items.all Item.isLegal = true) :
    FreeOf (· = ']') (Element.content negated items) := by
  have hitems : FreeOf (· = ']') (items.flatMap Item.text) := by
    induction items with
    | nil => exact .nil
    | cons item items ih =>
      simp only [List.all_cons, Bool.and_eq_true] at h
      exact (freeOf_item h.1).append (ih h.2)
  cases negated with
  | true => exact .single (by decide) (by decide) hitems
  | false => exact hitems

theorem Element.sound {groups : Groups} {e : Element} (h : e.isLegal groups = true) :
    e.spelling.Sound := by
  have hname : ∀ c, Lexeme.isNameChar c = true → ¬ (c = '[' ∨ c = '(' ∨ c = ')') := by
    rintro c hc (rfl | rfl | rfl) <;> cases hc
  have hescape : ∀ c cs, FreeOf (fun c => c = '[' ∨ c = '(' ∨ c = ')') ('\\' :: c :: cs) →
      Spelling.Sound (.run ('\\' :: c :: cs)) :=
    fun c cs hfree => ⟨List.cons_ne_nil _ _, fresh_cons.2 (by decide), hfree⟩
  have hsign : ∀ c, c ≠ '\\' ∧ ¬ (c = '[' ∨ c = '(' ∨ c = ')') ∧
      c ≠ '*' ∧ c ≠ '+' ∧ c ≠ '?' → Spelling.Sound (.run [c]) :=
    fun c hc => ⟨List.cons_ne_nil _ _, fresh_cons.2 hc.2.2, .single hc.1 hc.2.1 .nil⟩
  cases e with
  | literal c =>
    have hne : ∀ d ∈ reserved, c ≠ d := fun d hd => ne_of_not_reserved h hd
    refine hsign c ⟨hne _ (by decide), ?_, hne _ (by decide), hne _ (by decide),
      hne _ (by decide)⟩
    rintro (hc | hc | hc)
    · exact hne _ (by decide) hc
    · exact hne _ (by decide) hc
    · exact hne _ (by decide) hc
  | escaped c => exact hescape c [] (.pair c .nil)
  | shorthand s negated => exact hescape _ [] (.pair _ .nil)
  | start => exact hsign '^' (by decide)
  | stop => exact hsign '$' (by decide)
  | dot => exact hsign '.' (by decide)
  | category spelling =>
    have hfree : FreeOf (fun c => c = '[' ∨ c = '(' ∨ c = ')') spelling.text := by
      refine freeOf_category h ?_ (by decide)
      rintro c hc (rfl | rfl | rfl) <;> cases hc
    cases spelling with
    | short capital name => exact hescape _ _ hfree
    | braced capital caret name => exact hescape _ _ hfree
  | bracket negated items => exact freeOf_content h
  | reference r =>
    have hfree := freeOf_reference h hname (by decide)
    cases r with
    | named form name => cases form <;> exact hescape _ _ hfree
    | numbered braced digits => cases braced <;> exact hescape _ _ hfree
    | relative braced digits => cases braced <;> exact hescape _ _ hfree

/-! ### Marks open their groups -/

theorem readIdentifier_append {name : List Char} (h : isIdentifier name = true) {close : Char}
    (hclose : Lexeme.isNameChar close = false) (rest : List Char) :
    Lexeme.readIdentifier close (name ++ close :: rest) = some (name, rest) := by
  have hstop : ∀ c ∈ (close :: rest).head?, Lexeme.isNameChar c = false :=
    fun _ hc => Option.some.inj hc ▸ hclose
  obtain ⟨htake, hdrop⟩ :=
    Text.takeWhile_append_of_stop (all_isNameChar_of_isIdentifier h) hstop
  rw [Lexeme.readIdentifier, htake, hdrop]
  cases name with
  | nil => cases h
  | cons c cs =>
    simp only [isIdentifier, Bool.and_eq_true] at h
    simp [h.1]

theorem readSpecial_of_readName {cs name spelling rest : List Char}
    (hcs : (cs.dropWhile Lexeme.isOptionLetter).head? ≠ some ')')
    (h : Lexeme.readName cs = some (name, spelling, rest)) :
    Lexeme.readSpecial cs =
      some (.opener (.capturing (some (String.ofList name))) ('(' :: '?' :: spelling), rest) := by
  unfold Lexeme.readSpecial
  simp only
  split
  · rename_i after hafter
    exact absurd (by rw [hafter]; rfl) hcs
  · rw [h]

/-- A name between two signs is read as the start of a named group, as no setting begins like
    it. -/
theorem readSpecial_named (front : List Char) {name : List Char} {close : Char}
    (hname : isIdentifier name = true) (hclose : Lexeme.isNameChar close = false)
    (hread : ∀ cs, Lexeme.readName (front ++ cs) = Lexeme.readSpelled front close cs)
    (hfront : ∀ cs, ((front ++ cs).dropWhile Lexeme.isOptionLetter).head? ≠ some ')')
    (rest : List Char) :
    Lexeme.readSpecial (front ++ (name ++ close :: rest)) =
      some (.opener (.capturing (some (String.ofList name)))
        ('(' :: '?' :: (front ++ name ++ [close])), rest) := by
  apply readSpecial_of_readName (hfront _)
  rw [hread, Lexeme.readSpelled, readIdentifier_append hname hclose]
  rfl

/-- A name between two signs, none of which can be part of it, opens a named group. -/
theorem readGroup_named (front : List Char) {name : List Char} {close : Char}
    (hname : isIdentifier name = true) (hclose : Lexeme.isNameChar close = false)
    (hread : ∀ cs, Lexeme.readName (front ++ cs) = Lexeme.readSpelled front close cs)
    (hfront : ∀ cs, ((front ++ cs).dropWhile Lexeme.isOptionLetter).head? ≠ some ')')
    (rest : List Char) :
    Lexeme.readGroup ('?' :: front ++ name ++ [close] ++ rest) =
      (.opener (.capturing (some (String.ofList name))) ('(' :: '?' :: front ++ name ++ [close]),
        rest) := by
  have hinner : front ++ name ++ [close] ++ rest = front ++ (name ++ close :: rest) := by simp
  simp only [List.cons_append, hinner]
  rw [Lexeme.readGroup, readSpecial_named front hname hclose hread hfront]
  rfl

theorem Mark.sound {g : Mark} (h : g.isLegal = true) : Marks.Sound g := by
  cases g with
  | capturing =>
    refine ⟨[], rfl, ?_⟩
    intro rest hrest
    rw [List.nil_append]
    unfold Lexeme.readGroup
    split
    · exact absurd rfl (fresh_cons.1 hrest).2.2
    · rfl
  | named form name =>
    cases form with
    | letter =>
      have hread := readGroup_named ['P', '<'] h (by decide : Lexeme.isNameChar '>' = false)
        (fun _ => rfl) (by simp [Lexeme.isOptionLetter])
      exact ⟨_, rfl, fun rest _ => hread rest⟩
    | angle =>
      have hread := readGroup_named ['<'] h (by decide : Lexeme.isNameChar '>' = false)
        (fun _ => rfl) (by simp [Lexeme.isOptionLetter])
      exact ⟨_, rfl, fun rest _ => hread rest⟩
    | quote =>
      have hread := readGroup_named ['\''] h (by decide : Lexeme.isNameChar '\'' = false)
        (fun _ => rfl) (by simp [Lexeme.isOptionLetter])
      exact ⟨_, rfl, fun rest _ => hread rest⟩
  | nonCapturing => exact ⟨['?', ':'], rfl, fun rest _ => rfl⟩
  | atomic => exact ⟨['?', '>'], rfl, fun rest _ => rfl⟩
  | ahead negated =>
    cases negated with
    | true => exact ⟨['?', '!'], rfl, fun rest _ => rfl⟩
    | false => exact ⟨['?', '='], rfl, fun rest _ => rfl⟩

/-! ### Whole expressions -/

theorem Legal.sound {groups : Groups} {r : Expression} (h : Legal groups r) : r.Sound := by
  induction r generalizing groups with
  | done => trivial
  | unit e q next ih => exact ⟨Element.sound h.1.1, ih h.2.2⟩
  | group g body q next ihb ihn => exact ⟨Mark.sound h.1.1, ihb h.2.1, ihn h.2.2⟩
  | bar next ih => exact ih h

theorem complete_opening {g : Mark} (h : g.isLegal = true) : Complete g.opening := by
  have hname : ∀ {name : List Char}, isIdentifier name = true → Complete name :=
    fun hname => freeOf_identifier hname fun _ _ => id
  have hsigns : ∀ signs : List Char, '\\' ∉ signs → Complete signs := by
    intro signs hsigns
    apply complete_of_forall
    rintro c hc rfl
    exact hsigns hc
  cases g with
  | capturing => exact hsigns _ (by decide)
  | named form name =>
    cases form with
    | letter =>
      exact (hsigns ['(', '?', 'P', '<'] (by decide)).append
        ((hname h).append (hsigns _ (by decide)))
    | angle =>
      exact (hsigns ['(', '?', '<'] (by decide)).append
        ((hname h).append (hsigns _ (by decide)))
    | quote =>
      exact (hsigns ['(', '?', '\''] (by decide)).append
        ((hname h).append (hsigns _ (by decide)))
  | nonCapturing => exact hsigns _ (by decide)
  | atomic => exact hsigns _ (by decide)
  | ahead negated => cases negated <;> exact hsigns _ (by decide)

theorem Legal.complete {groups : Groups} {r : Expression} (h : Legal groups r) :
    Complete r.text := by
  induction r generalizing groups with
  | done => exact .nil
  | unit e q next ih =>
    exact ((Element.sound h.1.1).complete.append (complete_quantifier q)).append
      (ih h.2.2)
  | group g body q next ihb ihn =>
    have hclose : Complete (')' :: Quantifier.text q) :=
      .single (by decide) id (complete_quantifier q)
    exact (((complete_opening h.1.1).append (ihb h.2.1)).append hclose).append (ihn h.2.2)
  | bar next ih => exact .single (by decide) id (ih h)

end RegexText.Source
