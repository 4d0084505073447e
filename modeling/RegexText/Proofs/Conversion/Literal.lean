/-
  RegexText/Proofs/Conversion/Literal.lean
  ========================================
  **Literal text is converted unit by unit.**

  The converter looks for references first and expands what lies between them.
  `Rewrites` says what a unit in front of some literal text becomes, whatever the
  text is but for one thing: whether it begins with a digit.
-/
import RegexText.Proofs.Conversion.References

namespace RegexText.Source

open Text Conversion

/-! ### One round of the converter -/

section Round

variable {dotAll : Bool} {captures : Captures} {text before after : List Char} {letter : Char}

theorem convertLiteral_of_none (h : Backreference.splitFirst text = (before, none)) :
    convertLiteral dotAll captures text = CategoryEscape.expand false dotAll before := by
  rw [convertLiteral]
  split
  · rename_i heq
    rw [h] at heq
    cases heq
    rfl
  · rename_i heq
    rw [h] at heq
    cases heq

theorem convertLiteral_of_some
    (h : Backreference.splitFirst text = (before, some (letter, after))) (z : List Char) :
    (convertLiteral dotAll captures text).outcome = .ok z ↔
      ∃ reference spelling rest number front back,
        Backreference.read letter after = some (reference, spelling, rest) ∧
        captures.resolve? reference = some number ∧
        (CategoryEscape.expand false dotAll before).outcome = .ok front ∧
        (convertLiteral dotAll captures rest).outcome = .ok back ∧
        z = front ++ Backreference.numbered number rest ++ back := by
  rw [convertLiteral]
  split
  · rename_i heq
    rw [h] at heq
    cases heq
  · rename_i heq
    rw [h] at heq
    cases heq
    split
    · rename_i hread
      simp [hread]
    · rename_i reference spelling rest hread
      split
      · rename_i hresolve
        simp [hread, hresolve]
      · rename_i number hresolve
        simp only [Traced.outcome_bind_eq_ok_iff, Traced.outcome_note, Traced.outcome_pure,
          Except.ok.injEq, hread, Option.some.injEq, Prod.mk.injEq]
        constructor
        · rintro ⟨_, _, front, hfront, back, hback, rfl⟩
          exact ⟨reference, spelling, rest, number, front, back, ⟨rfl, rfl, rfl⟩, hresolve, hfront,
            hback, rfl⟩
        · rintro ⟨_, _, _, found, front, back, ⟨rfl, rfl, rfl⟩, hfound, hfront, hback, rfl⟩
          rw [hresolve] at hfound
          cases hfound
          exact ⟨(), trivial, front, hfront, back, hback, rfl⟩

end Round

/-! ### Fronts without references -/

/-- Does a front of a text hold no reference, whatever comes behind it? -/
def Passes (a : List Char) : Prop :=
  ∀ b, Backreference.splitFirst (a ++ b) =
    (a ++ (Backreference.splitFirst b).1, (Backreference.splitFirst b).2)

namespace Passes

theorem nil : Passes [] := fun _ => rfl

theorem append {a b : List Char} (ha : Passes a) (hb : Passes b) : Passes (a ++ b) := by
  intro rest
  rw [List.append_assoc, ha, hb, List.append_assoc]

theorem single {c : Char} (hc : c ≠ '\\') : Passes [c] := by
  intro b
  rw [List.singleton_append, Backreference.splitFirst.eq_def]
  split
  · simp_all
  · simp_all
  · simp_all
  · rename_i heq
    obtain ⟨rfl, rfl⟩ := List.cons.inj heq
    rfl

theorem pair {c : Char} (hc : ¬ (c = 'k' ∨ c = 'g')) : Passes ['\\', c] := by
  intro b
  rw [List.cons_append, List.singleton_append, Backreference.splitFirst, if_neg hc]
  rfl

theorem chars {cs : List Char} (h : ∀ c ∈ cs, c ≠ '\\') : Passes cs := by
  induction cs with
  | nil => exact nil
  | cons c cs ih =>
    exact (single (h c (List.mem_cons_self ..))).append
      (ih fun d hd => h d (List.mem_cons_of_mem _ hd))

theorem category {spelling : CategorySpelling} (h : spelling.categories?.isSome = true) :
    Passes spelling.text := by
  obtain ⟨categories, hcategories⟩ := Option.isSome_iff_exists.1 h
  have hletter : ∀ capital, Passes ['\\', CategorySpelling.letter capital] := by
    intro capital
    apply pair
    cases capital <;> decide
  have hname : ∀ {name : List Char}, (∀ c ∈ name, isCategoryChar c = true) → Passes name := by
    intro name hall
    apply chars
    intro c hc
    exact ne_of_apply (hall c hc) (by decide)
  cases spelling with
  | short capital name =>
    obtain ⟨_, hall⟩ := isCategoryChar_of_categories? hcategories
    exact (hletter capital).append (hname hall)
  | braced capital caret name =>
    obtain ⟨_, hall⟩ := isCategoryChar_of_categories? hcategories
    have hopen : Passes ('{' :: if caret then ['^'] else []) := by
      apply chars
      cases caret <;> simp
    have hclose : Passes ['}'] := single (by decide)
    have hwhole := (hletter capital).append (hopen.append ((hname hall).append hclose))
    simpa [CategorySpelling.text] using hwhole

end Passes

/-! ### Units in front of literal text -/

/-- Does a front become `x`, whatever comes behind it that does, or does not, begin with a
    digit? -/
def Rewrites (dotAll : Bool) (groups : Groups) (digitBehind : Bool) (a x : List Char) : Prop :=
  ∀ b y, digitAhead b = digitBehind →
    (convertLiteral dotAll (capturesOf groups) b).outcome = .ok y →
    (convertLiteral dotAll (capturesOf groups) (a ++ b)).outcome = .ok (x ++ y)

namespace Rewrites

variable {dotAll digitBehind : Bool} {groups : Groups}

/-- What holds no reference is expanded. -/
theorem of_passes {a x : List Char} (hpasses : Passes a) (hexpands : Expands false dotAll a x) :
    Rewrites dotAll groups digitBehind a x := by
  intro b y _ hb
  have hsplit := hpasses b
  cases hfound : (Backreference.splitFirst b).2 with
  | none =>
    have hwhole : Backreference.splitFirst b = ((Backreference.splitFirst b).1, none) :=
      Prod.ext rfl hfound
    rw [hfound] at hsplit
    rw [convertLiteral_of_none hwhole] at hb
    rw [convertLiteral_of_none hsplit]
    exact hexpands _ _ hb
  | some found =>
    obtain ⟨letter, after⟩ := found
    have hwhole : Backreference.splitFirst b =
        ((Backreference.splitFirst b).1, some (letter, after)) := Prod.ext rfl hfound
    rw [hfound] at hsplit
    obtain ⟨reference, spelling, rest, number, front, back, hread, hresolve, hfront, hback, rfl⟩ :=
      (convertLiteral_of_some hwhole y).1 hb
    refine (convertLiteral_of_some hsplit _).2
      ⟨reference, spelling, rest, number, x ++ front, back, hread, hresolve, ?_, hback, ?_⟩
    · exact hexpands _ _ hfront
    · simp [List.append_assoc]

/-- Of two fronts, the second one decides whether a digit comes behind the first one. -/
theorem append {a b x y : List Char} (hb : Rewrites dotAll groups digitBehind b y)
    (ha : ∀ rest, digitAhead rest = digitBehind →
      Rewrites dotAll groups (digitAhead (b ++ rest)) a x) :
    Rewrites dotAll groups digitBehind (a ++ b) (x ++ y) := by
  intro rest z hrest hz
  rw [List.append_assoc, List.append_assoc]
  exact ha rest hrest _ _ rfl (hb rest z hrest hz)

theorem numbered_eq (number : Nat) (rest : List Char) :
    Backreference.numbered number rest =
      if digitAhead rest then ['(', '?', ':'] ++ '\\' :: Nat.toDigits 10 number ++ [')']
      else '\\' :: Nat.toDigits 10 number := by
  cases rest with
  | nil => rfl
  | cons c cs => rfl

theorem reference {r : Reference} (h : r.isLegal groups = true)
    (hdigit : r.isOpen = true → digitBehind = false) :
    Rewrites dotAll groups digitBehind r.text (r.translation groups digitBehind) := by
  intro b y hb hy
  obtain ⟨number, htarget⟩ : ∃ number, r.target? groups = some number := by
    simp only [Reference.isLegal, Bool.and_eq_true] at h
    exact Option.isSome_iff_exists.1 h.1
  obtain ⟨spelling, hread⟩ := read_reference h fun hopen => hb.trans (hdigit hopen)
  have hsplit : Backreference.splitFirst (r.text ++ b) = ([], some (r.letter, r.tail ++ b)) := by
    rw [Reference.text_eq, List.cons_append, List.cons_append, Backreference.splitFirst,
      if_pos r.letter_eq]
  refine (convertLiteral_of_some hsplit _).2 ⟨r.meaning, spelling, b, number, [], y, hread,
    (resolve?_meaning h).trans htarget, ?_, hy, ?_⟩
  · exact Expands.nil.outcome
  · rw [numbered_eq, hb, Reference.translation, htarget]
    rfl

theorem element {e : Element} (h : e.isLegal groups = true) {text : List Char}
    (hspelling : e.spelling = .run text) (hdigit : e.isOpen = true → digitBehind = false) :
    Rewrites dotAll groups digitBehind text
      (e.translation dotAll false groups digitBehind) := by
  cases e with
  | literal c =>
    cases hspelling
    exact of_passes (Passes.single (ne_of_not_reserved h (by decide))) (Expands.literal h)
  | escaped c =>
    cases hspelling
    apply of_passes (Passes.pair _) (Expands.pair (not_category_of_isPunctuation h))
    rintro (rfl | rfl) <;> cases h
  | shorthand s negated =>
    cases hspelling
    apply of_passes (Passes.pair _) (Expands.shorthand s negated)
    cases s <;> cases negated <;> decide
  | start =>
    cases hspelling
    exact of_passes (Passes.single (by decide)) (Expands.char (by decide) (by decide))
  | stop =>
    cases hspelling
    exact of_passes (Passes.single (by decide)) (Expands.char (by decide) (by decide))
  | dot =>
    cases hspelling
    exact of_passes (Passes.single (by decide)) (Expands.single (by decide))
  | category spelling =>
    cases hspelling
    exact of_passes (Passes.category h) (Expands.category h)
  | bracket negated items => cases hspelling
  | reference r =>
    cases hspelling
    exact reference h hdigit

end Rewrites

end RegexText.Source
