/-
  RegexText/Proofs/Regular/Lookahead.lean
  =======================================
  **Expressions that look ahead.**

  Whether an assertion about what follows holds depends on the text behind it, and
  that is no part of what the assertion matches.  So an expression with assertions
  is read as a relation: between what is left of a text before a match and what is
  left after it.  An assertion relates a rest to itself.

  Where nothing looks ahead, a match takes a text of the language off the front of
  the rest.  `leaves_plain` says so, and the two readings agree.
-/
import Mathlib.Logic.Relation
import RegexText.Proofs.Regular

namespace RegexText.Regular

open scoped Computability

/-! ### Taking texts off the front -/

/-- What is left of a text before and after a match. -/
abbrev Leaves (α : Type) := List α → List α → Prop

variable {α U : Type}

/-- A match takes a text of the language off the front. -/
def takesOff (l : Language α) : Leaves α := fun x y => ∃ w ∈ l, x = w ++ y

theorem takesOff_zero : takesOff (0 : Language α) = fun _ _ => False := by
  funext x y
  exact propext ⟨fun ⟨w, hw, _⟩ => Language.notMem_zero w hw, False.elim⟩

theorem takesOff_one : takesOff (1 : Language α) = Eq := by
  funext x y
  simp [takesOff, Language.mem_one]

theorem takesOff_add (l m : Language α) :
    takesOff (l + m) = fun x y => takesOff l x y ∨ takesOff m x y := by
  funext x y
  simp only [takesOff, Language.mem_add, or_and_right, exists_or]

theorem takesOff_mul (l m : Language α) :
    takesOff (l * m) = Relation.Comp (takesOff l) (takesOff m) := by
  funext x y
  apply propext
  constructor
  · rintro ⟨w, hw, rfl⟩
    obtain ⟨a, ha, b, hb, rfl⟩ := Language.mem_mul.1 hw
    exact ⟨b ++ y, ⟨a, ha, List.append_assoc a b y⟩, b, hb, rfl⟩
  · rintro ⟨_, ⟨a, ha, rfl⟩, b, hb, rfl⟩
    exact ⟨a ++ b, Language.append_mem_mul ha hb, (List.append_assoc a b y).symm⟩

theorem takesOff_kstar (l : Language α) :
    takesOff l∗ = Relation.ReflTransGen (takesOff l) := by
  funext x y
  apply propext
  constructor
  · rintro ⟨w, hw, rfl⟩
    obtain ⟨parts, rfl, hparts⟩ := Language.mem_kstar.1 hw
    clear hw
    induction parts with
    | nil => exact .refl
    | cons part parts ih =>
      obtain ⟨hpart, hrest⟩ := List.forall_mem_cons.1 hparts
      refine .head ⟨part, hpart, ?_⟩ (ih hrest)
      rw [List.flatten_cons, List.append_assoc]
  · intro h
    induction h using Relation.ReflTransGen.head_induction_on with
    | refl => exact ⟨[], Language.nil_mem_kstar l, rfl⟩
    | head hfirst _ ih =>
      obtain ⟨a, ha, rfl⟩ := hfirst
      obtain ⟨w, hw, rfl⟩ := ih
      refine ⟨a ++ w, ?_, (List.append_assoc a w y).symm⟩
      rw [← Language.one_add_self_mul_kstar_eq_kstar]
      exact .inr (Language.append_mem_mul ha hw)

/-! ### Expressions with assertions -/

/-- How a group is opened in an expression that may look ahead. -/
inductive Look where
  | group (g : Mark)
  /-- An assertion about what follows; `negated` asserts that it does not match. -/
  | ahead (negated : Bool)
deriving DecidableEq, Repr

instance : Marks Look where
  opener
    | .group g => Marks.opener g
    | .ahead negated => .assertion .ahead negated
  opening
    | .group g => g.opening
    | .ahead negated => ['(', '?', if negated then '!' else '=']

abbrev LookingExpression := Regex Matcher Look

/-- An expression without assertions. -/
def plain (r : Expression) : LookingExpression := r.map id .group

theorem text_plain (r : Expression) : (plain r).text = r.text := by
  induction r with
  | done => rfl
  | unit u q next ih =>
    simp only [plain, Regex.map, Regex.text] at ih ⊢
    rw [ih]
    rfl
  | group g body q next ihb ihn =>
    simp only [plain, Regex.map, Regex.text] at ihb ihn ⊢
    rw [ihb, ihn]
    rfl
  | bar next ih => exact congrArg ('|' :: ·) ih

/-- What a quantifier makes of matches.  An assertion may be repeated too: with a star it need
    not hold. -/
def repeatedly : Option Quantifier → Leaves α → Leaves α
  | none, l => l
  | some ⟨.star, _⟩, l => Relation.ReflTransGen l
  | some ⟨.plus, _⟩, l => Relation.TransGen l
  | some ⟨.optional, _⟩, l => Relation.ReflGen l

/-- What a group makes of the matches of its body. -/
def Look.enclosing : Look → Leaves α → Leaves α
  | .group _, l => l
  | .ahead negated, l => fun x y => x = y ∧ if negated then ¬ ∃ z, l x z else ∃ z, l x z

/-- The matches of the first alternative, and those of all others, from the languages of the
    units. -/
def leavesOf (unit : U → Language α) : Regex U Look → Leaves α × Leaves α
  | .done => (Eq, fun _ _ => False)
  | .unit u q next =>
    (Relation.Comp (repeatedly q (takesOff (unit u))) (leavesOf unit next).1,
      (leavesOf unit next).2)
  | .group g body q next =>
    (Relation.Comp
      (repeatedly q
        (g.enclosing fun x y => (leavesOf unit body).1 x y ∨ (leavesOf unit body).2 x y))
      (leavesOf unit next).1, (leavesOf unit next).2)
  | .bar next => (Eq, fun x y => (leavesOf unit next).1 x y ∨ (leavesOf unit next).2 x y)

/-- The matches of an expression in a dialect. -/
def leaves (D : Dialect) : LookingExpression → Leaves Char × Leaves Char :=
  leavesOf (Matcher.language D)

/-- The texts that an expression with assertions matches from end to end. -/
def lookingLanguage (D : Dialect) (r : LookingExpression) : Language Char :=
  {w | (leaves D r).1 w [] ∨ (leaves D r).2 w []}

variable {D : Dialect}

theorem takesOff_repeated (q : Option Quantifier) (l : Language Char) :
    takesOff (repeated q l) = repeatedly q (takesOff l) := by
  rcases q with _ | ⟨_ | _ | _, m⟩
  · rfl
  · exact takesOff_kstar l
  · funext x y
    rw [repeated, takesOff_mul, takesOff_kstar]
    exact propext Relation.TransGen.head'_iff.symm
  · funext x y
    rw [repeated, takesOff_add, takesOff_one, repeatedly, Relation.reflGen_iff, eq_comm (a := y)]

/-- **Without assertions, a match takes off a text of the language.** -/
theorem leaves_plain (r : Expression) :
    leaves D (plain r) = (takesOff (languages D r).1, takesOff (languages D r).2) := by
  rw [leaves]
  induction r with
  | done => rw [languages, takesOff_one, takesOff_zero]; rfl
  | unit u q next ih =>
    rw [plain] at ih ⊢
    simp only [Regex.map, leavesOf, languages, ih, takesOff_mul, takesOff_repeated, id]
  | group g body q next ihb ihn =>
    rw [plain] at ihb ihn ⊢
    simp only [Regex.map, leavesOf, languages, ihb, ihn, takesOff_mul, takesOff_repeated,
      takesOff_add, Look.enclosing]
  | bar next ih =>
    rw [plain] at ih ⊢
    simp only [Regex.map, leavesOf, languages, ih, takesOff_one, takesOff_add]

theorem lookingLanguage_plain (r : Expression) : lookingLanguage D (plain r) = language D r := by
  ext w
  simp only [lookingLanguage, leaves_plain, takesOff, List.append_nil, exists_eq_right']
  exact Iff.rfl

/-! ### A class in front -/

/-- An expression behind the assertion that a bracket expression matches the first character. -/
def behindClass (content : List Char) (r : Expression) : LookingExpression :=
  .group (.ahead false) (.unit (.bracket content) none .done) none (plain r)

theorem text_behindClass (content : List Char) (r : Expression) :
    (behindClass content r).text = ['(', '?', '=', '['] ++ content ++ [']', ')'] ++ r.text := by
  simp [behindClass, Regex.text, text_plain, Marks.opening, Written.spelling, Matcher.spelling,
    Spelling.text, Quantifier.text]

/-- An assertion that holds of all texts of a language takes none of them away. -/
theorem lookingLanguage_behindClass {content : List Char} {r : Expression}
    (h : ∀ w ∈ language D r, ∃ c cs, w = c :: cs ∧ (Matcher.bracket content).Matches D c) :
    lookingLanguage D (behindClass content r) = language D r := by
  have hahead : ∀ w ∈ language D r, (Look.ahead false).enclosing (fun x y =>
      (leaves D (.unit (.bracket content) none .done)).1 x y ∨
        (leaves D (.unit (.bracket content) none .done)).2 x y) w w := by
    intro w hw
    obtain ⟨c, cs, rfl, hc⟩ := h w hw
    exact ⟨rfl, cs, .inl ⟨cs, ⟨[c], ⟨c, hc, rfl⟩, rfl⟩, rfl⟩⟩
  rw [← lookingLanguage_plain r]
  ext w
  constructor
  · rintro (⟨_, ⟨rfl, _⟩, hfirst⟩ | hother)
    · exact .inl hfirst
    · exact .inr hother
  · intro hw
    have hlanguage : w ∈ language D r := lookingLanguage_plain r ▸ hw
    rcases hw with hfirst | hother
    · exact .inl ⟨w, hahead w hlanguage, hfirst⟩
    · exact .inr hother

end RegexText.Regular
