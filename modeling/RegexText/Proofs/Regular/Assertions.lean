/-
  RegexText/Proofs/Regular/Assertions.lean
  ========================================
  **Assertions with quantifiers.**

  An assertion takes nothing off a text.  To repeat it is to ask the same question
  at the same place again, so `+` makes no difference.  With `*` the question need
  not be asked at all, and the assertion says nothing any more.

  A quantifier can therefore be dropped from an assertion where it is a `+`.  Where
  it is a `*`, what is left without it matches less: those texts only of which the
  assertion holds.

  What the units of an expression are, and what they are read from, is left open
  here: all this is as true of code units as of characters.
-/
import RegexText.Proofs.Regular.Lookahead

namespace RegexText.Regular

variable {α U : Type}

/-! ### Matches that take nothing off -/

/-- Is what is left after a match always what was there before it? -/
def TakesNothing (l : Leaves α) : Prop := l ≤ Eq

theorem takesNothing_ahead (negated : Bool) (l : Leaves α) :
    TakesNothing ((Look.ahead negated).enclosing l) := fun _ _ h => h.1

namespace TakesNothing

variable {l : Leaves α}

theorem transGen (h : TakesNothing l) : Relation.TransGen l = l := by
  funext x y
  apply propext
  constructor
  · intro hmany
    induction hmany with
    | single hone => exact hone
    | tail _ hlast ih =>
      rw [← h _ _ hlast]
      exact ih
  · exact Relation.TransGen.single

theorem reflTransGen (h : TakesNothing l) : Relation.ReflTransGen l = Eq := by
  funext x y
  apply propext
  constructor
  · intro hmany
    induction hmany with
    | refl => rfl
    | tail _ hlast ih => exact ih.trans (h _ _ hlast)
  · rintro rfl
    exact .refl

theorem comp_le (h : TakesNothing l) (m : Leaves α) : Relation.Comp l m ≤ m := by
  rintro x z ⟨y, hfirst, hsecond⟩
  rw [h _ _ hfirst]
  exact hsecond

end TakesNothing

variable {unit : U → Language α}

/-! ### One assertion -/

/-- An assertion may be repeated. -/
theorem leavesOf_ahead_plus (negated : Bool) (body next : Regex U Look) (m : Manner) :
    leavesOf unit (.group (.ahead negated) body (some ⟨.plus, m⟩) next) =
      leavesOf unit (.group (.ahead negated) body none next) := by
  rw [leavesOf, leavesOf, repeatedly, repeatedly, (takesNothing_ahead negated _).transGen]

/-- An assertion with a star says nothing. -/
theorem leavesOf_ahead_star (negated : Bool) (body next : Regex U Look) (m : Manner) :
    leavesOf unit (.group (.ahead negated) body (some ⟨.star, m⟩) next) = leavesOf unit next := by
  rw [leavesOf, repeatedly, (takesNothing_ahead negated _).reflTransGen, Relation.eq_comp]

/-- An assertion excludes matches and adds none. -/
theorem leavesOf_ahead_le (negated : Bool) (body next : Regex U Look) :
    leavesOf unit (.group (.ahead negated) body none next) ≤ leavesOf unit next :=
  ⟨(takesNothing_ahead negated _).comp_le _, le_refl _⟩

/-! ### What comes behind an expression -/

/-- What comes behind an expression may be exchanged for what matches more. -/
theorem leavesOf_append_mono (r : Regex U Look) {s t : Regex U Look}
    (h : leavesOf unit s ≤ leavesOf unit t) :
    leavesOf unit (r.append s) ≤ leavesOf unit (r.append t) := by
  induction r with
  | done => exact h
  | unit u q next ih =>
    refine ⟨?_, ih.2⟩
    rintro x z ⟨y, hfirst, hnext⟩
    exact ⟨y, hfirst, ih.1 _ _ hnext⟩
  | group g body q next _ ih =>
    refine ⟨?_, ih.2⟩
    rintro x z ⟨y, hfirst, hnext⟩
    exact ⟨y, hfirst, ih.1 _ _ hnext⟩
  | bar next ih =>
    refine ⟨le_refl _, ?_⟩
    rintro x y (hfirst | hother)
    · exact .inl (ih.1 _ _ hfirst)
    · exact .inr (ih.2 _ _ hother)

theorem leavesOf_append_congr (r : Regex U Look) {s t : Regex U Look}
    (h : leavesOf unit s = leavesOf unit t) :
    leavesOf unit (r.append s) = leavesOf unit (r.append t) :=
  le_antisymm (leavesOf_append_mono r h.le) (leavesOf_append_mono r h.ge)

/-! ### An assertion between two expressions -/

/-- The expression `u(?=v)w` or `u(?!v)w`, with a quantifier behind the assertion or without
    one. -/
def guarded (u v w : Regex U Look) (negated : Bool) (q : Option Quantifier) : Regex U Look :=
  u.append (.group (.ahead negated) v q w)

section Guarded

variable (u v w : Regex U Look) (negated : Bool)

theorem text_guarded [Written U] (q : Option Quantifier) :
    (guarded u v w negated q).text =
      u.text ++ Marks.opening (Look.ahead negated) ++ v.text ++ ')' :: Quantifier.text q ++
        w.text := by
  simp [guarded, Regex.text_append, Regex.text]

theorem leavesOf_guarded_plus (m : Manner) :
    leavesOf unit (guarded u v w negated (some ⟨.plus, m⟩)) =
      leavesOf unit (guarded u v w negated none) :=
  leavesOf_append_congr _ (leavesOf_ahead_plus negated _ _ m)

theorem leavesOf_guarded_star (m : Manner) :
    leavesOf unit (guarded u v w negated (some ⟨.star, m⟩)) = leavesOf unit (u.append w) :=
  leavesOf_append_congr _ (leavesOf_ahead_star negated _ _ m)

theorem leavesOf_guarded_le :
    leavesOf unit (guarded u v w negated none) ≤ leavesOf unit (u.append w) :=
  leavesOf_append_mono _ (leavesOf_ahead_le negated _ _)

end Guarded

/-! ### Subjects -/

/-- Is an expression found somewhere in a text? -/
def Finds (unit : U → Language α) (r : Regex U Look) (subject : List α) : Prop :=
  ∃ front x y, subject = front ++ x ∧ ((leavesOf unit r).1 x y ∨ (leavesOf unit r).2 x y)

variable {r s : Regex U Look} {subject : List α}

theorem Finds.of_le (h : leavesOf unit r ≤ leavesOf unit s) (hr : Finds unit r subject) :
    Finds unit s subject := by
  rcases hr with ⟨front, x, y, hsubject, hmatch⟩
  exact ⟨front, x, y, hsubject, hmatch.imp (h.1 _ _) (h.2 _ _)⟩

theorem finds_congr (h : leavesOf unit r = leavesOf unit s) :
    Finds unit r subject ↔ Finds unit s subject := by
  rw [Finds, Finds, h]

end RegexText.Regular
