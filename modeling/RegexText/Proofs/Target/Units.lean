/-
  RegexText/Proofs/Target/Units.lean
  ==================================
  **Texts as the target sees them: in code units.**

  A character on the basic plane is one unit, and any other is a high surrogate and
  a low one.  The ranges of these do not meet, so no character begins like another
  and none begins in the middle of one: a text can be read back from its units, from
  any place where a character begins.
-/
import RegexText.Proofs.Target.Escape

namespace RegexText.Target

/-! ### Characters -/

variable {c d : Char} {cs : List Char} {x z : List Nat}

/-- A character of one unit, or of a high surrogate and a low one. -/
theorem unitsOf_cases (c : Char) :
    (unitsOf c = [c.toNat] ∧ (c.toNat < 0xD800 ∨ 0xE000 ≤ c.toNat) ∧ c.toNat < 0x10000) ∨
      ∃ high low, unitsOf c = [high, low] ∧ 0xD800 ≤ high ∧ high < 0xDC00 ∧ 0xDC00 ≤ low ∧
        low < 0xE000 ∧ c.toNat = (high - 0xD800) * 0x400 + (low - 0xDC00) + 0x10000 := by
  have hvalid : c.toNat < 0xD800 ∨ 0xDFFF < c.toNat ∧ c.toNat < 0x110000 := c.valid
  unfold unitsOf
  split_ifs with hplane
  · left
    refine ⟨rfl, ?_, hplane⟩
    omega
  · right
    refine ⟨_, _, rfl, ?_⟩
    omega

/-- No character begins like another. -/
theorem eq_of_unitsOf_append {y : List Nat} (h : unitsOf c ++ x = unitsOf d ++ y) :
    c = d ∧ x = y := by
  rw [← Char.toNat_inj]
  rcases unitsOf_cases c with ⟨hc, hplane⟩ | ⟨high, low, hc, hsurrogates⟩
  · rcases unitsOf_cases d with ⟨hd, -⟩ | ⟨high', low', hd, hsurrogates'⟩
    · rw [hc, hd] at h
      exact List.cons_eq_cons.1 h
    · rw [hc, hd] at h
      have hhead := (List.cons_eq_cons.1 h).1
      omega
  · rcases unitsOf_cases d with ⟨hd, hplane'⟩ | ⟨high', low', hd, hsurrogates'⟩
    · rw [hc, hd] at h
      have hhead := (List.cons_eq_cons.1 h).1
      omega
    · rw [hc, hd] at h
      simp only [List.cons_append, List.nil_append, List.cons.injEq] at h
      exact ⟨by omega, h.2.2⟩

/-! ### Texts -/

/-- The code units of a text. -/
def units (cs : List Char) : List Nat := cs.flatMap unitsOf

theorem units_append (as bs : List Char) : units (as ++ bs) = units as ++ units bs :=
  List.flatMap_append

theorem units_eq_unitsOf_append_iff :
    units cs = unitsOf c ++ z ↔ ∃ ds, cs = c :: ds ∧ z = units ds := by
  constructor
  · intro h
    cases cs with
    | nil =>
      have hnil := (List.append_eq_nil_iff.1 h.symm).1
      exact absurd (congrArg (List.map Atom.unit) hnil) (unitsOf_ne_nil c)
    | cons d ds =>
      rcases eq_of_unitsOf_append (x := units ds) h with ⟨rfl, rfl⟩
      exact ⟨ds, rfl, rfl⟩
  · rintro ⟨ds, rfl, rfl⟩
    rfl

/-- A text is a front of another if its units are. -/
theorem units_eq_units_append_iff {as : List Char} :
    units cs = units as ++ z ↔ ∃ ds, cs = as ++ ds ∧ z = units ds := by
  induction as generalizing cs with
  | nil => simp [units, eq_comm]
  | cons a as ih =>
    have hunits : units (a :: as) ++ z = unitsOf a ++ (units as ++ z) :=
      List.append_assoc (unitsOf a) (units as) z
    rw [hunits, units_eq_unitsOf_append_iff]
    constructor
    · rintro ⟨ds, rfl, hds⟩
      rcases ih.1 hds.symm with ⟨rest, rfl, rfl⟩
      exact ⟨rest, rfl, rfl⟩
    · rintro ⟨rest, rfl, rfl⟩
      exact ⟨as ++ rest, rfl, (units_append as rest).symm⟩

/-! ### Places -/

/-- Does a text in code units begin with the second unit of a pair? -/
def InsidePair (x : List Nat) : Prop := ∃ u rest, x = u :: rest ∧ 0xDC00 ≤ u ∧ u < 0xE000

/-- No character begins inside a pair. -/
theorem InsidePair.ne_unitsOf_append (h : InsidePair x) : x ≠ unitsOf c ++ z := by
  rcases h with ⟨u, rest, rfl, hlow⟩
  intro heq
  rcases unitsOf_cases c with ⟨hc, hplane⟩ | ⟨high, low, hc, hsurrogates⟩
  · rw [hc] at heq
    have hhead := (List.cons_eq_cons.1 heq).1
    omega
  · rw [hc] at heq
    have hhead := (List.cons_eq_cons.1 heq).1
    omega

/-- A place in a text is in front of a character, or inside a pair. -/
theorem units_eq_append {front : List Nat} (h : units cs = front ++ x) :
    (∃ as bs, cs = as ++ bs ∧ x = units bs) ∨ InsidePair x := by
  induction cs generalizing front with
  | nil => exact .inl ⟨[], [], rfl, (List.append_eq_nil_iff.1 h.symm).2⟩
  | cons c cs ih =>
    have hlater : ∀ {later : List Nat}, units cs = later ++ x →
        (∃ as bs, c :: cs = as ++ bs ∧ x = units bs) ∨ InsidePair x := by
      intro later hunits
      rcases ih hunits with ⟨as, bs, rfl, rfl⟩ | hinside
      · exact .inl ⟨c :: as, bs, rfl, rfl⟩
      · exact .inr hinside
    cases front with
    | nil => exact .inl ⟨[], c :: cs, rfl, h.symm⟩
    | cons u front =>
      have hsplit : unitsOf c ++ units cs = u :: front ++ x := h
      rcases unitsOf_cases c with ⟨hc, -⟩ | ⟨high, low, hc, hsurrogates⟩
      · rw [hc] at hsplit
        exact hlater (List.cons_eq_cons.1 hsplit).2
      · rw [hc] at hsplit
        simp only [List.cons_append, List.nil_append, List.cons.injEq] at hsplit
        cases front with
        | nil => exact .inr ⟨low, units cs, hsplit.2.symm, by omega⟩
        | cons u' front => exact hlater (List.cons_eq_cons.1 hsplit.2).2

end RegexText.Target
