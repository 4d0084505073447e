/-
  RegexText/Proofs/Piece/Decimal.lean
  ===================================
  **Numeric escapes among the pieces of a body.**

  An escaped digit and the digits behind it are read as one number.  In an extended
  body the number ends where white space or a comment begins.  Once these are
  dropped it goes on with what stood behind them, if that is a digit.

  Nothing else happens to a number: each of them is the beginning of what it
  becomes, and all of them stay as they are exactly if none is parted from a digit
  by nothing but ignorable text (`decimals_filter_eq_iff`).
-/
import Mathlib.Data.List.Forall2
import RegexText.Proofs.Piece

namespace RegexText.Piece

variable {p : Piece} {ps qs as bs : List Piece} {c : Char}

/-! ### Numbers -/

/-- The digits at the front of some pieces. -/
def leadingDigits : List Piece → List Char
  | .char c :: ps => if c.isDigit then c :: leadingDigits ps else []
  | _ => []

/-- The digits of each numeric escape: the one behind the backslash and all that follow it. -/
def decimals : List Piece → List (List Char)
  | [] => []
  | .escape c :: ps => if c.isDigit then (c :: leadingDigits ps) :: decimals ps else decimals ps
  | _ :: ps => decimals ps

/-- Is a piece a digit of a number that has begun? -/
def IsDigit (p : Piece) : Prop := ∃ c, p = .char c ∧ c.isDigit = true

/-- Does a number begin with a piece? -/
def IsDecimal (p : Piece) : Prop := ∃ c, p = .escape c ∧ c.isDigit = true

theorem leadingDigits_digit (h : c.isDigit = true) (ps : List Piece) :
    leadingDigits (.char c :: ps) = c :: leadingDigits ps :=
  if_pos h

theorem leadingDigits_of_not (h : ¬ IsDigit p) (ps : List Piece) :
    leadingDigits (p :: ps) = [] := by
  cases p with
  | char c => exact if_neg fun hc => h ⟨c, rfl, hc⟩
  | _ => rfl

theorem leadingDigits_ne_nil_iff :
    leadingDigits ps ≠ [] ↔ ∃ d qs, ps = .char d :: qs ∧ d.isDigit = true := by
  constructor
  · intro h
    cases ps with
    | nil => exact absurd rfl h
    | cons p ps =>
      by_cases hp : IsDigit p
      · obtain ⟨d, rfl, hd⟩ := hp
        exact ⟨d, ps, rfl, hd⟩
      · exact absurd (leadingDigits_of_not hp ps) h
  · rintro ⟨d, qs, rfl, hd⟩
    rw [leadingDigits_digit hd]
    exact List.cons_ne_nil d _

theorem decimals_decimal (h : c.isDigit = true) (ps : List Piece) :
    decimals (.escape c :: ps) = (c :: leadingDigits ps) :: decimals ps :=
  if_pos h

theorem decimals_of_not (h : ¬ IsDecimal p) (ps : List Piece) :
    decimals (p :: ps) = decimals ps := by
  cases p with
  | escape c => exact if_neg fun hc => h ⟨c, rfl, hc⟩
  | _ => rfl

theorem decimals_append_of_forall (h : ∀ p ∈ as, ¬ IsDecimal p) (ps : List Piece) :
    decimals (as ++ ps) = decimals ps := by
  induction as with
  | nil => rfl
  | cons a as ih =>
    obtain ⟨ha, has⟩ := List.forall_mem_cons.1 h
    rw [List.cons_append, decimals_of_not ha, ih has]

/-- What stands in front of some pieces takes no number from them. -/
theorem sublist_decimals_append (as ps : List Piece) :
    (decimals ps).Sublist (decimals (as ++ ps)) := by
  induction as with
  | nil => exact List.Sublist.refl _
  | cons a as ih =>
    by_cases ha : IsDecimal a
    · obtain ⟨c, rfl, hc⟩ := ha
      rw [List.cons_append, decimals_decimal hc]
      exact ih.cons _
    · rwa [List.cons_append, decimals_of_not ha]

/-! ### Ignorable text -/

/-- Do some pieces begin with digits, behind which come ignorable text and another digit? -/
def Torn (ps : List Piece) : Prop :=
  ∃ (digits : List Char) (ignored : List Piece) (d : Char) (after : List Piece),
    ps = digits.map .char ++ ignored ++ .char d :: after ∧ (∀ c ∈ digits, c.isDigit = true) ∧
      d.isDigit = true ∧ ignored ≠ [] ∧ ∀ p ∈ ignored, p.isKept = false

/-- Is a number parted from a digit by nothing but ignorable text? -/
def Parted (ps : List Piece) : Prop :=
  ∃ before c behind, ps = before ++ .escape c :: behind ∧ c.isDigit = true ∧ Torn behind

theorem isKept_of_isDigit (h : IsDigit p) : p.isKept = true := by
  obtain ⟨c, rfl, _⟩ := h
  rfl

theorem isKept_of_isDecimal (h : IsDecimal p) : p.isKept = true := by
  obtain ⟨c, rfl, _⟩ := h
  rfl

theorem not_torn_nil : ¬ Torn [] := by
  rintro ⟨digits, ignored, d, after, heq, _⟩
  simp at heq

theorem torn_digit (hc : c.isDigit = true) : Torn (.char c :: ps) ↔ Torn ps := by
  constructor
  · rintro ⟨digits, ignored, d, after, heq, hdigits, hd, hne, hignored⟩
    cases digits with
    | nil =>
      obtain ⟨first, ignored, rfl⟩ := List.exists_cons_of_ne_nil hne
      cases heq
      cases hignored (.char c) (by simp)
    | cons e digits =>
      cases heq
      have hmore := (List.forall_mem_cons.1 hdigits).2
      exact ⟨digits, ignored, d, after, rfl, hmore, hd, hne, hignored⟩
  · rintro ⟨digits, ignored, d, after, rfl, hdigits, hd, hne, hignored⟩
    exact ⟨c :: digits, ignored, d, after, rfl, List.forall_mem_cons.2 ⟨hc, hdigits⟩, hd, hne,
      hignored⟩

/-- Behind ignorable text it matters what comes first once that is dropped. -/
theorem torn_ignored (hp : p.isKept = false) :
    Torn (p :: ps) ↔ leadingDigits (ps.filter isKept) ≠ [] := by
  rw [leadingDigits_ne_nil_iff]
  constructor
  · rintro ⟨digits, ignored, d, after, heq, _, hd, hne, hignored⟩
    cases digits with
    | nil =>
      obtain ⟨first, ignored, rfl⟩ := List.exists_cons_of_ne_nil hne
      cases heq
      have hdropped : ignored.filter isKept = [] :=
        List.filter_eq_nil_iff.2 fun q hq => by simp [hignored q (List.mem_cons_of_mem _ hq)]
      refine ⟨d, after.filter isKept, ?_, hd⟩
      change (ignored ++ .char d :: after).filter isKept = _
      rw [List.filter_append, hdropped]
      rfl
    | cons e digits =>
      cases heq
      cases hp
  · rintro ⟨d, qs, heq, hd⟩
    obtain ⟨ignored, after, rfl, hignored, _, _⟩ := List.filter_eq_cons_iff.1 heq
    refine ⟨[], p :: ignored, d, after, rfl, by simp, hd, by simp, ?_⟩
    exact List.forall_mem_cons.2 ⟨hp, fun q hq => by simpa using hignored q hq⟩

theorem not_torn_kept (hp : p.isKept = true) (hdigit : ¬ IsDigit p) : ¬ Torn (p :: ps) := by
  rintro ⟨digits, ignored, d, after, heq, hdigits, _, hne, hignored⟩
  cases digits with
  | nil =>
    obtain ⟨first, ignored, rfl⟩ := List.exists_cons_of_ne_nil hne
    cases heq
    rw [hignored p (by simp)] at hp
    cases hp
  | cons e digits =>
    cases heq
    exact hdigit ⟨e, rfl, hdigits e (by simp)⟩

theorem parted_cons : Parted (p :: ps) ↔ (IsDecimal p ∧ Torn ps) ∨ Parted ps := by
  constructor
  · rintro ⟨before, c, behind, heq, hc, htorn⟩
    cases before with
    | nil =>
      cases heq
      exact .inl ⟨⟨c, rfl, hc⟩, htorn⟩
    | cons q before =>
      cases heq
      exact .inr ⟨before, c, behind, rfl, hc, htorn⟩
  · rintro (⟨⟨c, rfl, hc⟩, htorn⟩ | ⟨before, c, behind, rfl, hc, htorn⟩)
    · exact ⟨[], c, ps, rfl, hc, htorn⟩
    · exact ⟨p :: before, c, behind, rfl, hc, htorn⟩

theorem leadingDigits_prefix_filter (ps : List Piece) :
    leadingDigits ps <+: leadingDigits (ps.filter isKept) := by
  induction ps with
  | nil => exact List.prefix_refl _
  | cons p ps ih =>
    by_cases hp : IsDigit p
    · rw [List.filter_cons_of_pos (isKept_of_isDigit hp)]
      obtain ⟨c, rfl, hc⟩ := hp
      rw [leadingDigits_digit hc, leadingDigits_digit hc]
      exact List.cons_prefix_cons.2 ⟨rfl, ih⟩
    · rw [leadingDigits_of_not hp]
      exact List.nil_prefix

theorem leadingDigits_filter_eq_iff :
    leadingDigits (ps.filter isKept) = leadingDigits ps ↔ ¬ Torn ps := by
  induction ps with
  | nil => exact iff_of_true rfl not_torn_nil
  | cons p ps ih =>
    by_cases hdigit : IsDigit p
    · rw [List.filter_cons_of_pos (isKept_of_isDigit hdigit)]
      obtain ⟨c, rfl, hc⟩ := hdigit
      rw [leadingDigits_digit hc, leadingDigits_digit hc, torn_digit hc, List.cons_inj_right, ih]
    · rw [leadingDigits_of_not hdigit]
      cases hkept : p.isKept with
      | true =>
        rw [List.filter_cons_of_pos hkept, leadingDigits_of_not hdigit]
        exact iff_of_true rfl (not_torn_kept hkept hdigit)
      | false => rw [List.filter_cons_of_neg (by simp [hkept]), torn_ignored hkept,
          Classical.not_not]

/-! ### All numbers of a body -/

/-- **Each number is the beginning of what it becomes.** -/
theorem decimals_prefix_filter (ps : List Piece) :
    List.Forall₂ (· <+: ·) (decimals ps) (decimals (ps.filter isKept)) := by
  induction ps with
  | nil => exact .nil
  | cons p ps ih =>
    by_cases hp : IsDecimal p
    · rw [List.filter_cons_of_pos (isKept_of_isDecimal hp)]
      obtain ⟨c, rfl, hc⟩ := hp
      rw [decimals_decimal hc, decimals_decimal hc]
      exact .cons (List.cons_prefix_cons.2 ⟨rfl, leadingDigits_prefix_filter ps⟩) ih
    · rw [decimals_of_not hp, List.filter_cons]
      split
      · rwa [decimals_of_not hp]
      · exact ih

/-- **Numbers stay as they are exactly if none is parted from a digit.** -/
theorem decimals_filter_eq_iff : decimals (ps.filter isKept) = decimals ps ↔ ¬ Parted ps := by
  induction ps with
  | nil =>
    refine iff_of_true rfl ?_
    rintro ⟨before, c, behind, heq, _⟩
    simp at heq
  | cons p ps ih =>
    rw [parted_cons, not_or, ← ih]
    by_cases hp : IsDecimal p
    · rw [List.filter_cons_of_pos (isKept_of_isDecimal hp)]
      have htorn : ¬ (IsDecimal p ∧ Torn ps) ↔ ¬ Torn ps := by simp [hp]
      rw [htorn, ← leadingDigits_filter_eq_iff]
      obtain ⟨c, rfl, hc⟩ := hp
      rw [decimals_decimal hc, decimals_decimal hc, List.cons.injEq, List.cons_inj_right]
    · have hsame : decimals ((p :: ps).filter isKept) = decimals (ps.filter isKept) := by
        rw [List.filter_cons]
        split
        · exact decimals_of_not hp _
        · rfl
      rw [hsame, decimals_of_not hp]
      simp [hp]

end RegexText.Piece
