/-
  RegexText/Proofs/Piece/Possessive.lean
  ======================================
  **Possessive marks among the pieces of a body.**

  A quantifier with a plus sign right behind it is possessive.  Some items of a
  body take their quantifiers along when they are copied, and keep the first one
  only; the others leave them where they are.  `Carried` sets the pieces of two
  bodies side by side that have come apart in this way, and a possessive mark of
  the second is one of the first that no item has taken along.

  A quantifier is not always a repetition: the question mark of `(?:` repeats
  nothing.  What is copied as a whole only has to be settled, that is, to hold no
  mark and to end in nothing that could take part in one.
-/
import Mathlib.Data.List.Infix
import RegexText.Proofs.Piece

namespace RegexText.Piece

variable {P : List Piece → Piece → Prop} {p p' : Piece} {as bs ps ps' : List Piece}
  {closed : Bool}

/-! ### Marks -/

def isQuantifier : Piece → Bool
  | .char c => c == '*' || c == '+' || c == '?'
  | _ => false

/-- Does an item end here that takes along the stars and plus signs behind it? -/
def isItemEnd : Piece → Bool
  | .bracket _ => true
  | .char c => c == ')'
  | _ => false

/-- Does such an item end behind some pieces?  `closed` tells whether one ends in front of
    them. -/
def endsItem (closed : Bool) : List Piece → Bool
  | [] => closed
  | p :: ps => endsItem p.isItemEnd ps

/-- Is there a quantifier with a plus sign right behind it, of which `P` holds, given the pieces in
    front of it? -/
def MarkedWhere (P : List Piece → Piece → Prop) (ps : List Piece) : Prop :=
  ∃ before q after, ps = before ++ q :: .char '+' :: after ∧ q.isQuantifier = true ∧ P before q

/-- Is there a possessive mark? -/
def Possessive (ps : List Piece) : Prop := MarkedWhere (fun _ _ => True) ps

/-- Is there a possessive mark that no item takes along: that of a question mark, or one that does
    not stand right behind an item? -/
def Exposed (closed : Bool) (ps : List Piece) : Prop :=
  MarkedWhere (fun before q => q = .char '?' ∨ endsItem closed before = false) ps

/-- Is there one plus sign at most, and no star, behind each quantifier? -/
def Restrained (ps : List Piece) : Prop :=
  ∀ c ∈ ['*', '+', '?'],
    ¬ [.char c, .char '*'] <:+: ps ∧ ¬ [.char c, .char '+', .char '+'] <:+: ps

instance (ps : List Piece) : Decidable (Restrained ps) := List.decidableBAll _ ['*', '+', '?']

theorem endsItem_append (closed : Bool) (as bs : List Piece) :
    endsItem closed (as ++ bs) = endsItem (endsItem closed as) bs := by
  induction as generalizing closed with
  | nil => rfl
  | cons a as ih => exact ih a.isItemEnd

theorem endsItem_of_getLast? (closed : Bool) (h : as.getLast? = some p) :
    endsItem closed as = p.isItemEnd := by
  obtain ⟨front, rfl⟩ := List.getLast?_eq_some_iff.1 h
  rw [endsItem_append]
  rfl

theorem not_markedWhere_nil : ¬ MarkedWhere P [] := by
  rintro ⟨before, q, after, heq, _, _⟩
  simp at heq

/-- A mark is at the front of some pieces or behind the first of them. -/
theorem markedWhere_cons :
    MarkedWhere P (p :: ps) ↔
      (p.isQuantifier = true ∧ ps.head? = some (.char '+') ∧ P [] p) ∨
        MarkedWhere (fun before q => P (p :: before) q) ps := by
  constructor
  · rintro ⟨before, q, after, heq, hq, hP⟩
    cases before with
    | nil =>
      cases heq
      exact .inl ⟨hq, rfl, hP⟩
    | cons b before =>
      cases heq
      exact .inr ⟨before, q, after, rfl, hq, hP⟩
  · rintro (⟨hp, hhead, hP⟩ | ⟨before, q, after, rfl, hq, hP⟩)
    · obtain ⟨after, rfl⟩ := List.head?_eq_some_iff.1 hhead
      exact ⟨[], p, after, rfl, hp, hP⟩
    · exact ⟨p :: before, q, after, rfl, hq, hP⟩

/-- A mark needs two pieces that can stand in one. -/
theorem MarkedWhere.two_le_countP (h : MarkedWhere P ps) : 2 ≤ ps.countP isQuantifier := by
  obtain ⟨before, q, after, rfl, hq, _⟩ := h
  have hplus : (Piece.char '+').isQuantifier = true := rfl
  rw [List.countP_append, List.countP_cons_of_pos hq, List.countP_cons_of_pos hplus]
  omega

theorem MarkedWhere.plus_mem (h : MarkedWhere P ps) : Piece.char '+' ∈ ps := by
  obtain ⟨before, q, after, rfl, _, _⟩ := h
  simp

/-! ### Pieces that are copied as a whole -/

/-- No mark in some pieces, and none that they could take part in. -/
structure Settled (as : List Piece) : Prop where
  unmarked : ¬ Possessive as
  first : ∃ p ∈ as.head?, p.isQuantifier = false
  last : ∃ p ∈ as.getLast?, p.isQuantifier = false

namespace Settled

theorem head?_append (h : Settled as) (ps : List Piece) :
    (as ++ ps).head? ≠ some (.char '+') := by
  obtain ⟨p, hp, hquantifier⟩ := h.first
  rw [List.head?_append, Option.mem_def.1 hp]
  rintro heq
  cases Option.some.inj heq
  cases hquantifier

/-- Settled pieces take no part in a mark. -/
theorem markedWhere_append (h : Settled as) (ps : List Piece) :
    MarkedWhere P (as ++ ps) ↔ MarkedWhere (fun before q => P (as ++ before) q) ps := by
  have hstep : ∀ as : List Piece, ¬ Possessive as → (∀ p ∈ as.getLast?, p.isQuantifier = false) →
      ∀ P, MarkedWhere P (as ++ ps) ↔ MarkedWhere (fun before q => P (as ++ before) q) ps := by
    intro as hunmarked hlast
    induction as with
    | nil => exact fun P => Iff.rfl
    | cons a as ih =>
      intro P
      rw [Possessive, markedWhere_cons, not_or] at hunmarked
      obtain ⟨hfront, hlater⟩ := hunmarked
      have hfirst : ¬ (a.isQuantifier = true ∧ (as ++ ps).head? = some (.char '+') ∧ P [] a) := by
        rintro ⟨ha, hhead, _⟩
        cases as with
        | nil =>
          rw [hlast a rfl] at ha
          cases ha
        | cons b as => exact hfront ⟨ha, hhead, trivial⟩
      have hlast' : ∀ p ∈ as.getLast?, p.isQuantifier = false := by
        intro p hp
        apply hlast p
        rw [List.getLast?_cons, Option.mem_def.1 hp]
        rfl
      rw [List.cons_append, markedWhere_cons, or_iff_right hfirst]
      exact ih hlater hlast' fun before q => P (a :: before) q
  obtain ⟨p, hp, hlast⟩ := h.last
  refine hstep as h.unmarked (fun q hq => ?_) P
  rw [Option.mem_def.1 hp] at hq
  cases hq
  exact hlast

end Settled

/-! ### Two bodies side by side -/

/-- What an item takes along, if nothing else can be taken: one star or plus sign, and a possessive
    mark behind it. -/
inductive Repeats : List Char → Prop where
  | none : Repeats []
  | one {c : Char} (hc : Lexeme.isRepeat c = true) : Repeats [c]
  | possessive {c : Char} (hc : Lexeme.isRepeat c = true) : Repeats [c, '+']

/-- The pieces of two bodies of which the second has been made of the first. -/
inductive Carried : List Piece → List Piece → Prop where
  | nil : Carried [] []
  | piece {p p' : Piece} {ps ps' : List Piece}
      (hsame : p = p' ∨ p.isQuantifier = false ∧ p'.isQuantifier = false)
      (hitem : p.isItemEnd = false) (h : Carried ps ps') : Carried (p :: ps) (p' :: ps')
  | settled {as bs ps ps' : List Piece} (has : Settled as) (hbs : Settled bs)
      (hitem : endsItem false as = false) (h : Carried ps ps') : Carried (as ++ ps) (bs ++ ps')
  /-- An item with the quantifiers that it takes along, of which it keeps the first at most. -/
  | item {p p' : Piece} {quantifiers kept : List Char} {ps ps' : List Piece}
      (hitem : p.isItemEnd = true) (hp' : p'.isQuantifier = false) (hrepeats : Repeats quantifiers)
      (hkept : kept = [] ∨ kept = quantifiers.take 1)
      (hnext : ∀ c, Lexeme.isRepeat c = true → ps.head? ≠ some (.char c)) (h : Carried ps ps') :
      Carried (p :: quantifiers.map .char ++ ps) (p' :: kept.map .char ++ ps')

theorem isQuantifier_of_isItemEnd (h : p.isItemEnd = true) : p.isQuantifier = false := by
  cases p with
  | char c =>
    have hc : c = ')' := by simpa [isItemEnd] using h
    rw [hc]
    rfl
  | bracket content => rfl
  | _ => cases h

theorem eq_char_of_isQuantifier (h : p.isQuantifier = true) :
    p = .char '?' ∨ ∃ c, Lexeme.isRepeat c = true ∧ p = .char c := by
  cases p with
  | char c =>
    simp only [isQuantifier, Bool.or_eq_true, beq_iff_eq] at h
    rcases h with (rfl | rfl) | rfl
    · exact .inr ⟨'*', rfl, rfl⟩
    · exact .inr ⟨'+', rfl, rfl⟩
    · exact .inl rfl
  | _ => cases h

theorem isQuantifier_of_isRepeat {c : Char} (h : Lexeme.isRepeat c = true) :
    (Piece.char c).isQuantifier = true ∧ (Piece.char c).isItemEnd = false ∧ c ≠ '?' := by
  simp only [Lexeme.isRepeat, Bool.or_eq_true, beq_iff_eq] at h
  rcases h with rfl | rfl <;> decide

namespace Carried

/-- A plus sign is in front of the second body exactly if one is in front of the first. -/
theorem head?_iff (h : Carried ps ps') :
    ps'.head? = some (.char '+') ↔ ps.head? = some (.char '+') := by
  have hne : ∀ {p : Piece} (ps : List Piece), p.isQuantifier = false →
      (p :: ps).head? ≠ some (.char '+') := by
    rintro p ps hp heq
    cases Option.some.inj heq
    cases hp
  cases h with
  | nil => exact Iff.rfl
  | piece hsame =>
    rcases hsame with rfl | ⟨hp, hp'⟩
    · exact Iff.rfl
    · exact iff_of_false (hne _ hp') (hne _ hp)
  | settled has hbs => exact iff_of_false (hbs.head?_append _) (has.head?_append _)
  | item hitem hp' => exact iff_of_false (hne _ hp') (hne _ (isQuantifier_of_isItemEnd hitem))

/-- What an item takes along holds no mark that it does not take along. -/
theorem exposed_item (hitem : p.isItemEnd = true) {quantifiers : List Char}
    (hrepeats : Repeats quantifiers)
    (hnext : ∀ c, Lexeme.isRepeat c = true → ps.head? ≠ some (.char c)) :
    Exposed closed (p :: quantifiers.map .char ++ ps) ↔ Exposed (quantifiers.isEmpty) ps := by
  have hplus : ps.head? ≠ some (.char '+') := hnext '+' rfl
  have hp : ¬ (p.isQuantifier = true) := by simp [isQuantifier_of_isItemEnd hitem]
  rw [Exposed, List.cons_append, markedWhere_cons, or_iff_right fun h => hp h.1]
  simp only [endsItem, hitem]
  cases hrepeats with
  | none => exact Iff.rfl
  | one hc =>
    obtain ⟨_, hopen, _⟩ := isQuantifier_of_isRepeat hc
    rw [List.map_cons, List.map_nil, List.singleton_append, markedWhere_cons,
      or_iff_right fun h => hplus h.2.1]
    simp only [endsItem, hopen]
    exact Iff.rfl
  | @possessive c hc =>
    obtain ⟨_, _, hquestion⟩ := isQuantifier_of_isRepeat hc
    have hfirst : ¬ (Piece.char c = .char '?' ∨ endsItem true [] = false) := by
      simp [hquestion, endsItem]
    rw [List.map_cons, List.map_cons, List.map_nil, List.cons_append, List.singleton_append,
      markedWhere_cons, or_iff_right fun h => hfirst h.2.2, markedWhere_cons,
      or_iff_right fun h => hplus h.2.1]
    exact Iff.rfl

theorem possessive_item (hp' : p'.isQuantifier = false) {quantifiers kept : List Char}
    (hrepeats : Repeats quantifiers) (hkept : kept = [] ∨ kept = quantifiers.take 1)
    (hnext : ps'.head? ≠ some (.char '+')) :
    Possessive (p' :: kept.map .char ++ ps') ↔ Possessive ps' := by
  have hone : kept = [] ∨ ∃ c, kept = [c] := by
    rcases hkept with rfl | rfl
    · exact .inl rfl
    · cases hrepeats with
      | none => exact .inl rfl
      | one => exact .inr ⟨_, rfl⟩
      | possessive => exact .inr ⟨_, rfl⟩
  rw [Possessive, List.cons_append, markedWhere_cons, or_iff_right fun h => by simp [hp'] at h]
  rcases hone with rfl | ⟨c, rfl⟩
  · exact Iff.rfl
  · rw [List.map_cons, List.map_nil, List.singleton_append, markedWhere_cons,
      or_iff_right fun h => hnext h.2.1]
    exact Iff.rfl

/-- **The possessive marks of the second body are those of the first that no item takes along.** -/
theorem possessive_iff (h : Carried ps ps')
    (hclosed : closed = true → ∀ c, Lexeme.isRepeat c = true → ps.head? ≠ some (.char c)) :
    Possessive ps' ↔ Exposed closed ps := by
  induction h generalizing closed with
  | nil => exact iff_of_false not_markedWhere_nil not_markedWhere_nil
  | @piece p p' ps ps' hsame hitem h ih =>
    have hlater : Possessive ps' ↔ Exposed false ps := ih nofun
    have hfront : (p'.isQuantifier = true ∧ ps'.head? = some (.char '+') ∧ True) ↔
        (p.isQuantifier = true ∧ ps.head? = some (.char '+') ∧
          (p = .char '?' ∨ endsItem closed [] = false)) := by
      rw [h.head?_iff]
      rcases hsame with rfl | ⟨hp, hp'⟩
      · refine and_congr_right fun hp => and_congr_right fun _ => iff_of_true trivial ?_
        rcases eq_char_of_isQuantifier hp with hquestion | ⟨c, hc, rfl⟩
        · exact .inl hquestion
        · -- an item that ends here would have taken the sign along
          right
          cases closed with
          | false => rfl
          | true => exact absurd rfl (hclosed rfl c hc)
      · simp [hp, hp']
    rw [Possessive, Exposed, markedWhere_cons, markedWhere_cons]
    refine or_congr hfront ?_
    simp only [endsItem, hitem]
    exact hlater
  | @settled as bs ps ps' has hbs hitem h ih =>
    have hlater : Possessive ps' ↔ Exposed false ps := ih nofun
    obtain ⟨p, hp, _⟩ := has.last
    have hends : endsItem closed as = false := by
      rw [endsItem_of_getLast? closed hp, ← endsItem_of_getLast? false hp, hitem]
    rw [Possessive, Exposed, has.markedWhere_append, hbs.markedWhere_append]
    simp only [endsItem_append, hends]
    exact hlater
  | @item p p' quantifiers kept ps ps' hitem hp' hrepeats hkept hnext h ih =>
    rw [exposed_item hitem hrepeats hnext,
      possessive_item hp' hrepeats hkept (mt h.head?_iff.1 (hnext '+' rfl))]
    exact ih fun _ => hnext

end Carried

/-- A change of pieces that neither makes a quantifier nor undoes one leaves the marks. -/
theorem possessive_map {f : Piece → Piece}
    (hf : ∀ p, f p = p ∨ p.isQuantifier = false ∧ (f p).isQuantifier = false)
    (ps : List Piece) : Possessive (ps.map f) ↔ Possessive ps := by
  have hhead : ∀ ps : List Piece,
      (ps.map f).head? = some (.char '+') ↔ ps.head? = some (.char '+') := by
    intro ps
    cases ps with
    | nil => exact Iff.rfl
    | cons p ps =>
      rcases hf p with hp | ⟨hp, hfp⟩
      · simp [hp]
      · refine iff_of_false (fun heq => ?_) (fun heq => ?_)
        · rw [Option.some.inj heq] at hfp
          cases hfp
        · rw [Option.some.inj heq] at hp
          cases hp
  induction ps with
  | nil => exact Iff.rfl
  | cons p ps ih =>
    rw [Possessive, Possessive, List.map_cons, markedWhere_cons, markedWhere_cons, hhead]
    refine or_congr (and_congr_left fun _ => ?_) ih
    rcases hf p with hp | ⟨hp, hfp⟩
    · rw [hp]
    · rw [hp, hfp]

end RegexText.Piece
