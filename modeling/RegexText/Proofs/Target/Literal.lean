/-
  RegexText/Proofs/Target/Literal.lean
  ====================================
  **Literal characters as the target reads them.**

  The target reads a literal without the flag for whole characters, and so it takes
  a character beyond the basic plane for two symbols, one for each code unit.  A
  quantifier behind such a character belongs to the second of them.  The subject is
  read in code units as well, and a match may begin between the two of a pair.

  Where no quantifier stands behind a character of two units, none of this can be
  seen (`finds_inUnits`).  From where a character begins, both readings take off
  the same.  Between two units there is no character, and what matches there matches
  at the end of the subject too, as it takes nothing off.
-/
import RegexText.Proofs.Regular.Assertions
import RegexText.Proofs.Regular.Literal
import RegexText.Proofs.Target.Units

namespace RegexText.Target

open Regular

variable {c : Char} {x z : List Nat}

/-! ### Expressions in code units -/

/-- The units of a literal, one behind the other.  The first has its backslash, and the last its
    quantifiers. -/
def spread (escaped : Bool) (times : Option Times) (q : Option Quantifier) :
    List Nat → Literals Nat → Literals Nat
  | [], next => next
  | [u], next => .unit ⟨u, escaped, times⟩ q next
  | u :: us, next => .unit ⟨u, escaped, none⟩ none (spread false times q us next)

/-- An expression as the target reads it. -/
def inUnits : Literals Char → Literals Nat
  | .done => .done
  | .unit l q next => spread l.escaped l.times q (unitsOf l.symbol) (inUnits next)
  | .group g body q next => .group g (inUnits body) q (inUnits next)
  | .bar next => .bar (inUnits next)

/-- The text of an expression in code units. -/
def unitText : Literals Nat → List Nat
  | .done => []
  | .unit l q next =>
    units (if l.escaped then ['\\'] else []) ++ l.symbol :: units l.timesText ++
      units (Quantifier.text q) ++ unitText next
  | .group g body q next =>
    units (Marks.opening g) ++ unitText body ++ units (')' :: Quantifier.text q) ++ unitText next
  | .bar next => units ['|'] ++ unitText next

/-- Reading in units neither adds to a text nor loses any of it. -/
theorem unitText_inUnits (r : Literals Char) : unitText (inUnits r) = units r.text := by
  induction r with
  | done => rfl
  | unit l q next ih =>
    have hliteral : unitText (inUnits (.unit l q next)) =
        units (if l.escaped then ['\\'] else []) ++ unitsOf l.symbol ++ units l.timesText ++
          units (Quantifier.text q) ++ unitText (inUnits next) := by
      rcases unitsOf_cases l.symbol with ⟨hone, -⟩ | ⟨high, low, htwo, -⟩
      · simp [inUnits, hone, spread, unitText, Literal.timesText]
      · simp [inUnits, htwo, spread, unitText, Literal.timesText, units, Quantifier.text]
    have htext : Regex.text (.unit l q next) =
        (if l.escaped then ['\\'] else []) ++ l.symbol :: l.timesText ++ Quantifier.text q ++
          next.text := rfl
    rw [hliteral, htext, ih]
    simp [units]
  | group g body q next ihb ihn =>
    rw [inUnits, unitText, Regex.text, ihb, ihn]
    simp [units]
  | bar next ih =>
    rw [inUnits, unitText, ih]
    rfl

/-! ### The same matches in units -/

/-- The texts of a language in code units. -/
def unitLanguage (l : Language Char) : Language Nat := {x | ∃ w ∈ l, x = units w}

/-- Is a literal in one piece in code units?  It has one unit, or no quantifier. -/
def IsWhole (l : Literal Char) : Prop := l.times = none ∨ l.symbol.toNat < 0x10000

instance (l : Literal Char) : Decidable (IsWhole l) := inferInstanceAs (Decidable (_ ∨ _))

/-- The matches of an expression and its matches in units: from a place in front of a character
    they are the same, and inside a pair they are those at the end of a text. -/
structure Renders (l : Leaves Char) (m : Leaves Nat) : Prop where
  front : ∀ cs z, m (units cs) z ↔ ∃ ds, z = units ds ∧ l cs ds
  stop : ∀ ds, l [] ds → ds = []
  inside : ∀ x z, InsidePair x → (m x z ↔ z = x ∧ l [] [])

namespace Renders

variable {l l' : Leaves Char} {m m' : Leaves Nat}

theorem eq : Renders Eq Eq where
  front cs z := by
    constructor
    · rintro rfl
      exact ⟨cs, rfl, rfl⟩
    · rintro ⟨ds, rfl, rfl⟩
      rfl
  stop ds h := h.symm
  inside x z _ := by simp [eq_comm]

theorem none : Renders (fun _ _ => False) fun _ _ => False where
  front cs z := by simp
  stop ds h := h.elim
  inside x z _ := by simp

theorem or (h : Renders l m) (h' : Renders l' m') :
    Renders (fun x y => l x y ∨ l' x y) fun x y => m x y ∨ m' x y where
  front cs z := by
    simp only [h.front, h'.front]
    rw [← exists_or]
    simp only [and_or_left]
  stop ds hds := hds.elim (h.stop ds) (h'.stop ds)
  inside x z hx := by
    rw [h.inside x z hx, h'.inside x z hx, and_or_left]

theorem comp (h : Renders l m) (h' : Renders l' m') :
    Renders (Relation.Comp l l') (Relation.Comp m m') where
  front cs z := by
    constructor
    · rintro ⟨y, hfirst, hsecond⟩
      rcases (h.front cs y).1 hfirst with ⟨ds, rfl, hds⟩
      rcases (h'.front ds z).1 hsecond with ⟨es, hz, hes⟩
      exact ⟨es, hz, ds, hds, hes⟩
    · rintro ⟨es, hz, ds, hds, hes⟩
      exact ⟨units ds, (h.front cs _).2 ⟨ds, rfl, hds⟩, (h'.front ds z).2 ⟨es, hz, hes⟩⟩
  stop es := by
    rintro ⟨ds, hds, hes⟩
    rw [h.stop ds hds] at hes
    exact h'.stop es hes
  inside x z hx := by
    constructor
    · rintro ⟨y, hfirst, hsecond⟩
      rcases (h.inside x y hx).1 hfirst with ⟨rfl, hl⟩
      rcases (h'.inside y z hx).1 hsecond with ⟨hz, hl'⟩
      exact ⟨hz, [], hl, hl'⟩
    · rintro ⟨rfl, ds, hl, hl'⟩
      have hnil := h.stop ds hl
      rw [hnil] at hl hl'
      exact ⟨z, (h.inside z z hx).2 ⟨rfl, hl⟩, (h'.inside z z hx).2 ⟨rfl, hl'⟩⟩

/-- Assertions hold in front of the same characters, and inside a pair if at the end. -/
theorem ahead (h : Renders l m) (negated : Bool) :
    Renders ((Look.ahead negated).enclosing l) ((Look.ahead negated).enclosing m) where
  front cs z := by
    have hbody : (∃ z, m (units cs) z) ↔ ∃ ds, l cs ds := by
      constructor
      · rintro ⟨z, hz⟩
        rcases (h.front cs z).1 hz with ⟨ds, -, hds⟩
        exact ⟨ds, hds⟩
      · rintro ⟨ds, hds⟩
        exact ⟨units ds, (h.front cs _).2 ⟨ds, rfl, hds⟩⟩
    simp only [Look.enclosing, hbody]
    constructor
    · rintro ⟨rfl, hholds⟩
      exact ⟨cs, rfl, rfl, hholds⟩
    · rintro ⟨ds, rfl, rfl, hholds⟩
      exact ⟨rfl, hholds⟩
  stop ds hds := hds.1.symm
  inside x z hx := by
    have hbody : (∃ z, m x z) ↔ ∃ ds, l [] ds := by
      constructor
      · rintro ⟨z, hz⟩
        exact ⟨[], ((h.inside x z hx).1 hz).2⟩
      · rintro ⟨ds, hds⟩
        rw [h.stop ds hds] at hds
        exact ⟨x, (h.inside x x hx).2 ⟨rfl, hds⟩⟩
    simp only [Look.enclosing, hbody, true_and]
    exact and_congr_left fun _ => eq_comm

/-- A language takes off in units what it takes off in characters. -/
theorem takesOff (language : Language Char) :
    Renders (Regular.takesOff language) (Regular.takesOff (unitLanguage language)) where
  front cs z := by
    constructor
    · rintro ⟨_, ⟨w, hw, rfl⟩, h⟩
      rcases units_eq_units_append_iff.1 h with ⟨ds, rfl, rfl⟩
      exact ⟨ds, rfl, w, hw, rfl⟩
    · rintro ⟨ds, rfl, w, hw, rfl⟩
      exact ⟨units w, ⟨w, hw, rfl⟩, units_append w ds⟩
  stop ds := by
    rintro ⟨w, -, h⟩
    exact (List.append_eq_nil_iff.1 h.symm).2
  inside x z hx := by
    constructor
    · rintro ⟨_, ⟨w, hw, rfl⟩, h⟩
      cases w with
      | nil => exact ⟨h.symm, [], hw, rfl⟩
      | cons c w =>
        have hfront : x = unitsOf c ++ (units w ++ z) := h.trans (List.append_assoc _ _ _)
        exact absurd hfront hx.ne_unitsOf_append
    · rintro ⟨rfl, w, hw, h⟩
      rw [(List.append_eq_nil_iff.1 h.symm).1] at hw
      exact ⟨[], ⟨[], hw, rfl⟩, rfl⟩

end Renders

theorem units_replicate_of_lt (hplane : c.toNat < 0x10000) (n : Nat) :
    units (List.replicate n c) = List.replicate n c.toNat := by
  induction n with
  | zero => rfl
  | succ n ih =>
    rw [List.replicate_succ, List.replicate_succ, ← ih, units, List.flatMap_cons, unitsOf,
      if_pos hplane]
    rfl

/-- A literal in one piece takes off the units of what it matches. -/
theorem leavesOf_spread {l : Literal Char} (hl : IsWhole l) (next : Literals Nat) :
    leavesOf Literal.language (spread l.escaped l.times none (unitsOf l.symbol) next) =
      (Relation.Comp (takesOff (unitLanguage l.language)) (leavesOf Literal.language next).1,
        (leavesOf Literal.language next).2) := by
  rcases l with ⟨c, escaped, times⟩
  rcases unitsOf_cases c with ⟨hone, -, hplane⟩ | ⟨high, low, htwo, hsurrogates⟩
  · have hlanguage : Literal.language ⟨c.toNat, escaped, times⟩ =
        unitLanguage (Literal.language ⟨c, escaped, times⟩) := by
      ext w
      constructor
      · rintro ⟨n, hn, rfl⟩
        exact ⟨_, ⟨n, hn, rfl⟩, (units_replicate_of_lt hplane n).symm⟩
      · rintro ⟨_, ⟨n, hn, rfl⟩, rfl⟩
        exact ⟨n, hn, units_replicate_of_lt hplane n⟩
    simp only [hone, spread, leavesOf, repeatedly, hlanguage]
  · have htimes : times = none := hl.resolve_right fun hplane => by
      have hbound : c.toNat < 0x10000 := hplane
      omega
    have hlanguage : unitLanguage (Literal.language ⟨c, escaped, none⟩) =
        Literal.language ⟨high, escaped, none⟩ * Literal.language ⟨low, false, none⟩ := by
      ext w
      constructor
      · rintro ⟨_, hw, rfl⟩
        rw [Literal.mem_language_once.1 hw, units, List.flatMap_singleton, htwo]
        exact Language.append_mem_mul (Literal.mem_language_once.2 rfl)
          (Literal.mem_language_once.2 rfl)
      · intro hw
        rcases Language.mem_mul.1 hw with ⟨a, ha, b, hb, rfl⟩
        rw [Literal.mem_language_once.1 ha, Literal.mem_language_once.1 hb]
        exact ⟨[c], Literal.mem_language_once.2 rfl, by simp [units, htwo]⟩
    rw [htimes]
    simp only [htwo, spread, leavesOf, repeatedly, hlanguage, takesOff_mul, Relation.comp_assoc]

/-- Do all literals of an expression stay in one piece, and is nothing else quantified? -/
def InPieces (r : Literals Char) : Prop :=
  r.All (fun l q => IsWhole l ∧ q = none) fun g q => (∃ negated, g = .ahead negated) ∧ q = none

/-- **An expression in pieces matches in units what it matches in characters.** -/
theorem renders_inUnits {r : Literals Char} (hr : InPieces r) :
    Renders (leavesOf Literal.language r).1 (leavesOf Literal.language (inUnits r)).1 ∧
      Renders (leavesOf Literal.language r).2 (leavesOf Literal.language (inUnits r)).2 := by
  induction r with
  | done => exact ⟨.eq, .none⟩
  | unit l q next ih =>
    rcases hr with ⟨⟨hwhole, rfl⟩, hnext⟩
    rw [inUnits, leavesOf_spread hwhole]
    exact ⟨(Renders.takesOff l.language).comp (ih hnext).1, (ih hnext).2⟩
  | group g body q next ihb ihn =>
    rcases hr with ⟨⟨⟨negated, rfl⟩, rfl⟩, hbody, hnext⟩
    have hahead := ((ihb hbody).1.or (ihb hbody).2).ahead negated
    exact ⟨hahead.comp (ihn hnext).1, (ihn hnext).2⟩
  | bar next ih => exact ⟨.eq, (ih hr).1.or (ih hr).2⟩

/-- **In units an expression in pieces is found in the same subjects.** -/
theorem finds_inUnits {r : Literals Char} (hr : InPieces r) (subject : List Char) :
    Finds Literal.language (inUnits r) (units subject) ↔ Finds Literal.language r subject := by
  rcases renders_inUnits hr with ⟨hfirst, hothers⟩
  have hmatch := hfirst.or hothers
  constructor
  · rintro ⟨front, x, z, hsubject, hfound⟩
    rcases units_eq_append hsubject with ⟨as, bs, rfl, rfl⟩ | hinside
    · rcases (hmatch.front bs z).1 hfound with ⟨ds, -, hds⟩
      exact ⟨as, bs, ds, rfl, hds⟩
    · -- what matches inside a pair takes nothing off, so it matches at the end
      exact ⟨subject, [], [], (List.append_nil subject).symm,
        ((hmatch.inside x z hinside).1 hfound).2⟩
  · rintro ⟨front, cs, ds, rfl, hfound⟩
    exact ⟨units front, units cs, units ds, units_append front cs,
      (hmatch.front cs _).2 ⟨ds, rfl, hfound⟩⟩

end RegexText.Target
