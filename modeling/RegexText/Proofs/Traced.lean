/-
  RegexText/Proofs/Traced.lean
  ============================
  **Outcomes of traced computations.**

  A composite computation succeeds exactly when its parts do, one after the other.
  A computation may also do what another one does except that it sometimes gives
  up, as one with a bound does; then so does whatever is composed of such parts.
  Likewise the failures of a composite computation are those of its parts, and so
  are its events.

  Outcomes can be compared, so that what a computation does with a given input can
  be evaluated.
-/
import RegexText.Traced

namespace RegexText.Traced

variable {α β : Type}

instance decidableEqOutcome {ε : Type} [DecidableEq ε] [DecidableEq α] :
    DecidableEq (Except ε α)
  | .ok a, .ok b => decidable_of_iff (a = b) (by simp)
  | .error a, .error b => decidable_of_iff (a = b) (by simp)
  | .ok _, .error _ => isFalse (by simp)
  | .error _, .ok _ => isFalse (by simp)

theorem outcome_bind_eq_ok_iff {x : Traced α} {f : α → Traced β} {b : β} :
    (x >>= f).outcome = .ok b ↔ ∃ a, x.outcome = .ok a ∧ (f a).outcome = .ok b := by
  rw [outcome_bind]
  cases x.outcome with
  | error e => simp [bind, Except.bind]
  | ok a => simp [bind, Except.bind]

theorem outcome_mapM_nil {f : α → Traced β} {bs : List β} :
    ([].mapM f).outcome = .ok bs ↔ bs = [] := by
  simp [eq_comm]

theorem outcome_mapM_cons {f : α → Traced β} {a : α} {as : List α} {bs : List β} :
    ((a :: as).mapM f).outcome = .ok bs ↔
      ∃ b later, (f a).outcome = .ok b ∧ (as.mapM f).outcome = .ok later ∧ bs = b :: later := by
  simp only [List.mapM_cons, outcome_bind_eq_ok_iff, outcome_pure, Except.ok.injEq]
  constructor
  · rintro ⟨b, hb, later, hlater, rfl⟩
    exact ⟨b, later, hb, hlater, rfl⟩
  · rintro ⟨b, later, hb, hlater, rfl⟩
    exact ⟨b, hb, later, hlater, rfl⟩

theorem length_of_outcome_mapM {f : α → Traced β} {as : List α} {bs : List β}
    (h : (as.mapM f).outcome = .ok bs) : bs.length = as.length := by
  induction as generalizing bs with
  | nil =>
    rw [outcome_mapM_nil.1 h]
    rfl
  | cons a as ih =>
    obtain ⟨b, later, _, hlater, rfl⟩ := outcome_mapM_cons.1 h
    rw [List.length_cons, List.length_cons, ih hlater]

theorem exists_of_mem_outcome_mapM {f : α → Traced β} {as : List α} {bs : List β}
    (h : (as.mapM f).outcome = .ok bs) {b : β} (hb : b ∈ bs) :
    ∃ a ∈ as, (f a).outcome = .ok b := by
  induction as generalizing bs with
  | nil =>
    rw [outcome_mapM_nil.1 h] at hb
    cases hb
  | cons a as ih =>
    obtain ⟨first, later, hfirst, hlater, rfl⟩ := outcome_mapM_cons.1 h
    rcases List.mem_cons.1 hb with rfl | hmem
    · exact ⟨a, List.mem_cons_self .., hfirst⟩
    · obtain ⟨other, hother, houtcome⟩ := ih hlater hmem
      exact ⟨other, List.mem_cons_of_mem _ hother, houtcome⟩

/-- What holds between the outcomes of every two parts holds between all results. -/
theorem pairwise_outcome_mapM {f : α → Traced β} {R : α → α → Prop} {S : β → β → Prop}
    {as : List α} {bs : List β} (has : as.Pairwise R)
    (hstep : ∀ a ∈ as, ∀ a' ∈ as, R a a' → ∀ b b', (f a).outcome = .ok b →
      (f a').outcome = .ok b' → S b b')
    (h : (as.mapM f).outcome = .ok bs) : bs.Pairwise S := by
  induction as generalizing bs with
  | nil =>
    rw [outcome_mapM_nil.1 h]
    exact .nil
  | cons a as ih =>
    obtain ⟨b, later, hb, hlater, rfl⟩ := outcome_mapM_cons.1 h
    obtain ⟨ha, has⟩ := List.pairwise_cons.1 has
    refine List.pairwise_cons.2 ⟨?_, ih has ?_ hlater⟩
    · intro b' hb'
      obtain ⟨a', ha', houtcome⟩ := exists_of_mem_outcome_mapM hlater hb'
      exact hstep a (List.mem_cons_self ..) a' (List.mem_cons_of_mem _ ha') (ha a' ha') b b' hb
        houtcome
    · intro c hc d hd
      exact hstep c (List.mem_cons_of_mem _ hc) d (List.mem_cons_of_mem _ hd)

/-! ### Success -/

def Succeeds (x : Traced α) : Prop := ∃ a, x.outcome = .ok a

instance (x : Traced α) : Decidable x.Succeeds :=
  match h : x.outcome with
  | .ok a => isTrue ⟨a, h⟩
  | .error e => isFalse fun ⟨a, ha⟩ => by
    rw [h] at ha
    cases ha

theorem succeeds_pure (a : α) : (pure a : Traced α).Succeeds := ⟨a, rfl⟩

theorem succeeds_bind_iff {x : Traced α} {f : α → Traced β} :
    (x >>= f).Succeeds ↔ ∃ a, x.outcome = .ok a ∧ (f a).Succeeds := by
  constructor
  · rintro ⟨b, hb⟩
    obtain ⟨a, ha, hf⟩ := outcome_bind_eq_ok_iff.1 hb
    exact ⟨a, ha, b, hf⟩
  · rintro ⟨a, ha, b, hf⟩
    exact ⟨b, outcome_bind_eq_ok_iff.2 ⟨a, ha, hf⟩⟩

theorem succeeds_mapM {f : α → Traced β} {as : List α} (h : ∀ a ∈ as, (f a).Succeeds) :
    (as.mapM f).Succeeds := by
  induction as with
  | nil => exact ⟨[], outcome_mapM_nil.2 rfl⟩
  | cons a as ih =>
    obtain ⟨⟨b, hb⟩, has⟩ := List.forall_mem_cons.1 h
    obtain ⟨later, hlater⟩ := ih has
    exact ⟨b :: later, outcome_mapM_cons.2 ⟨b, later, hb, hlater, rfl⟩⟩

/-! ### Failing -/

/-- Is every failure of a computation one of a certain kind? -/
def FailsOnly (P : PatternError → Prop) (x : Traced α) : Prop :=
  ∀ e, x.outcome = .error e → P e

namespace FailsOnly

variable {P : PatternError → Prop}

theorem pure (a : α) : FailsOnly P (Pure.pure a) := by
  intro e he
  cases he

theorem note (event : Event) : FailsOnly P (Traced.note event) := by
  intro e he
  cases he

theorem fail {e : PatternError} (h : P e) : FailsOnly P (Traced.fail e : Traced α) := by
  intro e he
  cases he
  exact h

theorem of_succeeds {x : Traced α} (h : x.Succeeds) : FailsOnly P x := by
  obtain ⟨a, ha⟩ := h
  intro e he
  rw [ha] at he
  cases he

theorem bind {x : Traced α} {f : α → Traced β} (hx : FailsOnly P x)
    (hf : ∀ a, FailsOnly P (f a)) : FailsOnly P (x >>= f) := by
  intro e he
  rw [outcome_bind] at he
  cases hout : x.outcome with
  | error failure =>
    rw [hout] at he
    cases he
    exact hx _ hout
  | ok a =>
    rw [hout] at he
    exact hf a e he

end FailsOnly

/-! ### Noting -/

/-- Is every event on the way one of a certain kind? -/
def NotesOnly (P : Event → Prop) (x : Traced α) : Prop := ∀ event ∈ x.events, P event

namespace NotesOnly

variable {P : Event → Prop}

theorem pure (a : α) : NotesOnly P (Pure.pure a) := by
  intro event hmem
  cases hmem

theorem fail (e : PatternError) : NotesOnly P (Traced.fail e : Traced α) := by
  intro event hmem
  cases hmem

theorem note {event : Event} (h : P event) : NotesOnly P (Traced.note event) := by
  intro other hmem
  rw [List.mem_singleton.1 hmem]
  exact h

theorem bind {x : Traced α} {f : α → Traced β} (hx : NotesOnly P x)
    (hf : ∀ a, NotesOnly P (f a)) : NotesOnly P (x >>= f) := by
  intro event hmem
  cases hout : x.outcome with
  | error e =>
    have hevents : (x >>= f).events = x.events := by
      simp only [Bind.bind, andThen, hout]
    rw [hevents] at hmem
    exact hx event hmem
  | ok a =>
    have hevents : (x >>= f).events = x.events ++ (f a).events := by
      simp only [Bind.bind, andThen, hout]
    rw [hevents] at hmem
    rcases List.mem_append.1 hmem with hfirst | hlater
    · exact hx event hfirst
    · exact hf a event hlater

end NotesOnly

/-! ### Giving up -/

/-- Does the first computation come to the same as the second one, unless it fails with
    `e`? -/
def GivesUp (e : PatternError) (x y : Traced α) : Prop :=
  x.outcome = .error e ∨ x.outcome = y.outcome

namespace GivesUp

variable {e : PatternError}

theorem refl (x : Traced α) : GivesUp e x x := .inr rfl

theorem bind {x y : Traced α} {f g : α → Traced β} (h : GivesUp e x y)
    (hf : ∀ a, GivesUp e (f a) (g a)) : GivesUp e (x >>= f) (y >>= g) := by
  unfold GivesUp
  rw [outcome_bind, outcome_bind]
  rcases h with hx | hx
  · rw [hx]
    exact .inl rfl
  · rw [hx]
    cases y.outcome with
    | error failure => exact .inr rfl
    | ok a => exact hf a

theorem mapM {f g : α → Traced β} (h : ∀ a, GivesUp e (f a) (g a)) (as : List α) :
    GivesUp e (as.mapM f) (as.mapM g) := by
  induction as with
  | nil => exact refl _
  | cons a as ih =>
    rw [List.mapM_cons, List.mapM_cons]
    exact bind (h a) fun b => bind ih fun later => refl _

end GivesUp

end RegexText.Traced
