/-
  RegexText/Proofs/Text/Unescaped.lean
  ====================================
  **Texts without certain unescaped characters.**

  Every scanner of the library reads a text as backslash pairs and single
  characters, and each of them stops at characters of its own.  `FreeOf` says
  that a text holds no unescaped character of some kind and does not end inside
  a pair.  Such a text can be put in front of any other without changing where
  the pairs of either lie.

  `HasUnescaped` says of any text that it holds such a character.  A text is
  free of it exactly if it holds none and can be read to its end (`freeOf_iff`).
-/
import RegexText.Text.Escape

namespace RegexText.Text

/-- What holds of all members of a list can be evaluated, member by member. -/
theorem forall_mem_of_all {α : Type} {p : α → Prop} [DecidablePred p] {as : List α}
    (h : (as.all fun a => decide (p a)) = true) : ∀ a ∈ as, p a := by
  simpa using h

/-- A character with which neither a lone backslash nor a pair begins is no backslash. -/
theorem ne_backslash_of_not_pair {c : Char} {cs : List Char} (hlone : c = '\\' → cs = [] → False)
    (hpair : ∀ d ds, c = '\\' → cs = d :: ds → False) : c ≠ '\\' := by
  rintro rfl
  cases cs with
  | nil => exact hlone rfl rfl
  | cons d ds => exact hpair d ds rfl rfl

/-- What does not hold a character lies in front of the first one of its kind. -/
theorem exists_append_of_forall_ne {as bs cs ds : List Char} {d : Char} (has : ∀ a ∈ as, a ≠ d)
    (h : as ++ bs = cs ++ d :: ds) : ∃ between, cs = as ++ between := by
  rcases List.append_eq_append_iff.1 h with ⟨between, hcs, _⟩ | ⟨between, hcs, hds⟩
  · exact ⟨between, hcs⟩
  · cases between with
    | nil => exact ⟨[], by simpa using hcs.symm⟩
    | cons e es =>
      cases hds
      exact absurd rfl (has d (by simp [hcs]))

/-- A run of characters is taken as a whole if what comes behind it does not prolong it. -/
theorem takeWhile_append_of_stop {p : Char → Bool} {as bs : List Char}
    (has : ∀ a ∈ as, p a = true) (hbs : ∀ b ∈ bs.head?, p b = false) :
    (as ++ bs).takeWhile p = as ∧ (as ++ bs).dropWhile p = bs := by
  rw [List.takeWhile_append_of_pos has, List.dropWhile_append_of_pos has]
  cases bs with
  | nil => simp
  | cons b bs => simp [hbs b rfl]

/-- Nothing prolongs a run that was taken as a whole. -/
theorem stop_of_dropWhile (p : Char → Bool) (cs : List Char) :
    ∀ c ∈ (cs.dropWhile p).head?, p c = false := by
  intro c hc
  have hstop := List.head?_dropWhile_not p cs
  rw [Option.mem_def.1 hc] at hstop
  simpa using hstop

/-- A text of complete pairs and of single characters that are not `bad`. -/
inductive FreeOf (bad : Char → Prop) : List Char → Prop where
  | nil : FreeOf bad []
  | pair (c : Char) {cs : List Char} (hcs : FreeOf bad cs) : FreeOf bad ('\\' :: c :: cs)
  | single {c : Char} {cs : List Char} (hc : c ≠ '\\') (hbad : ¬ bad c) (hcs : FreeOf bad cs) :
      FreeOf bad (c :: cs)

namespace FreeOf

variable {bad worse : Char → Prop}

theorem append {as bs : List Char} (ha : FreeOf bad as) (hb : FreeOf bad bs) :
    FreeOf bad (as ++ bs) := by
  induction ha with
  | nil => exact hb
  | pair c _ ih => exact .pair c ih
  | single hc hbad _ ih => exact .single hc hbad ih

theorem mono (hworse : ∀ c, bad c → worse c) {cs : List Char} (h : FreeOf worse cs) :
    FreeOf bad cs := by
  induction h with
  | nil => exact .nil
  | pair c _ ih => exact .pair c ih
  | single hc hno _ ih => exact .single hc (fun hbad => hno (hworse _ hbad)) ih

theorem not_head {c : Char} {cs : List Char} (h : FreeOf bad (c :: cs)) (hbad : ¬ bad '\\') :
    ¬ bad c := by
  cases h with
  | pair => exact hbad
  | single _ hno _ => exact hno

/-- A text without backslashes is free of what it does not hold. -/
theorem of_forall {cs : List Char} (h : ∀ c ∈ cs, c ≠ '\\' ∧ ¬ bad c) : FreeOf bad cs := by
  induction cs with
  | nil => exact .nil
  | cons c cs ih =>
    obtain ⟨hc, hbad⟩ := h c (List.mem_cons_self ..)
    exact .single hc hbad (ih fun d hd => h d (List.mem_cons_of_mem _ hd))

/-- A text that is free of something does not hold it, unless behind a backslash. -/
theorem forall_not {cs : List Char} (h : FreeOf bad cs) (hplain : ∀ c ∈ cs, c ≠ '\\') :
    ∀ c ∈ cs, ¬ bad c := by
  induction h with
  | nil => simp
  | pair c _ _ => exact absurd rfl (hplain '\\' (List.mem_cons_self ..))
  | single _ hbad _ ih =>
    exact List.forall_mem_cons.2 ⟨hbad, ih (List.forall_mem_cons.1 hplain).2⟩

/-- A text is free of what it does not hold. -/
theorem of_not_mem {stop : Char} {cs : List Char} (h : FreeOf bad cs) (hstop : stop ∉ cs) :
    FreeOf (· = stop) cs := by
  induction h with
  | nil => exact .nil
  | pair c _ ih => exact .pair c (ih fun hmem => hstop (by simp [hmem]))
  | single hc _ _ ih =>
    refine .single hc ?_ (ih fun hmem => hstop (by simp [hmem]))
    rintro rfl
    exact hstop (List.mem_cons_self ..)

end FreeOf

/-- A text that does not end inside a pair. -/
abbrev Complete : List Char → Prop := FreeOf fun _ => False

theorem FreeOf.complete {bad : Char → Prop} {cs : List Char} (h : FreeOf bad cs) :
    Complete cs :=
  h.mono fun _ => False.elim

theorem complete_of_forall {cs : List Char} (h : ∀ c ∈ cs, c ≠ '\\') : Complete cs :=
  FreeOf.of_forall fun c hc => ⟨h c hc, id⟩

theorem complete_of_all {cs : List Char} (h : (cs.all fun c => decide (c ≠ '\\')) = true) :
    Complete cs :=
  complete_of_forall (forall_mem_of_all h)

namespace FreeOf

variable {bad other : Char → Prop}

theorem of_pair {c : Char} {cs : List Char} (h : FreeOf bad ('\\' :: c :: cs)) :
    FreeOf bad cs := by
  rcases h with _ | ⟨_, hcs⟩ | ⟨hc, _, _⟩
  · exact hcs
  · exact absurd rfl hc

theorem of_single {c : Char} {cs : List Char} (hc : c ≠ '\\') (h : FreeOf bad (c :: cs)) :
    ¬ bad c ∧ FreeOf bad cs := by
  rcases h with _ | _ | ⟨_, hbad, hcs⟩
  · exact absurd rfl hc
  · exact ⟨hbad, hcs⟩

/-- A text that is cut between two pairs is cut into two texts of its kind. -/
theorem of_append {as bs : List Char} (has : Complete as) (h : FreeOf bad (as ++ bs)) :
    FreeOf bad as ∧ FreeOf bad bs := by
  induction has with
  | nil => exact ⟨.nil, h⟩
  | pair c _ ih =>
    obtain ⟨has, hbs⟩ := ih h.of_pair
    exact ⟨.pair c has, hbs⟩
  | single hc _ _ ih =>
    obtain ⟨hbad, hrest⟩ := h.of_single hc
    obtain ⟨has, hbs⟩ := ih hrest
    exact ⟨.single hc hbad has, hbs⟩

theorem or {cs : List Char} (h : FreeOf bad cs) (hother : FreeOf other cs) :
    FreeOf (fun c => bad c ∨ other c) cs := by
  induction h with
  | nil => exact .nil
  | pair c _ ih => exact .pair c (ih hother.of_pair)
  | single hc hbad _ ih =>
    obtain ⟨hno, hrest⟩ := hother.of_single hc
    exact .single hc (not_or.2 ⟨hbad, hno⟩) (ih hrest)

end FreeOf

theorem protect_single {target c : Char} (hc : c ≠ '\\') (cs : List Char) :
    protect target (c :: cs) =
      (if c = target then ['\\', c] else [c]) ++ protect target cs := by
  rw [protect.eq_def]
  split
  · simp_all
  · simp_all
  · simp_all
  · rename_i heq
    cases heq
    split <;> rfl

/-- Protection does not reach across the end of a complete text. -/
theorem protect_append {target : Char} {cs : List Char} (h : Complete cs) (rest : List Char) :
    protect target (cs ++ rest) = protect target cs ++ protect target rest := by
  induction h with
  | nil => rfl
  | pair c _ ih => simp only [List.cons_append, protect, ih]
  | single hc _ _ ih =>
    rw [List.cons_append, protect_single hc, protect_single hc, ih, List.append_assoc]

/-- A text without the character has nothing to protect. -/
theorem protect_of_freeOf {target : Char} {cs : List Char} (h : FreeOf (· = target) cs) :
    protect target cs = cs := by
  induction h with
  | nil => rfl
  | pair c _ ih => rw [protect, ih]
  | single hc hne _ ih =>
    rw [protect_single hc, if_neg hne, ih]
    rfl

/-- Protection leaves no unescaped character of its kind, and adds none of another kind. -/
theorem FreeOf.protect {bad : Char → Prop} {target : Char} {cs : List Char} (h : FreeOf bad cs) :
    FreeOf (fun c => bad c ∨ c = target) (protect target cs) := by
  induction h with
  | nil => exact .nil
  | pair c _ ih => exact .pair c ih
  | @single c _ hc hbad _ ih =>
    rw [protect_single hc]
    by_cases htarget : c = target
    · rw [if_pos htarget]
      exact .pair c ih
    · rw [if_neg htarget]
      exact .single hc (not_or.2 ⟨hbad, htarget⟩) ih

theorem freeOf_protect {target : Char} {cs : List Char} (h : Complete cs) :
    FreeOf (· = target) (protect target cs) :=
  h.protect.mono fun _ => Or.inr

theorem splitUnescaped_single {stop c : Char} (hc : c ≠ '\\') (hne : c ≠ stop)
    (cs : List Char) :
    splitUnescaped stop (c :: cs) =
      (splitUnescaped stop cs).map fun (before, after) => (c :: before, after) := by
  rw [splitUnescaped.eq_def]
  split
  · simp_all
  · simp_all
  · simp_all
  · rename_i heq
    cases heq
    rw [if_neg hne]

theorem splitUnescaped_stop {stop : Char} (hstop : stop ≠ '\\') (cs : List Char) :
    splitUnescaped stop (stop :: cs) = some ([], cs) := by
  rw [splitUnescaped.eq_def]
  split <;> simp_all

/-- What stands before the first unescaped closing character is free of it. -/
theorem freeOf_of_splitUnescaped {stop : Char} {cs before after : List Char}
    (h : splitUnescaped stop cs = some (before, after)) : FreeOf (· = stop) before := by
  fun_induction splitUnescaped stop cs generalizing before after with
  | case1 => cases h
  | case2 => cases h
  | case3 c cs ih =>
    obtain ⟨⟨b, a⟩, hs, he⟩ := Option.map_eq_some_iff.1 h
    cases he
    exact .pair c (ih hs)
  | case4 cs =>
    cases h
    exact .nil
  | case5 c cs hlone hpair hne ih =>
    obtain ⟨⟨b, a⟩, hs, he⟩ := Option.map_eq_some_iff.1 h
    cases he
    exact .single (ne_backslash_of_not_pair hlone hpair) hne (ih hs)

/-- Both sides of an unescaped closing character are cut between pairs. -/
theorem FreeOf.of_splitUnescaped {bad : Char → Prop} {stop : Char} (hstop : stop ≠ '\\')
    {cs before after : List Char} (h : FreeOf bad cs)
    (hsplit : splitUnescaped stop cs = some (before, after)) :
    FreeOf (fun c => bad c ∨ c = stop) before ∧ FreeOf bad after := by
  have hbefore := freeOf_of_splitUnescaped hsplit
  rw [eq_append_of_splitUnescaped hsplit] at h
  obtain ⟨hfree, hrest⟩ := FreeOf.of_append hbefore.complete h
  exact ⟨hfree.or hbefore, (hrest.of_single hstop).2⟩

/-- What is free of a closing character reaches up to that character. -/
theorem splitUnescaped_append {stop : Char} (hstop : stop ≠ '\\') {cs : List Char}
    (h : FreeOf (· = stop) cs) (rest : List Char) :
    splitUnescaped stop (cs ++ stop :: rest) = some (cs, rest) := by
  induction h with
  | nil => exact splitUnescaped_stop hstop rest
  | pair c _ ih =>
    rw [List.cons_append, List.cons_append, splitUnescaped, ih]
    rfl
  | single hc hne _ ih =>
    rw [List.cons_append, splitUnescaped_single hc hne, ih]
    rfl

/-! ### Unescaped characters -/

/-- Does a text hold an unescaped character of some kind? -/
def HasUnescaped (bad : Char → Prop) (cs : List Char) : Prop :=
  ∃ before c after, cs = before ++ c :: after ∧ Complete before ∧ bad c

section HasUnescaped

variable {bad : Char → Prop} {as cs : List Char} {c : Char}

theorem not_hasUnescaped_nil : ¬ HasUnescaped bad [] := by
  rintro ⟨before, c, after, heq, _, _⟩
  simp at heq

theorem not_hasUnescaped_lone (hbad : ¬ bad '\\') : ¬ HasUnescaped bad ['\\'] := by
  rintro ⟨before, c, after, heq, _, hc⟩
  cases before with
  | nil =>
    cases heq
    exact hbad hc
  | cons d ds => simp at heq

theorem hasUnescaped_pair_iff (hbad : ¬ bad '\\') :
    HasUnescaped bad ('\\' :: c :: cs) ↔ HasUnescaped bad cs := by
  constructor
  · rintro ⟨before, d, after, heq, hbefore, hd⟩
    cases hbefore with
    | nil =>
      cases heq
      exact absurd hd hbad
    | pair e hrest =>
      cases heq
      exact ⟨_, d, after, rfl, hrest, hd⟩
    | single hne _ _ => exact absurd (List.cons.inj heq).1.symm hne
  · rintro ⟨before, d, after, rfl, hbefore, hd⟩
    exact ⟨'\\' :: c :: before, d, after, rfl, .pair c hbefore, hd⟩

theorem hasUnescaped_single_iff (hc : c ≠ '\\') :
    HasUnescaped bad (c :: cs) ↔ bad c ∨ HasUnescaped bad cs := by
  constructor
  · rintro ⟨before, d, after, heq, hbefore, hd⟩
    cases hbefore with
    | nil =>
      cases heq
      exact .inl hd
    | pair e _ => exact absurd (List.cons.inj heq).1 hc
    | single _ _ hrest =>
      obtain ⟨_, rfl⟩ := List.cons.inj heq
      exact .inr ⟨_, d, after, rfl, hrest, hd⟩
  · rintro (hbad | ⟨before, d, after, rfl, hbefore, hd⟩)
    · exact ⟨[], c, cs, rfl, .nil, hbad⟩
    · exact ⟨c :: before, d, after, rfl, .single hc id hbefore, hd⟩

/-- What stands behind some pairs is as free of unescaped characters as the whole. -/
theorem hasUnescaped_append_iff (hbad : ¬ bad '\\') (has : FreeOf bad as) :
    HasUnescaped bad (as ++ cs) ↔ HasUnescaped bad cs := by
  induction has with
  | nil => exact Iff.rfl
  | pair c _ ih => rw [List.cons_append, List.cons_append, hasUnescaped_pair_iff hbad, ih]
  | single hc hno _ ih =>
    rw [List.cons_append, hasUnescaped_single_iff hc, or_iff_right hno, ih]

/-- **A text is free of some characters if it holds none of them unescaped and does not end inside
    a pair.** -/
theorem freeOf_iff (hbad : ¬ bad '\\') : FreeOf bad cs ↔ Complete cs ∧ ¬ HasUnescaped bad cs := by
  constructor
  · intro h
    refine ⟨h.complete, ?_⟩
    intro hmem
    rw [← List.append_nil cs, hasUnescaped_append_iff hbad h] at hmem
    exact not_hasUnescaped_nil hmem
  · rintro ⟨hcomplete, hnone⟩
    induction hcomplete with
    | nil => exact .nil
    | pair c _ ih => exact .pair c (ih (mt (hasUnescaped_pair_iff hbad).2 hnone))
    | single hc _ _ ih =>
      rw [hasUnescaped_single_iff hc, not_or] at hnone
      exact .single hc hnone.1 (ih hnone.2)

/-- A text is cut nowhere exactly if it holds no unescaped closing character. -/
theorem splitUnescaped_eq_none_iff {stop : Char} (hstop : stop ≠ '\\') :
    splitUnescaped stop cs = none ↔ ¬ HasUnescaped (· = stop) cs := by
  have hbad : ¬ '\\' = stop := hstop.symm
  fun_induction splitUnescaped stop cs with
  | case1 => exact iff_of_true rfl not_hasUnescaped_nil
  | case2 => exact iff_of_true rfl (not_hasUnescaped_lone hbad)
  | case3 c cs ih =>
    rw [Option.map_eq_none_iff, hasUnescaped_pair_iff hbad]
    exact ih
  | case4 cs hlone hpair =>
    refine iff_of_false (by simp) fun hnone => ?_
    exact hnone ((hasUnescaped_single_iff hstop).2 (.inl rfl))
  | case5 c cs hlone hpair hne ih =>
    have hc := ne_backslash_of_not_pair hlone hpair
    rw [Option.map_eq_none_iff, hasUnescaped_single_iff hc, or_iff_right hne]
    exact ih

end HasUnescaped

end RegexText.Text
