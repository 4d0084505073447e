/-
  RegexText/Proofs/TokenStream/Tree.lean
  ======================================
  **Reading the lexemes of a tree.**

  The lexemes of a tree are balanced, so a reading of them leaves the open groups
  and the earlier tokens as they were, and it only fails for want of room.  The
  start of a group is linked to the end that belongs to it in the tree.
-/
import RegexText.Proofs.Syntax.Lexing

namespace RegexText

open Text

namespace TokenStream

variable {limit : Nat} {s s' : State}

/-! ### Readings that leave what was there -/

/-- Nothing of a state but the offset is lost or changed in a later one. -/
structure Keeps (s s' : State) : Prop where
  openGroups : s'.openGroups = s.openGroups
  size : s.tokens.size ≤ s'.tokens.size
  tokens : ∀ i < s.tokens.size, s'.tokens[i]? = s.tokens[i]?

theorem Keeps.refl (s : State) : Keeps s s := ⟨rfl, Nat.le_refl _, fun _ _ => rfl⟩

theorem Keeps.trans {s₁ s₂ s₃ : State} (h : Keeps s₁ s₂) (h' : Keeps s₂ s₃) : Keeps s₁ s₃ :=
  ⟨h'.openGroups.trans h.openGroups, Nat.le_trans h.size h'.size, fun i hi =>
    (h'.tokens i (Nat.lt_of_lt_of_le hi h.size)).trans (h.tokens i hi)⟩

theorem Keeps.itemAt? (h : Keeps s s') {i : Nat} (hi : i < s.tokens.size) :
    s'.itemAt? i = s.itemAt? i := by
  rw [State.itemAt?, State.itemAt?, h.tokens i hi]

theorem keeps_skip (s : State) (l : Lexeme) : Keeps s (s.skip l) :=
  ⟨rfl, Nat.le_refl _, fun _ _ => rfl⟩

theorem keeps_emit (s : State) (l : Lexeme) (item : TokenItem) : Keeps s (s.emit l item) := by
  refine ⟨rfl, by simp, ?_⟩
  intro i hi
  simp [State.emit, Array.getElem?_push, Nat.ne_of_lt hi]

theorem Reads.of_literal {ls : List Lexeme} (hls : ∀ l ∈ ls, l.isLiteral = true)
    (h : Reads limit s ls s') : s'.openGroups = s.openGroups ∧ s'.tokens = s.tokens := by
  induction ls generalizing s with
  | nil => simp [reads_nil.1 h]
  | cons l ls ih =>
    obtain ⟨mid, hmove, hrest⟩ := reads_cons.1 h
    have hl := hls l (by simp)
    obtain ⟨hopen, htokens⟩ := ih (fun m hm => hls m (by simp [hm])) hrest
    cases hmove with
    | skip => exact ⟨hopen, htokens⟩
    | emit hitem => cases l <;> simp_all [Lexeme.isLiteral, Lexeme.flatItem?]
    | opened => simp [Lexeme.isLiteral] at hl
    | closed => simp [Lexeme.isLiteral] at hl

theorem exists_reads_of_literal {ls : List Lexeme} (hls : ∀ l ∈ ls, l.isLiteral = true)
    (limit : Nat) (s : State) : ∃ s', Reads limit s ls s' := by
  induction ls generalizing s with
  | nil => exact ⟨s, reads_nil.2 rfl⟩
  | cons l ls ih =>
    obtain ⟨s', h⟩ := ih (fun m hm => hls m (by simp [hm])) (s.skip l)
    exact ⟨s', reads_cons.2 ⟨_, .skip (hls l (by simp)), h⟩⟩

theorem Reads.keeps_of_literal {ls : List Lexeme} (hls : ∀ l ∈ ls, l.isLiteral = true)
    (h : Reads limit s ls s') : Keeps s s' := by
  obtain ⟨hopen, htokens⟩ := h.of_literal hls
  refine ⟨hopen, Nat.le_of_eq (by rw [htokens]), ?_⟩
  intro i _
  rw [htokens]

theorem isLiteral_of_mem_plain {cs : List Char} {l : Lexeme}
    (h : l ∈ cs.map Lexeme.plain) : l.isLiteral = true := by
  obtain ⟨c, _, rfl⟩ := List.mem_map.1 h
  rfl

theorem isLiteral_of_mem_ofRun {cs : List Char} {l : Lexeme} (h : l ∈ Lexeme.ofRun cs) :
    l.isLiteral = true := by
  fun_induction Lexeme.ofRun cs with
  | case1 => simp at h
  | case2 => simp [List.mem_singleton.1 h, Lexeme.isLiteral]
  | case3 c cs ih =>
    rcases List.mem_cons.1 h with rfl | hmem
    · rfl
    · exact ih hmem
  | case4 c cs _ _ ih =>
    rcases List.mem_cons.1 h with rfl | hmem
    · rfl
    · exact ih hmem

/-! ### Groups -/

/-- Reading a group whose body is balanced: the state `inner` before the end, and the one
    after it, in which the two ends are linked. -/
theorem Reads.group {opener : Opener} {text quantifiers : List Char} {body rest : List Lexeme}
    (hbody : ∀ s s', Reads limit s body s' → Keeps s s')
    (h : Reads limit s (.opener opener text :: (body ++ .closer quantifiers :: rest)) s') :
    ∃ inner after : State, after = inner.closed ⟨s.tokens.size, opener.kind, s.pos⟩ s.openGroups
        quantifiers ∧
      Reads limit after rest s' ∧ Keeps s after ∧ s.tokens.size < inner.tokens.size ∧
      after.itemAt? s.tokens.size = some (.groupStart opener inner.tokens.size) := by
  obtain ⟨start, hstart, hinner⟩ := reads_cons.1 h
  obtain ⟨inner, hreads, hend⟩ := reads_append.1 hinner
  obtain ⟨after, hclose, hrest⟩ := reads_cons.1 hend
  have hkeeps := hbody _ _ hreads
  cases hstart with
  | skip hliteral => simp [Lexeme.isLiteral] at hliteral
  | emit hitem => simp [Lexeme.flatItem?] at hitem
  | opened hroom =>
    have hstack := hkeeps.openGroups
    have hsize := hkeeps.size
    rw [State.opened_openGroups] at hstack
    rw [State.opened_size] at hsize
    have hitems : ∀ i < s.tokens.size + 1,
        inner.itemAt? i = (s.opened opener text).itemAt? i := by
      intro i hi
      exact hkeeps.itemAt? (by rw [State.opened_size]; exact hi)
    cases hclose with
    | skip hliteral => simp [Lexeme.isLiteral] at hliteral
    | emit hitem => simp [Lexeme.flatItem?] at hitem
    | @closed group enclosing _ hopen =>
      rw [hstack, List.cons.injEq] at hopen
      obtain ⟨rfl, rfl⟩ := hopen
      refine ⟨inner, _, rfl, hrest, ⟨rfl, by simp; omega, ?_⟩, by omega, ?_⟩
      · intro i hi
        rw [State.getElem?_closed (by omega) (by simp; omega), hkeeps.tokens i (by simp; omega),
          State.getElem?_opened hi]
      · rw [State.itemAt?_closed, if_neg (by omega), if_pos rfl, hitems _ (by omega),
          State.itemAt?_opened, if_pos rfl]
        rfl

end TokenStream

namespace Regex

open TokenStream

variable {U G : Type} [Written U] [Marks G]

/-- **The lexemes of a tree are balanced.** -/
theorem keeps_of_reads {limit : Nat} {s s' : State} {r : Regex U G}
    (h : Reads limit s r.lexemes s') : Keeps s s' := by
  induction r generalizing s s' with
  | done => exact reads_nil.1 h ▸ Keeps.refl s
  | unit u q next ih =>
    obtain ⟨mid, hunit, hnext⟩ := reads_append.1 h
    refine Keeps.trans ?_ (ih hnext)
    cases hspelling : Written.spelling u with
    | run text =>
      rw [hspelling, Spelling.lexemes] at hunit
      apply hunit.keeps_of_literal
      intro l hl
      rcases List.mem_append.1 hl with hmem | hmem
      · exact isLiteral_of_mem_ofRun hmem
      · exact isLiteral_of_mem_plain hmem
    | bracket content =>
      rw [hspelling, Spelling.lexemes] at hunit
      obtain ⟨first, hmove, hrest⟩ := reads_cons.1 hunit
      cases hmove with
      | skip hliteral => simp [Lexeme.isLiteral] at hliteral
      | emit hitem =>
        exact (keeps_emit _ _ _).trans
          (hrest.keeps_of_literal fun l hl => isLiteral_of_mem_plain hl)
  | group g body q next ihb ihn =>
    obtain ⟨_, after, _, hrest, hkeeps, _, _⟩ := Reads.group (fun _ _ => ihb) h
    obtain ⟨mid, hremaining, hnext⟩ := reads_append.1 hrest
    exact (hkeeps.trans (hremaining.keeps_of_literal fun l hl => isLiteral_of_mem_plain hl)).trans
      (ihn hnext)
  | bar next ih =>
    obtain ⟨mid, hmove, hnext⟩ := reads_cons.1 h
    cases hmove with
    | skip => exact (keeps_skip _ _).trans (ih hnext)
    | emit hitem => simp [Lexeme.flatItem?] at hitem

/-- With room for its groups, a tree is read to its end. -/
theorem exists_reads {limit : Nat} {s : State} {r : Regex U G}
    (hroom : s.openGroups.length + r.depth ≤ limit) : ∃ s', Reads limit s r.lexemes s' := by
  induction r generalizing s with
  | done => exact ⟨s, reads_nil.2 rfl⟩
  | unit u q next ih =>
    have hunit : ∃ mid, Reads limit s ((Written.spelling u).lexemes q) mid ∧ Keeps s mid := by
      cases Written.spelling u with
      | run text =>
        have hliteral : ∀ l ∈ Lexeme.ofRun text ++ (Quantifier.text q).map .plain,
            l.isLiteral = true := by
          intro l hl
          rcases List.mem_append.1 hl with hmem | hmem
          · exact isLiteral_of_mem_ofRun hmem
          · exact isLiteral_of_mem_plain hmem
        obtain ⟨mid, hmid⟩ := exists_reads_of_literal hliteral limit s
        exact ⟨mid, hmid, hmid.keeps_of_literal hliteral⟩
      | bracket content =>
        have hliteral : ∀ l ∈ (Quantifier.remaining q).map Lexeme.plain, l.isLiteral = true :=
          fun l hl => isLiteral_of_mem_plain hl
        obtain ⟨mid, hmid⟩ := exists_reads_of_literal hliteral limit
          (s.emit (.bracket content (Quantifier.absorbed q)) _)
        exact ⟨mid, reads_cons.2 ⟨_, .emit rfl, hmid⟩,
          (keeps_emit _ _ _).trans (hmid.keeps_of_literal hliteral)⟩
    obtain ⟨mid, hmid, hkeeps⟩ := hunit
    obtain ⟨s', hs'⟩ := ih (s := mid) (by rw [hkeeps.openGroups]; exact hroom)
    exact ⟨s', reads_append.2 ⟨mid, hmid, hs'⟩⟩
  | group g body q next ihb ihn =>
    simp only [depth] at hroom
    obtain ⟨inner, hinner⟩ := ihb (s := s.opened (Marks.opener g) (Marks.opening g))
      (by rw [State.opened_openGroups, List.length_cons]; omega)
    have hstack := (keeps_of_reads hinner).openGroups
    rw [State.opened_openGroups] at hstack
    have hliteral : ∀ l ∈ (Quantifier.remaining q).map Lexeme.plain, l.isLiteral = true :=
      fun l hl => isLiteral_of_mem_plain hl
    obtain ⟨mid, hmid⟩ := exists_reads_of_literal hliteral limit
      (inner.closed ⟨s.tokens.size, (Marks.opener g).kind, s.pos⟩ s.openGroups
        (Quantifier.absorbed q))
    have hopen : mid.openGroups = s.openGroups := (hmid.keeps_of_literal hliteral).openGroups
    obtain ⟨s', hs'⟩ := ihn (s := mid) (by rw [hopen]; omega)
    refine ⟨s', reads_cons.2 ⟨_, .opened (by omega), reads_append.2 ⟨inner, hinner, ?_⟩⟩⟩
    exact reads_cons.2 ⟨_, .closed hstack, reads_append.2 ⟨mid, hmid, hs'⟩⟩
  | bar next ih =>
    obtain ⟨s', hs'⟩ := ih (s := s.skip (.plain '|')) hroom
    exact ⟨s', reads_cons.2 ⟨_, .skip rfl, hs'⟩⟩

/-- With room for its groups, a tree has tokens. -/
theorem exists_tokenize {limit : Nat} {r : Regex U G} (hr : r.Sound) (hdepth : r.depth ≤ limit) :
    ∃ s, Reads limit .initial r.lexemes s ∧ s.openGroups = [] ∧
      (tokenize limit r.text).outcome = .ok s.tokens.toList := by
  have hroom : State.initial.openGroups.length + r.depth ≤ limit := by
    simpa [State.initial] using hdepth
  obtain ⟨s, hreads⟩ := exists_reads hroom
  have hclosed := (keeps_of_reads hreads).openGroups
  refine ⟨s, hreads, hclosed, tokenize_eq_ok_iff.2 ⟨s, ?_, hclosed, rfl⟩⟩
  rwa [ofBody_text hr]

end Regex

end RegexText
