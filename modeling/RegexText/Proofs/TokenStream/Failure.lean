/-
  RegexText/Proofs/TokenStream/Failure.lean
  =========================================
  **When a body has no tokens, and what is said about it.**

  Whether the groups of a body fit together is a matter of counting.  In front of
  any place there must not be more ends of groups than starts, nor more starts
  than that by more than the limit, and in the whole body there must be as many
  of one as of the other.

  The reader keeps a stack instead, and gives up at the first lexeme that does not
  fit.  `Tracks` ties the two together: the height of the stack is the difference
  of the counts, and at its bottom lies the first start of a group that has had no
  end.  So the stack decides as the counts do (`outcome_tokenize_cases`).
-/
import RegexText.Proofs.Lexeme.Grammar
import RegexText.Proofs.TokenStream.Captures

namespace RegexText

open Text

/-! ### Counting -/

namespace Lexeme

def isOpener : Lexeme → Bool
  | .opener _ _ => true
  | _ => false

def isCloser : Lexeme → Bool
  | .closer _ => true
  | _ => false

end Lexeme

namespace TokenStream

/-- How many groups start in some lexemes. -/
def openers (ls : List Lexeme) : Nat := ls.countP Lexeme.isOpener

/-- How many ends of groups there are in some lexemes. -/
def closers (ls : List Lexeme) : Nat := ls.countP Lexeme.isCloser

/-- The offset behind some lexemes. -/
def extent (ls : List Lexeme) : Nat := byteLength (ls.flatMap Lexeme.text)

/-- Do the groups of some lexemes fit together, with at most `limit` open at a time, and is every
    bracket closed and every group of a known kind? -/
structure Balanced (limit : Nat) (ls : List Lexeme) : Prop where
  known : ∀ l ∈ ls, l.isClosed = true
  prefixes : ∀ front, front <+: ls →
    closers front ≤ openers front ∧ openers front ≤ closers front + limit
  totals : openers ls = closers ls

/-- What is wrong with a lexeme behind the lexemes `front`. -/
inductive Fault (limit : Nat) (front : List Lexeme) : Lexeme → PatternError → Prop where
  | unclosed (after : List Char) :
      Fault limit front (.unclosedBracket after) (.malformedClass (extent front))
  | unknown (after : List Char) :
      Fault limit front (.unknownGroup after) (.unsupportedGroup (extent front))
  | tooDeep (opener : Opener) (text : List Char) (h : closers front + limit ≤ openers front) :
      Fault limit front (.opener opener text) (.nestingTooDeep limit)
  | unmatched (quantifiers : List Char) (h : openers front ≤ closers front) :
      Fault limit front (.closer quantifiers) (.unbalancedGroup (extent front) .closing)

def FaultFree (limit : Nat) (ls : List Lexeme) : Prop :=
  ∀ front l back e, ls = front ++ l :: back → ¬ Fault limit front l e

/-- Is a failure that of the first fault in some lexemes? -/
def FirstFault (limit : Nat) (ls : List Lexeme) (e : PatternError) : Prop :=
  ∃ front l back, ls = front ++ l :: back ∧ FaultFree limit front ∧ Fault limit front l e

/-- Does a group that starts before some lexemes not end in them? -/
def Unended (back : List Lexeme) : Prop :=
  ∀ front, front <+: back → closers front ≤ openers front

/-- Do some lexemes go on behind `front` with the start of a group that has no end, the first such
    start there is? -/
def FirstUnended (ls front : List Lexeme) : Prop :=
  ∃ opener text back, ls = front ++ .opener opener text :: back ∧ Unended back ∧
    ∀ before opener' text' between, front = before ++ .opener opener' text' :: between →
      ¬ Unended (between ++ .opener opener text :: back)

/-- The failure of a body with these lexemes: that of the first fault, and if there is none, that of
    the first group without an end. -/
inductive Fails (limit : Nat) (ls : List Lexeme) : PatternError → Prop where
  | fault {e : PatternError} (h : FirstFault limit ls e) : Fails limit ls e
  | leftOpen {front : List Lexeme} (hfree : FaultFree limit ls) (h : FirstUnended ls front) :
      Fails limit ls (.unbalancedGroup (extent front) .opening)

variable {limit limit' : Nat} {s s' : State} {l : Lexeme} {ls front back : List Lexeme}
  {e : PatternError} {body : List Char} {tokens : List Token}

@[simp] theorem openers_append (as bs : List Lexeme) :
    openers (as ++ bs) = openers as + openers bs :=
  List.countP_append

@[simp] theorem closers_append (as bs : List Lexeme) :
    closers (as ++ bs) = closers as + closers bs :=
  List.countP_append

@[simp] theorem openers_nil : openers [] = 0 := rfl

@[simp] theorem closers_nil : closers [] = 0 := rfl

@[simp] theorem openers_opener (opener : Opener) (text : List Char) (ls : List Lexeme) :
    openers (.opener opener text :: ls) = openers ls + 1 :=
  List.countP_cons_of_pos rfl

@[simp] theorem closers_opener (opener : Opener) (text : List Char) (ls : List Lexeme) :
    closers (.opener opener text :: ls) = closers ls :=
  List.countP_cons_of_neg Bool.false_ne_true

@[simp] theorem openers_closer (quantifiers : List Char) (ls : List Lexeme) :
    openers (.closer quantifiers :: ls) = openers ls :=
  List.countP_cons_of_neg Bool.false_ne_true

@[simp] theorem closers_closer (quantifiers : List Char) (ls : List Lexeme) :
    closers (.closer quantifiers :: ls) = closers ls + 1 :=
  List.countP_cons_of_pos rfl

theorem openers_append_singleton (h : l.isOpener = false) (ls : List Lexeme) :
    openers (ls ++ [l]) = openers ls := by
  simp [openers, h]

theorem closers_append_singleton (h : l.isCloser = false) (ls : List Lexeme) :
    closers (ls ++ [l]) = closers ls := by
  simp [closers, h]

theorem extent_append_singleton (ls : List Lexeme) (l : Lexeme) :
    extent (ls ++ [l]) = extent ls + byteLength l.text := by
  simp [extent, byteLength_append]

theorem Unended.append_singleton (h : Unended back)
    (hl : closers (back ++ [l]) ≤ openers (back ++ [l])) : Unended (back ++ [l]) := by
  intro front hfront
  rcases List.prefix_concat_iff.1 hfront with rfl | hinner
  · exact hl
  · exact h front hinner

/-! ### The stack -/

/-- The reader's state, by counting the lexemes that have been read. -/
structure Tracks (limit : Nat) (s : State) (ls : List Lexeme) : Prop where
  pos : s.pos = extent ls
  height : s.openGroups.length + closers ls = openers ls
  room : s.openGroups.length ≤ limit
  /-- Behind the bottom of the stack there are never more ends than starts. -/
  outermost : ∀ group ∈ s.openGroups.getLast?, ∃ front opener text back,
    ls = front ++ .opener opener text :: back ∧ group.pos = extent front ∧
      openers front = closers front ∧ Unended back

theorem tracks_initial : Tracks limit .initial [] :=
  ⟨rfl, rfl, Nat.zero_le _, by simp [State.initial]⟩

namespace Tracks

/-- A lexeme that neither starts a group nor ends one leaves the stack alone. -/
theorem keep (h : Tracks limit s ls) (hpos : s'.pos = s.pos + byteLength l.text)
    (hstack : s'.openGroups = s.openGroups) (hopener : l.isOpener = false)
    (hcloser : l.isCloser = false) : Tracks limit s' (ls ++ [l]) where
  pos := by rw [hpos, h.pos, extent_append_singleton]
  height := by
    rw [hstack, openers_append_singleton hopener, closers_append_singleton hcloser, h.height]
  room := hstack ▸ h.room
  outermost := by
    intro group hgroup
    rw [hstack] at hgroup
    obtain ⟨front, opener, text, back, rfl, hfront, hcount, hback⟩ := h.outermost group hgroup
    refine ⟨front, opener, text, back ++ [l], by simp, hfront, hcount,
      hback.append_singleton ?_⟩
    rw [openers_append_singleton hopener, closers_append_singleton hcloser]
    exact hback back (List.prefix_refl back)

theorem opened (h : Tracks limit s ls) {opener : Opener} {text : List Char}
    (hroom : s.openGroups.length < limit) :
    Tracks limit (s.opened opener text) (ls ++ [.opener opener text]) where
  pos := by
    rw [extent_append_singleton, ← h.pos]
    rfl
  height := by
    have hheight := h.height
    simp only [State.opened_openGroups, List.length_cons, openers_append, closers_append,
      openers_opener, closers_opener, openers_nil, closers_nil]
    omega
  room := hroom
  outermost := by
    intro group hgroup
    have hheight := h.height
    cases hstack : s.openGroups with
    | nil =>
      -- the new group is the bottom of the stack
      rw [State.opened_openGroups, hstack] at hgroup
      cases hgroup
      rw [hstack, List.length_nil] at hheight
      refine ⟨ls, opener, text, [], rfl, h.pos, by omega, ?_⟩
      intro front hfront
      rw [List.prefix_nil.1 hfront]
      exact Nat.le_refl _
    | cons innermost enclosing =>
      rw [State.opened_openGroups, hstack, List.getLast?_cons_cons, ← hstack] at hgroup
      obtain ⟨front, opener', text', back, rfl, hfront, hcount, hback⟩ :=
        h.outermost group hgroup
      refine ⟨front, opener', text', back ++ [.opener opener text], by simp, hfront, hcount,
        hback.append_singleton ?_⟩
      have hwhole := hback back (List.prefix_refl back)
      simp only [openers_append, closers_append, openers_opener, closers_opener, openers_nil,
        closers_nil]
      omega

theorem closed (h : Tracks limit s ls) {group : OpenGroup} {enclosing : List OpenGroup}
    {quantifiers : List Char} (hopen : s.openGroups = group :: enclosing) :
    Tracks limit (s.closed group enclosing quantifiers) (ls ++ [.closer quantifiers]) where
  pos := by
    rw [extent_append_singleton, ← h.pos]
    rfl
  height := by
    have hheight := h.height
    rw [hopen, List.length_cons] at hheight
    simp only [State.closed_openGroups, openers_append, closers_append, openers_closer,
      closers_closer, openers_nil, closers_nil]
    omega
  room := by
    have hroom := h.room
    rw [hopen, List.length_cons] at hroom
    rw [State.closed_openGroups]
    omega
  outermost := by
    intro bottom hbottom
    rw [State.closed_openGroups] at hbottom
    obtain ⟨inner, outer, rfl⟩ : ∃ inner outer, enclosing = inner :: outer :=
      List.exists_cons_of_ne_nil (by rintro rfl; cases hbottom)
    have hlast : bottom ∈ s.openGroups.getLast? := by
      rw [hopen, List.getLast?_cons_cons]
      exact hbottom
    obtain ⟨front, opener, text, back, rfl, hfront, hcount, hback⟩ := h.outermost bottom hlast
    refine ⟨front, opener, text, back ++ [.closer quantifiers], by simp, hfront, hcount,
      hback.append_singleton ?_⟩
    -- two groups have been open, so one more has started behind the bottom than has ended
    have hheight := h.height
    simp only [hopen, List.length_cons, openers_append, closers_append, openers_opener,
      closers_opener, openers_closer, closers_closer, openers_nil, closers_nil] at hheight ⊢
    omega

/-- **One step keeps the state and the counts together.** -/
theorem moves (h : Tracks limit s ls) (hmove : Moves limit s l s') :
    Tracks limit s' (ls ++ [l]) := by
  cases hmove with
  | skip hliteral => cases l <;> first | exact h.keep rfl rfl rfl rfl | cases hliteral
  | emit hitem => cases l <;> first | exact h.keep rfl rfl rfl rfl | cases hitem
  | opened hroom => exact h.opened hroom
  | closed hopen => exact h.closed hopen

theorem reads (h : Tracks limit s front) (hreads : Reads limit s ls s') :
    Tracks limit s' (front ++ ls) := by
  induction ls generalizing s front with
  | nil => rwa [List.append_nil, ← reads_nil.1 hreads]
  | cons l ls ih =>
    obtain ⟨mid, hmove, hrest⟩ := reads_cons.1 hreads
    have hall := ih (h.moves hmove) hrest
    rwa [List.append_assoc] at hall

/-- **A step fails exactly on a fault, and says which.** -/
theorem step_eq_error_iff (h : Tracks limit s ls) :
    step limit s l = .error e ↔ Fault limit ls l e := by
  have hheight := h.height
  constructor
  · intro hstep
    cases l with
    | opener opener text =>
      simp only [step] at hstep
      split at hstep
      · cases hstep
        exact .tooDeep opener text (by omega)
      · cases hstep
    | closer quantifiers =>
      simp only [step] at hstep
      split at hstep
      · rename_i hempty
        cases hstep
        rw [hempty, List.length_nil] at hheight
        rw [h.pos]
        exact .unmatched quantifiers (by omega)
      · cases hstep
    | unclosedBracket after =>
      cases hstep
      rw [h.pos]
      exact .unclosed after
    | unknownGroup after =>
      cases hstep
      rw [h.pos]
      exact .unknown after
    | _ => cases hstep
  · intro hfault
    cases hfault with
    | unclosed after => rw [step, h.pos]
    | unknown after => rw [step, h.pos]
    | tooDeep opener text hdeep => rw [step, if_pos (by omega)]
    | unmatched quantifiers hcount =>
      have hempty : s.openGroups = [] := List.length_eq_zero_iff.1 (by omega)
      rw [step, hempty, h.pos]

end Tracks

theorem tracks_of_reads (h : Reads limit .initial ls s) : Tracks limit s ls :=
  tracks_initial.reads h

/-! ### Runs -/

/-- What stands at some place among lexemes with one more behind them is that one, or stands among
    the others. -/
theorem append_singleton_eq {m : Lexeme} (h : ls ++ [l] = front ++ m :: back) :
    (ls = front ∧ l = m) ∨ ∃ behind, ls = front ++ m :: behind := by
  rcases List.eq_nil_or_concat back with rfl | ⟨behind, last, rfl⟩
  · obtain ⟨hfront, hm⟩ := List.append_inj' h rfl
    exact .inl ⟨hfront, (List.cons.inj hm).1⟩
  · have hsplit : ls ++ [l] = (front ++ m :: behind) ++ [last] := by simpa using h
    exact .inr ⟨behind, (List.append_inj' hsplit rfl).1⟩

theorem faultFree_append_singleton :
    FaultFree limit (ls ++ [l]) ↔ FaultFree limit ls ∧ ∀ e, ¬ Fault limit ls l e := by
  constructor
  · intro h
    refine ⟨fun front m back e hls => h front m (back ++ [l]) e (by simp [hls]), fun e => ?_⟩
    exact h ls l [] e rfl
  · rintro ⟨hls, hl⟩ front m back e heq
    rcases append_singleton_eq heq with ⟨rfl, rfl⟩ | ⟨behind, hinner⟩
    · exact hl e
    · exact hls front m behind e hinner

/-- **A reading gets to its end exactly if there is no fault on the way.** -/
theorem exists_reads_iff : (∃ s, Reads limit .initial ls s) ↔ FaultFree limit ls := by
  -- from the end: whether the last lexeme is a fault depends on all that stand before it
  induction ls using List.reverseRecOn with
  | nil => exact iff_of_true ⟨_, reads_nil.2 rfl⟩ (by simp [FaultFree])
  | append_singleton ls l ih =>
    rw [faultFree_append_singleton, ← ih]
    constructor
    · rintro ⟨s, hreads⟩
      obtain ⟨mid, hmid, hlast⟩ := reads_append.1 hreads
      obtain ⟨s', hmove, _⟩ := reads_cons.1 hlast
      refine ⟨⟨mid, hmid⟩, fun e hfault => ?_⟩
      have herror := (tracks_of_reads hmid).step_eq_error_iff.2 hfault
      rw [step_eq_ok_iff.2 hmove] at herror
      cases herror
    · rintro ⟨⟨mid, hmid⟩, hnone⟩
      cases hstep : step limit mid l with
      | error e => exact absurd ((tracks_of_reads hmid).step_eq_error_iff.1 hstep) (hnone e)
      | ok s =>
        have hlast : Reads limit mid [l] s :=
          reads_cons.2 ⟨s, step_eq_ok_iff.1 hstep, reads_nil.2 rfl⟩
        exact ⟨s, reads_append.2 ⟨mid, hmid, hlast⟩⟩

/-- In front of any place that the reader gets to the counts fit. -/
theorem closers_le_of_reads (h : Reads limit .initial ls s) (hfront : front <+: ls) :
    closers front ≤ openers front ∧ openers front ≤ closers front + limit := by
  obtain ⟨back, rfl⟩ := hfront
  obtain ⟨mid, hmid, _⟩ := reads_append.1 h
  have htracks := tracks_of_reads hmid
  have hheight := htracks.height
  have hroom := htracks.room
  omega

theorem balanced_iff : Balanced limit ls ↔ FaultFree limit ls ∧ openers ls = closers ls := by
  constructor
  · intro h
    refine ⟨?_, h.totals⟩
    rintro front l back e rfl hfault
    have hprefix : front ++ [l] <+: front ++ l :: back := ⟨back, by simp⟩
    have hcounts := h.prefixes _ hprefix
    have hknown := h.known l (by simp)
    cases hfault with
    | unclosed after => cases hknown
    | unknown after => cases hknown
    | tooDeep opener text hdeep =>
      simp only [openers_append, closers_append, openers_opener, closers_opener, openers_nil,
        closers_nil] at hcounts
      omega
    | unmatched quantifiers hcount =>
      simp only [openers_append, closers_append, openers_closer, closers_closer, openers_nil,
        closers_nil] at hcounts
      omega
  · rintro ⟨hfree, htotals⟩
    obtain ⟨s, hreads⟩ := exists_reads_iff.2 hfree
    exact ⟨isClosed_of_reads hreads, fun _ => closers_le_of_reads hreads, htotals⟩

theorem firstFault_append_singleton : FirstFault limit (ls ++ [l]) e ↔
    FirstFault limit ls e ∨ (FaultFree limit ls ∧ Fault limit ls l e) := by
  constructor
  · rintro ⟨front, m, back, heq, hfree, hfault⟩
    rcases append_singleton_eq heq with ⟨rfl, rfl⟩ | ⟨behind, hinner⟩
    · exact .inr ⟨hfree, hfault⟩
    · exact .inl ⟨front, m, behind, hinner, hfree, hfault⟩
  · rintro (⟨front, m, back, rfl, hfree, hfault⟩ | ⟨hfree, hfault⟩)
    · exact ⟨front, m, back ++ [l], by simp, hfree, hfault⟩
    · exact ⟨ls, l, [], rfl, hfree, hfault⟩

/-- A reading that does not get to its end fails on the first fault. -/
theorem foldlM_eq_error_iff :
    ls.foldlM (step limit) .initial = .error e ↔ FirstFault limit ls e := by
  induction ls using List.reverseRecOn with
  | nil => simp [FirstFault, pure, Except.pure]
  | append_singleton ls l ih =>
    rw [List.foldlM_append, firstFault_append_singleton, ← ih, ← exists_reads_iff]
    cases hread : ls.foldlM (step limit) .initial with
    | error e' => simp [Reads, hread, bind, Except.bind]
    | ok s =>
      have hstep : step limit s l = .error e ↔ Fault limit ls l e :=
        (tracks_of_reads hread).step_eq_error_iff
      rw [← hstep]
      cases hnext : step limit s l <;>
        simp [Reads, hread, hnext, bind, Except.bind, pure, Except.pure]

/-! ### Groups left open -/

/-- A group inside others that have all ended has ended itself. -/
theorem not_unended_of_counts {before between : List Lexeme} {opener : Opener} {text : List Char}
    (hbefore : closers before ≤ openers before)
    (hcounts : openers (before ++ .opener opener text :: between) =
      closers (before ++ .opener opener text :: between)) (hback : between <+: back) :
    ¬ Unended back := by
  intro h
  have hbetween := h between hback
  simp only [openers_append, closers_append, openers_opener, closers_opener] at hcounts
  omega

/-- The bottom of the stack is the first group without an end. -/
theorem firstUnended_of_reads (h : Reads limit .initial ls s) {group : OpenGroup}
    (hgroup : group ∈ s.openGroups.getLast?) :
    ∃ front, FirstUnended ls front ∧ group.pos = extent front := by
  obtain ⟨front, opener, text, back, rfl, hpos, hcounts, hback⟩ :=
    (tracks_of_reads h).outermost group hgroup
  refine ⟨front, ⟨opener, text, back, rfl, hback, ?_⟩, hpos⟩
  rintro before opener' text' between rfl
  have hprefix : before <+: before ++ .opener opener' text' :: between ++
      .opener opener text :: back := by
    rw [List.append_assoc]
    exact List.prefix_append before _
  exact not_unended_of_counts (closers_le_of_reads h hprefix).1 hcounts (List.prefix_append _ _)

theorem FirstUnended.eq {front' : List Lexeme} (h : FirstUnended ls front)
    (h' : FirstUnended ls front') : front = front' := by
  obtain ⟨opener, text, back, hls, hback, hfirst⟩ := h
  obtain ⟨opener', text', back', hls', hback', hfirst'⟩ := h'
  -- if they differ, the one that comes first stands in front of the other
  rcases List.append_eq_append_iff.1 (hls.symm.trans hls') with
    ⟨between, rfl, heq⟩ | ⟨between, rfl, heq⟩
  · cases between with
    | nil => simp
    | cons m between =>
      cases heq
      exact absurd hback (hfirst' _ _ _ _ rfl)
  · cases between with
    | nil => simp
    | cons m between =>
      cases heq
      exact absurd hback' (hfirst _ _ _ _ rfl)

/-- With a group left open there is a group at the bottom of the stack. -/
theorem openGroups_ne_nil (h : Reads limit .initial ls s) (hfirst : FirstUnended ls front) :
    s.openGroups ≠ [] := by
  obtain ⟨opener, text, back, rfl, hback, _⟩ := hfirst
  have hheight := (tracks_of_reads h).height
  have hfront := (closers_le_of_reads h (List.prefix_append front _)).1
  have hwhole := hback back (List.prefix_refl back)
  intro hempty
  simp only [hempty, List.length_nil, openers_append, closers_append, openers_opener,
    closers_opener] at hheight
  omega

theorem finish_eq_error_iff : finish s = .error e ↔
    ∃ group ∈ s.openGroups.getLast?, e = .unbalancedGroup group.pos .opening := by
  unfold finish
  split
  · rename_i outermost hlast
    simp [hlast, eq_comm]
  · rename_i hlast
    simp [hlast]

/-! ### Bodies -/

theorem outcome_eq_error_iff :
    (tokenize limit body).outcome = .error e ↔ Fails limit (Lexeme.ofBody body) e := by
  rw [outcome_tokenize]
  cases hread : (Lexeme.ofBody body).foldlM (step limit) .initial with
  | error e' =>
    constructor
    · intro h
      cases h
      exact .fault (foldlM_eq_error_iff.1 hread)
    · intro h
      cases h with
      | fault hfault =>
        rw [foldlM_eq_error_iff.2 hfault] at hread
        cases hread
        rfl
      | leftOpen hfree _ =>
        obtain ⟨s, hreads⟩ := exists_reads_iff.2 hfree
        rw [Reads, hread] at hreads
        cases hreads
  | ok s =>
    have hfinish : (Except.ok s >>= finish) = finish s := rfl
    rw [hfinish, finish_eq_error_iff]
    constructor
    · rintro ⟨group, hgroup, rfl⟩
      obtain ⟨front, hfirst, hpos⟩ := firstUnended_of_reads hread hgroup
      rw [hpos]
      exact .leftOpen (exists_reads_iff.1 ⟨s, hread⟩) hfirst
    · intro h
      cases h with
      | fault hfault =>
        rw [foldlM_eq_error_iff.2 hfault] at hread
        cases hread
      | leftOpen _ hfirst =>
        obtain ⟨group, hgroup⟩ : ∃ group, group ∈ s.openGroups.getLast? :=
          Option.isSome_iff_exists.1 (List.getLast?_isSome.2 (openGroups_ne_nil hread hfirst))
        obtain ⟨front, hfront, hpos⟩ := firstUnended_of_reads hread hgroup
        exact ⟨group, hgroup, by rw [hpos, hfirst.eq hfront]⟩

theorem exists_outcome_eq_ok_iff :
    (∃ tokens, (tokenize limit body).outcome = .ok tokens) ↔
      Balanced limit (Lexeme.ofBody body) := by
  rw [balanced_iff, ← exists_reads_iff]
  constructor
  · rintro ⟨tokens, h⟩
    obtain ⟨s, hreads, hempty, _⟩ := tokenize_eq_ok_iff.1 h
    have hheight := (tracks_of_reads hreads).height
    rw [hempty, List.length_nil] at hheight
    exact ⟨⟨s, hreads⟩, by omega⟩
  · rintro ⟨⟨s, hreads⟩, htotals⟩
    have hheight := (tracks_of_reads hreads).height
    have hempty : s.openGroups = [] := List.length_eq_zero_iff.1 (by omega)
    exact ⟨s.tokens.toList, tokenize_eq_ok_iff.2 ⟨s, hreads, hempty, rfl⟩⟩

theorem Moves.mono (h : Moves limit s l s') (hlimit : limit ≤ limit') : Moves limit' s l s' := by
  cases h with
  | skip hliteral => exact .skip hliteral
  | emit hitem => exact .emit hitem
  | opened hroom => exact .opened (Nat.lt_of_lt_of_le hroom hlimit)
  | closed hopen => exact .closed hopen

theorem Reads.mono (h : Reads limit s ls s') (hlimit : limit ≤ limit') :
    Reads limit' s ls s' := by
  induction ls generalizing s with
  | nil => exact reads_nil.2 (reads_nil.1 h)
  | cons l ls ih =>
    obtain ⟨mid, hmove, hrest⟩ := reads_cons.1 h
    exact reads_cons.2 ⟨mid, hmove.mono hlimit, ih hrest⟩

/-- **When a body has tokens, and how it fails if it has none.**  The lexemes of the body, which are
    the only ones it can be cut into, decide by their counts.  The limit decides nothing else: the
    tokens under one limit are those under every larger one. -/
theorem outcome_tokenize_cases (limit : Nat) (body : List Char) : ∃ ls,
    (∀ ms, Lexeme.Cut body ms ↔ ms = ls) ∧
    ((∃ tokens, (tokenize limit body).outcome = .ok tokens) ↔ Balanced limit ls) ∧
    (∀ e, (tokenize limit body).outcome = .error e ↔ Fails limit ls e) ∧
    ∀ tokens, (tokenize limit body).outcome = .ok tokens →
      ∀ limit', limit ≤ limit' → (tokenize limit' body).outcome = .ok tokens := by
  refine ⟨Lexeme.ofBody body, fun ms => Lexeme.cut_iff, exists_outcome_eq_ok_iff,
    fun e => outcome_eq_error_iff, ?_⟩
  intro tokens h limit' hlimit
  obtain ⟨s, hreads, hopen⟩ := tokenize_eq_ok_iff.1 h
  exact tokenize_eq_ok_iff.2 ⟨s, hreads.mono hlimit, hopen⟩

/-- The second group has no end, and its own group is not the first without one; a setting is no
    group. -/
theorem outcome_tokenize_cases_leftOpen :
    (∃ ls, Lexeme.Cut "(a)(b(c)(d".toList ls ∧ Fails 2 ls (.unbalancedGroup 3 .opening)) ∧
      ∃ tokens, (tokenize 1 "(?i)(a)".toList).outcome = .ok tokens ∧
        ∀ limit, 1 ≤ limit → (tokenize limit "(?i)(a)".toList).outcome = .ok tokens := by
  constructor
  · obtain ⟨ls, hcut, _, herror, _⟩ := outcome_tokenize_cases 2 "(a)(b(c)(d".toList
    exact ⟨ls, (hcut ls).2 rfl, (herror _).1 (by decide +kernel)⟩
  · obtain ⟨_, _, _, _, hlimits⟩ := outcome_tokenize_cases 1 "(?i)(a)".toList
    have htokens : (tokenize 1 "(?i)(a)".toList).outcome =
        .ok [⟨0, 4, .optionGroup "i"⟩, ⟨4, 1, .groupStart (.capturing none) 2⟩,
          ⟨6, 1, .groupEnd .capturing 1 ""⟩] := by
      decide +kernel
    exact ⟨_, htokens, hlimits _ htokens⟩

end TokenStream

end RegexText
