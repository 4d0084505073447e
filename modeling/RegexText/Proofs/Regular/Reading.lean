/-
  RegexText/Proofs/Regular/Reading.lean
  =====================================
  **A text has at most one tree, and it can be read.**

  The lexemes of a text are read from the back.  Whatever has been read then
  already is what comes next in a tree, and a quantifier is known before its
  item: the reader holds back the quantifier characters until it meets the item,
  and at the end of a group it puts what follows the group aside until it meets
  the start.

  `read_eq_some_iff` says that the reader finds the tree of every text that has
  one and no tree of any other text.  So a text means one thing, and statements
  about texts can be made through `read`.
-/
import RegexText.Proofs.Regular
import RegexText.Proofs.Syntax.Lexing

namespace RegexText.Regular

/-! ### Quantifiers -/

def repetition? (c : Char) : Option Repetition :=
  if c = '*' then some .star
  else if c = '+' then some .plus
  else if c = '?' then some .optional
  else none

theorem repetition?_eq_some_iff {c : Char} {r : Repetition} :
    repetition? c = some r ↔ r.char = c := by
  unfold repetition?
  constructor
  · intro h
    split_ifs at h with hstar hplus hoptional <;> cases h <;> exact Eq.symm ‹_›
  · rintro rfl
    cases r <;> decide

/-- The quantifier that some characters spell. -/
def readQuantifier : List Char → Option (Option Quantifier)
  | [] => some none
  | [c] => (repetition? c).map fun r => some ⟨r, .greedy⟩
  | [c, '?'] => (repetition? c).map fun r => some ⟨r, .lazy⟩
  | _ => none

theorem readQuantifier_eq_some_iff {cs : List Char} {q : Option Quantifier} :
    readQuantifier cs = some q ↔ mayBacktrack q = true ∧ Quantifier.text q = cs := by
  constructor
  · intro h
    unfold readQuantifier at h
    split at h
    · cases h
      exact ⟨rfl, rfl⟩
    · obtain ⟨r, hr, rfl⟩ := Option.map_eq_some_iff.1 h
      exact ⟨rfl, by rw [← repetition?_eq_some_iff.1 hr]; rfl⟩
    · obtain ⟨r, hr, rfl⟩ := Option.map_eq_some_iff.1 h
      exact ⟨rfl, by rw [← repetition?_eq_some_iff.1 hr]; rfl⟩
    · cases h
  · rintro ⟨hq, rfl⟩
    cases q with
    | none => rfl
    | some q =>
      obtain ⟨r, m⟩ := q
      cases m with
      | greedy => cases r <;> rfl
      | lazy => cases r <;> rfl
      | possessive => simp [mayBacktrack] at hq

/-! ### Reading from the back -/

/-- The mark that opens with a text. -/
def mark? (text : List Char) : Option Mark :=
  if text = Mark.opening .capturing then some .capturing
  else if text = Mark.opening .nonCapturing then some .nonCapturing
  else none

theorem mark?_eq_some_iff {text : List Char} {g : Mark} :
    mark? text = some g ↔ g.opening = text := by
  unfold mark?
  constructor
  · intro h
    split_ifs at h with hc hn <;> cases h <;> exact Eq.symm ‹_›
  · rintro rfl
    cases g <;> decide

/-- What has been read: quantifier characters whose item has not been met, the tree behind
    them, and, for each group of which only the end has been met, its quantifier and what
    follows it, innermost first. -/
structure Behind where
  pending : List Char
  tree : Expression
  outer : List (Option Quantifier × Expression)

namespace Behind

def unit (b : Behind) (u : Matcher) (quantifiers : List Char) : Option Behind :=
  if u.isValid then
    (readQuantifier (quantifiers ++ b.pending)).map fun q => ⟨[], .unit u q b.tree, b.outer⟩
  else none

/-- Put `\x` in front, which goes together with two digits. -/
def number (b : Behind) : Option Behind :=
  match b.pending, b.tree with
  | [], .unit (.char '0') none (.unit (.char '0') q next) =>
    some { b with tree := .unit .nul q next }
  | _, _ => none

def read (l : Lexeme) (b : Behind) : Option Behind :=
  match l with
  | .plain c =>
    if (repetition? c).isSome then some { b with pending := c :: b.pending }
    else if c = '|' then
      if b.pending.isEmpty then some { b with tree := .bar b.tree } else none
    else if c = '.' then b.unit .dot []
    else b.unit (.char c) []
  | .escaped c =>
    if c = 'x' then b.number
    else
      match Shorthand.ofLetter? c with
      | some (s, negated) => b.unit (.shorthand s negated) []
      | none => b.unit (.escaped c) []
  | .bracket content quantifiers => b.unit (.bracket content) quantifiers
  | .closer quantifiers =>
    (readQuantifier (quantifiers ++ b.pending)).map fun q =>
      ⟨[], .done, (q, b.tree) :: b.outer⟩
  | .opener _ text =>
    match b.pending, b.outer with
    | [], (q, next) :: outer => (mark? text).map fun g => ⟨[], .group g b.tree q next, outer⟩
    | _, _ => none
  | _ => none

def readAll : List Lexeme → Behind → Option Behind
  | [], b => some b
  | l :: ls, b => (readAll ls b).bind (read l)

theorem readAll_append (ls ms : List Lexeme) (b : Behind) :
    readAll (ls ++ ms) b = (readAll ms b).bind (readAll ls) := by
  induction ls with
  | nil => simp [readAll]
  | cons l ls ih => rw [List.cons_append, readAll, ih, Option.bind_assoc]; rfl

end Behind

/-- The expression that a text spells. -/
def read (cs : List Char) : Option Expression :=
  match Behind.readAll (Lexeme.ofBody cs) ⟨[], .done, []⟩ with
  | some ⟨[], r, []⟩ => some r
  | _ => none

/-! ### The tree of a text is found -/

theorem readAll_quantifier {cs : List Char} (h : ∀ c ∈ cs, (repetition? c).isSome = true)
    (b : Behind) :
    b.readAll (cs.map .plain) = some { b with pending := cs ++ b.pending } := by
  induction cs with
  | nil => rfl
  | cons c cs ih =>
    rw [List.map_cons, Behind.readAll, ih fun d hd => h d (List.mem_cons_of_mem _ hd)]
    simp only [Option.bind_some, Behind.read, h c (List.mem_cons_self ..), if_true,
      List.cons_append]

theorem isSome_repetition?_of_mem_text {q : Option Quantifier} (hq : mayBacktrack q = true) :
    ∀ c ∈ Quantifier.text q, (repetition? c).isSome = true := by
  cases q with
  | none => simp [Quantifier.text]
  | some q =>
    obtain ⟨r, m⟩ := q
    cases m with
    | greedy => cases r <;> exact Text.forall_mem_of_all (by decide)
    | lazy => cases r <;> exact Text.forall_mem_of_all (by decide)
    | possessive => simp [mayBacktrack] at hq

theorem isSome_repetition?_of_mem_remaining {q : Option Quantifier}
    (hq : mayBacktrack q = true) :
    ∀ c ∈ Quantifier.remaining q, (repetition? c).isSome = true := by
  intro c hc
  apply isSome_repetition?_of_mem_text hq
  rw [← Quantifier.absorbed_append_remaining]
  exact List.mem_append_right _ hc

namespace Behind

theorem unit_eq_some {u : Matcher} {q : Option Quantifier} (hu : u.isValid = true)
    (hq : mayBacktrack q = true) {pending quantifiers : List Char}
    (htext : quantifiers ++ pending = Quantifier.text q) (t : Expression)
    (outer : List (Option Quantifier × Expression)) :
    unit ⟨pending, t, outer⟩ u quantifiers = some ⟨[], .unit u q t, outer⟩ := by
  have hread : readQuantifier (quantifiers ++ pending) = some q :=
    readQuantifier_eq_some_iff.2 ⟨hq, htext.symm⟩
  simp only [unit, hu, if_true, hread, Option.map_some]

theorem read_char {c : Char} (hc : Matcher.isValid (.char c) = true) (b : Behind) :
    b.read (.plain c) = b.unit (.char c) [] := by
  have hne := Matcher.ne_of_isValid_char hc
  have hstar : c ≠ '*' := hne _ (by decide)
  have hplus : c ≠ '+' := hne _ (by decide)
  have hoptional : c ≠ '?' := hne _ (by decide)
  have hbar : c ≠ '|' := hne _ (by decide)
  have hdot : c ≠ '.' := hne _ (by decide)
  simp [read, repetition?, hstar, hplus, hoptional, hbar, hdot]

theorem readAll_spelling {u : Matcher} {q : Option Quantifier} (hu : u.isValid = true)
    (hq : mayBacktrack q = true) (t : Expression)
    (outer : List (Option Quantifier × Expression)) :
    readAll (u.spelling.lexemes q) ⟨[], t, outer⟩ = some ⟨[], .unit u q t, outer⟩ := by
  have hrun : ∀ ls, readAll (ls ++ (Quantifier.text q).map .plain) ⟨[], t, outer⟩ =
      readAll ls ⟨Quantifier.text q, t, outer⟩ := by
    intro ls
    rw [readAll_append, readAll_quantifier (isSome_repetition?_of_mem_text hq)]
    simp
  have hunit : ∀ v : Matcher, v.isValid = true →
      unit ⟨Quantifier.text q, t, outer⟩ v [] = some ⟨[], .unit v q t, outer⟩ :=
    fun v hv => unit_eq_some hv hq (List.nil_append _) t outer
  cases u with
  | char c =>
    rw [Matcher.spelling, Spelling.lexemes, hrun,
      Lexeme.ofRun_single (Matcher.ne_of_isValid_char hu _ (by decide))]
    exact (read_char hu _).trans (hunit _ hu)
  | escaped c =>
    have hx : c ≠ 'x' := by
      rintro rfl
      exact absurd hu (by decide)
    rw [Matcher.spelling, Spelling.lexemes, hrun, Lexeme.ofRun, Lexeme.ofRun]
    simp only [readAll, Option.bind_some, read, if_neg hx, ofLetter?_of_isPunctuation hu]
    exact hunit _ hu
  | nul =>
    have hzero : ∀ b : Behind, b.read (.plain '0') = b.unit (.char '0') [] :=
      fun b => read_char (by decide) b
    have hinner : unit ⟨[], .unit (.char '0') q t, outer⟩ (.char '0') [] =
        some ⟨[], .unit (.char '0') none (.unit (.char '0') q t), outer⟩ := rfl
    have hlexemes : Lexeme.ofRun ['\\', 'x', '0', '0'] =
        [.escaped 'x', .plain '0', .plain '0'] := rfl
    have hlast := hunit _ (by decide : Matcher.isValid (.char '0') = true)
    rw [Matcher.spelling, Spelling.lexemes, hrun, hlexemes]
    simp only [readAll, Option.bind_some, hzero, hlast, hinner]
    rfl
  | dot =>
    rw [Matcher.spelling, Spelling.lexemes, hrun, Lexeme.ofRun_single (by decide), Lexeme.ofRun]
    exact hunit .dot rfl
  | shorthand s negated =>
    have hx : s.letter negated ≠ 'x' := by cases s <;> cases negated <;> decide
    rw [Matcher.spelling, Spelling.lexemes, hrun, Lexeme.ofRun, Lexeme.ofRun]
    simp only [readAll, Option.bind_some, read, if_neg hx, Shorthand.ofLetter?_letter]
    exact hunit _ rfl
  | bracket content =>
    rw [Matcher.spelling, Spelling.lexemes, readAll,
      readAll_quantifier (isSome_repetition?_of_mem_remaining hq), List.append_nil,
      Option.bind_some, read]
    exact unit_eq_some hu hq (Quantifier.absorbed_append_remaining q) t outer

/-- Read from the back, the lexemes of a tree put the tree in front of what follows. -/
theorem readAll_lexemes {r : Expression} (h : WellFormed r) (t : Expression)
    (outer : List (Option Quantifier × Expression)) :
    readAll r.lexemes ⟨[], t, outer⟩ = some ⟨[], r.append t, outer⟩ := by
  induction r generalizing t outer with
  | done => rfl
  | unit u q next ih =>
    obtain ⟨⟨hu, hq⟩, hnext⟩ := h
    rw [Regex.lexemes, readAll_append, ih hnext, Option.bind_some]
    exact readAll_spelling hu hq _ _
  | group g body q next ihb ihn =>
    obtain ⟨hq, hbody, hnext⟩ := h
    have hclose : read (.closer (Quantifier.absorbed q))
        ⟨Quantifier.remaining q, next.append t, outer⟩ =
          some ⟨[], .done, (q, next.append t) :: outer⟩ := by
      have hread := readQuantifier_eq_some_iff.2 ⟨hq, rfl⟩
      rw [← Quantifier.absorbed_append_remaining] at hread
      simp only [read, hread, Option.map_some]
    have hmark : mark? (Marks.opening g) = some g := mark?_eq_some_iff.2 rfl
    rw [Regex.lexemes, readAll, readAll_append, readAll, readAll_append, ihn hnext,
      Option.bind_some, readAll_quantifier (isSome_repetition?_of_mem_remaining hq),
      List.append_nil, Option.bind_some, hclose, Option.bind_some, ihb hbody,
      Regex.append_done, Option.bind_some]
    simp only [read, hmark, Option.map_some]
    rfl
  | bar next ih =>
    rw [Regex.lexemes, readAll, ih h, Option.bind_some]
    rfl

end Behind

/-- **The tree of a text is read from it.** -/
theorem read_text {r : Expression} (h : WellFormed r) : read r.text = some r := by
  rw [read, Regex.ofBody_text h.sound, Behind.readAll_lexemes h, Regex.append_done]

/-! ### Nothing else is found -/

namespace Behind

def text (b : Behind) : List Char :=
  b.pending ++ b.tree.text ++ b.outer.flatMap fun p => ')' :: Quantifier.text p.1 ++ p.2.text

/-- Are all trees of a state well-formed, and all its quantifiers allowed? -/
structure Sound (b : Behind) : Prop where
  tree : WellFormed b.tree
  outer : ∀ p ∈ b.outer, mayBacktrack p.1 = true ∧ WellFormed p.2

theorem unit_spec {b b' : Behind} {u : Matcher} {quantifiers : List Char} (hb : b.Sound)
    (h : b.unit u quantifiers = some b') :
    b'.Sound ∧ b'.text = u.spelling.text ++ quantifiers ++ b.text := by
  unfold unit at h
  split_ifs at h with hu
  obtain ⟨q, hq, rfl⟩ := Option.map_eq_some_iff.1 h
  obtain ⟨hback, htext⟩ := readQuantifier_eq_some_iff.1 hq
  refine ⟨⟨⟨⟨hu, hback⟩, hb.tree⟩, hb.outer⟩, ?_⟩
  simp only [text, Regex.text, htext, List.append_assoc, List.nil_append]
  rfl

theorem number_spec {b b' : Behind} (hb : b.Sound) (h : b.number = some b') :
    b'.Sound ∧ b'.text = ['\\', 'x'] ++ b.text := by
  obtain ⟨pending, tree, outer⟩ := b
  unfold number at h
  split at h
  · rename_i q next hpending htree
    subst hpending htree
    cases h
    obtain ⟨_, ⟨_, hq⟩, hnext⟩ := hb.tree
    exact ⟨⟨⟨⟨rfl, hq⟩, hnext⟩, hb.outer⟩, rfl⟩
  · cases h

theorem read_spec {l : Lexeme} {b b' : Behind} (hb : b.Sound) (h : b.read l = some b') :
    b'.Sound ∧ b'.text = l.text ++ b.text := by
  have hunit : ∀ u : Matcher, ∀ quantifiers : List Char,
      u.spelling.text ++ quantifiers = l.text → b.unit u quantifiers = some b' →
        b'.Sound ∧ b'.text = l.text ++ b.text := by
    intro u quantifiers htext hread
    rw [← htext]
    exact unit_spec hb hread
  cases l with
  | plain c =>
    simp only [read] at h
    split_ifs at h with hrepeat hbar hpending hdot
    · cases h
      exact ⟨⟨hb.tree, hb.outer⟩, by simp [text, Lexeme.text]⟩
    · cases h
      exact ⟨⟨hb.tree, hb.outer⟩, by simp [text, Lexeme.text, Regex.text, hbar,
        List.isEmpty_iff.1 hpending]⟩
    · exact hunit .dot [] (by rw [hdot]; rfl) h
    · exact hunit (.char c) [] rfl h
  | escaped c =>
    simp only [read] at h
    split_ifs at h with hx
    · rw [hx]
      exact number_spec hb h
    · split at h
      · rename_i s negated hletter
        refine hunit (.shorthand s negated) [] ?_ h
        rw [← Shorthand.letter_of_ofLetter? hletter]
        rfl
      · exact hunit (.escaped c) [] rfl h
  | bracket content quantifiers =>
    exact hunit (.bracket content) quantifiers
      (by simp [Matcher.spelling, Spelling.text, Lexeme.text]) h
  | closer quantifiers =>
    obtain ⟨q, hq, rfl⟩ := Option.map_eq_some_iff.1 h
    obtain ⟨hback, htext⟩ := readQuantifier_eq_some_iff.1 hq
    refine ⟨⟨trivial, List.forall_mem_cons.2 ⟨⟨hback, hb.tree⟩, hb.outer⟩⟩, ?_⟩
    simp [text, Regex.text, htext, Lexeme.text]
  | opener opener spelled =>
    simp only [read] at h
    split at h
    · rename_i q next outer hpending houter
      obtain ⟨g, hg, rfl⟩ := Option.map_eq_some_iff.1 h
      have hopening : Marks.opening g = spelled := mark?_eq_some_iff.1 hg
      have hall := hb.outer
      rw [houter] at hall
      obtain ⟨⟨hback, hnext⟩, hrest⟩ := List.forall_mem_cons.1 hall
      refine ⟨⟨⟨hback, hb.tree, hnext⟩, hrest⟩, ?_⟩
      simp [text, Regex.text, hopening, hpending, houter, Lexeme.text]
    · cases h
  | loneBackslash => cases h
  | optionSetting options => cases h
  | unclosedBracket after => cases h
  | unknownGroup after => cases h

theorem readAll_spec {ls : List Lexeme} {b b' : Behind} (hb : b.Sound)
    (h : b.readAll ls = some b') : b'.Sound ∧ b'.text = ls.flatMap Lexeme.text ++ b.text := by
  induction ls generalizing b' with
  | nil =>
    cases h
    exact ⟨hb, rfl⟩
  | cons l ls ih =>
    obtain ⟨mid, hmid, hread⟩ := Option.bind_eq_some_iff.1 h
    obtain ⟨hsound, htext⟩ := ih hmid
    obtain ⟨hsound', htext'⟩ := read_spec hsound hread
    exact ⟨hsound', by rw [htext', htext, List.flatMap_cons, List.append_assoc]⟩

end Behind

/-- **Reading finds the tree of a text, and only that.** -/
theorem read_eq_some_iff {cs : List Char} {r : Expression} :
    read cs = some r ↔ WellFormed r ∧ r.text = cs := by
  constructor
  · intro h
    unfold read at h
    split at h
    · rename_i tree hread
      cases h
      have hstart : Behind.Sound ⟨[], .done, []⟩ := ⟨trivial, by simp⟩
      obtain ⟨hsound, htext⟩ := Behind.readAll_spec hstart hread
      refine ⟨hsound.tree, ?_⟩
      simpa [Behind.text, Regex.text, Lexeme.flatMap_text_ofBody] using htext
    · cases h
  · rintro ⟨hr, rfl⟩
    exact read_text hr

theorem WellFormed.text_injective {r s : Expression} (hr : WellFormed r) (hs : WellFormed s)
    (h : r.text = s.text) : r = s := by
  have hread := read_text hr
  rw [h, read_text hs] at hread
  exact (Option.some.inj hread).symm

def textLanguage (D : Dialect) (cs : List Char) : Language Char :=
  {w | ∃ r ∈ read cs, w ∈ language D r}

theorem textLanguage_text (D : Dialect) {r : Expression} (h : WellFormed r) :
    textLanguage D r.text = language D r := by
  ext w
  constructor
  · rintro ⟨s, hs, hw⟩
    rw [read_text h] at hs
    cases hs
    exact hw
  · intro hw
    exact ⟨r, read_text h, hw⟩

end RegexText.Regular
