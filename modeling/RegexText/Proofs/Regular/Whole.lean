/-
  RegexText/Proofs/Regular/Whole.lean
  ===================================
  **An expression is made optional whatever stands between its brackets.**

  What a text between brackets matches, and whether it matches anything, differs
  from dialect to dialect.  To make an expression optional nothing has to be known
  about it but where it ends.  So trees may hold any such text here, and what the
  units match is a parameter of the language of a tree.

  A text still has one tree only.  With a content that can be read in every
  bracket expression, the tree is found as before; and the contents themselves are
  among the lexemes of the text.
-/
import RegexText.Proofs.Regular.Optional

namespace RegexText

open Text

/-! ### Contents left out -/

/-- A lexeme with the same content for all bracket expressions. -/
def Lexeme.blank : Lexeme → Lexeme
  | .bracket _ quantifiers => .bracket ['a'] quantifiers
  | l => l

theorem Lexeme.map_blank_ofRun (cs : List Char) : (ofRun cs).map blank = ofRun cs := by
  fun_induction ofRun cs with
  | case1 => rfl
  | case2 => rfl
  | case3 c cs ih =>
    rw [List.map_cons, ih]
    rfl
  | case4 c cs _ _ ih =>
    rw [List.map_cons, ih]
    rfl

theorem Lexeme.map_blank_plain (cs : List Char) :
    (cs.map plain).map blank = cs.map plain := by
  rw [List.map_map]
  rfl

namespace Regular

open scoped Computability

namespace Matcher

/-- Can a unit be told from what surrounds it?  Between brackets there may be anything but an
    unescaped closing bracket. -/
def IsLegible : Matcher → Prop
  | .bracket content => FreeOf (· = ']') content
  | u => u.isValid = true

/-- A unit with the same content for all bracket expressions, one that can be read. -/
def blank : Matcher → Matcher
  | .bracket _ => .bracket ['a']
  | u => u

variable {u v : Matcher}

theorem sound_of_isLegible (h : u.IsLegible) : u.spelling.Sound := by
  cases u with
  | bracket content => exact h
  | _ => exact sound_of_isValid h

theorem isValid_blank (h : u.IsLegible) : u.blank.isValid = true := by
  cases u with
  | bracket content => rfl
  | _ => exact h

theorem isLegible_of_isValid (h : u.isValid = true) : u.IsLegible := by
  cases u with
  | bracket content => exact sound_of_isValid h
  | _ => exact h

theorem eq_or_bracket_of_blank_eq (h : u.blank = v.blank) :
    u = v ∨ ∃ content content', u = .bracket content ∧ v = .bracket content' := by
  cases u with
  | bracket content =>
    cases v with
    | bracket content' => exact .inr ⟨content, content', rfl, rfl⟩
    | _ => cases h
  | _ =>
    cases v with
    | bracket content => cases h
    | _ => exact .inl h

theorem lexemes_blank (u : Matcher) (q : Option Quantifier) :
    u.blank.spelling.lexemes q = (u.spelling.lexemes q).map Lexeme.blank := by
  cases u with
  | bracket content =>
    simp only [blank, spelling, Spelling.lexemes, List.map_cons, Lexeme.map_blank_plain]
    rfl
  | _ =>
    simp only [blank, spelling, Spelling.lexemes, List.map_append, Lexeme.map_blank_plain,
      Lexeme.map_blank_ofRun]

end Matcher

/-! ### Trees with any contents -/

def Fragment.legible : Fragment where
  units u q := u.IsLegible ∧ mayBacktrack q = true
  groups _ q := mayBacktrack q = true

/-- Is an expression made of legible units, with quantifiers that give back? -/
abbrev Legible (r : Expression) : Prop := Within .legible r

def blank (r : Expression) : Expression := r.map Matcher.blank id

theorem WellFormed.legible {r : Expression} (h : WellFormed r) : Legible r :=
  Regex.All.imp (fun _ _ hu => ⟨Matcher.isLegible_of_isValid hu.1, hu.2⟩) (fun _ _ hg => hg) h

theorem Legible.sound {r : Expression} (h : Legible r) : r.Sound :=
  Regex.All.imp (fun _ _ hu => Matcher.sound_of_isLegible hu.1) (fun g _ _ => Mark.sound g) h

theorem Legible.wellFormed_blank {r : Expression} (h : Legible r) : WellFormed (blank r) :=
  Regex.All.map (fun _ _ hu => ⟨Matcher.isValid_blank hu.1, hu.2⟩) (fun _ _ hg => hg) h

theorem lexemes_blank (r : Expression) : (blank r).lexemes = r.lexemes.map Lexeme.blank := by
  induction r with
  | done => rfl
  | unit u q next ih =>
    have hunit : (Written.spelling u.blank).lexemes q =
        ((Written.spelling u).lexemes q).map Lexeme.blank := Matcher.lexemes_blank u q
    rw [Regex.lexemes, List.map_append, ← ih, ← hunit]
    rfl
  | group g body q next ihb ihn =>
    simp only [Regex.lexemes, List.map_cons, List.map_append, Lexeme.map_blank_plain, ← ihb, ← ihn]
    rfl
  | bar next ih =>
    rw [Regex.lexemes, List.map_cons, ← ih]
    rfl

/-- The contents of the bracket expressions are what the lexemes know beyond the tree without
    them. -/
theorem eq_of_blank_eq {r s : Expression} (hblank : blank r = blank s)
    (h : r.lexemes = s.lexemes) : r = s := by
  induction r generalizing s with
  | done =>
    cases s with
    | done => rfl
    | _ => cases hblank
  | unit u q next ih =>
    cases s with
    | unit v q' next' =>
      have hparts : u.blank = v.blank ∧ q = q' ∧ blank next = blank next' := by
        simpa [blank, Regex.map] using hblank
      rcases hparts with ⟨hu, rfl, hnext⟩
      rcases Matcher.eq_or_bracket_of_blank_eq hu with rfl | ⟨content, content', rfl, rfl⟩
      · rw [Regex.lexemes, Regex.lexemes, List.append_right_inj] at h
        rw [ih hnext h]
      · simp only [Regex.lexemes, Written.spelling, Matcher.spelling, Spelling.lexemes,
          List.cons_append, List.cons.injEq, Lexeme.bracket.injEq, and_true,
          List.append_right_inj] at h
        rw [h.1, ih hnext h.2]
    | _ => cases hblank
  | group g body q next ihb ihn =>
    cases s with
    | group g' body' q' next' =>
      have hparts : g = g' ∧ blank body = blank body' ∧ q = q' ∧ blank next = blank next' := by
        simpa [blank, Regex.map] using hblank
      rcases hparts with ⟨rfl, hbody, rfl, hnext⟩
      -- bodies of one shape have equally many lexemes
      have hlength : body.lexemes.length = body'.lexemes.length := by
        have hlexemes := congrArg (List.length ∘ Regex.lexemes) hbody
        simpa [lexemes_blank] using hlexemes
      simp only [Regex.lexemes, List.cons.injEq, true_and] at h
      rcases List.append_inj h hlength with ⟨hinner, hrest⟩
      simp only [List.cons.injEq, true_and, List.append_right_inj] at hrest
      rw [ihb hbody hinner, ihn hnext hrest]
    | _ => cases hblank
  | bar next ih =>
    cases s with
    | bar next' =>
      have hnext : blank next = blank next' := by simpa [blank, Regex.map] using hblank
      simp only [Regex.lexemes, List.cons.injEq, true_and] at h
      rw [ih hnext h]
    | _ => cases hblank

/-- **A text has at most one tree, whatever its brackets hold.** -/
theorem Legible.text_injective {r s : Expression} (hr : Legible r) (hs : Legible s)
    (h : r.text = s.text) : r = s := by
  have hlexemes : r.lexemes = s.lexemes := by
    rw [← Regex.ofBody_text hr.sound, ← Regex.ofBody_text hs.sound, h]
  have hread := Behind.readAll_lexemes hr.wellFormed_blank .done []
  rw [lexemes_blank, hlexemes, ← lexemes_blank, Behind.readAll_lexemes hs.wellFormed_blank,
    Regex.append_done, Regex.append_done] at hread
  have hblank : blank s = blank r := by simpa using hread
  exact eq_of_blank_eq hblank.symm hlexemes

/-! ### Languages over given languages of the units -/

section Languages

variable (L : Matcher → Language Char)

/-- The language of the first alternative, and that of all others. -/
def languagesOver : Expression → Language Char × Language Char
  | .done => (1, 0)
  | .unit u q next =>
    (repeated q (L u) * (languagesOver next).1, (languagesOver next).2)
  | .group _ body q next =>
    (repeated q ((languagesOver body).1 + (languagesOver body).2) * (languagesOver next).1,
      (languagesOver next).2)
  | .bar next => (1, (languagesOver next).1 + (languagesOver next).2)

/-- The texts that an expression matches from end to end, when the units match what they are
    given to match. -/
def languageOver (r : Expression) : Language Char :=
  (languagesOver L r).1 + (languagesOver L r).2

theorem languageOver_language (D : Dialect) (r : Expression) :
    languageOver (Matcher.language D) r = language D r := by
  have hlanguages : languagesOver (Matcher.language D) r = languages D r := by
    induction r with
    | done => rfl
    | unit u q next ih => rw [languagesOver, languages, ih]
    | group g body q next ihb ihn => rw [languagesOver, languages, ihb, ihn]
    | bar next ih => rw [languagesOver, languages, ih]
  rw [languageOver, language, hlanguages]

theorem languageOver_unit (u : Matcher) (q : Option Quantifier) :
    languageOver L (.unit u q .done) = repeated q (L u) := by
  simp [languageOver, languagesOver]

theorem languageOver_group (g : Mark) (body : Expression) (q : Option Quantifier) :
    languageOver L (.group g body q .done) = repeated q (languageOver L body) := by
  simp [languageOver, languagesOver]

end Languages

/-! ### Optional expressions -/

/-- An item with one greedy question mark behind it. -/
def questioned : Expression → Expression
  | .unit u _ next => .unit u (some optional) next
  | .group g body _ next => .group g body (some optional) next
  | r => r

theorem languageOver_questioned (L : Matcher → Language Char) {item : Expression}
    (h : IsItem item) : languageOver L (questioned item) = 1 + languageOver L item := by
  cases h with
  | unit u =>
    rw [questioned, languageOver_unit, languageOver_unit]
    rfl
  | group g body =>
    rw [questioned, languageOver_group, languageOver_group]
    rfl

theorem Legible.questioned {item : Expression} (hitem : IsItem item) (h : Legible item) :
    Legible (questioned item) := by
  cases hitem with
  | unit u => exact ⟨⟨h.1.1, rfl⟩, trivial⟩
  | group g body => exact ⟨rfl, h.2⟩

/-- What is made optional is an item: the expression itself or a group around it. -/
theorem MakesOptional.exists_item {r s : Expression} (h : MakesOptional r s) :
    ∃ item, IsItem item ∧ s = Regular.questioned item ∧
      (item = r ∨ item = .group .nonCapturing r none .done) := by
  cases h with
  | unit u => exact ⟨_, .unit u, rfl, .inl rfl⟩
  | group g body => exact ⟨_, .group g body, rfl, .inl rfl⟩
  | wrapped => exact ⟨_, .group .nonCapturing r, rfl, .inr rfl⟩

/-- **An expression is made optional by one greedy question mark behind all of it**, and the text
    with the question mark cannot be taken apart in another way. -/
theorem makeOptional_whole {r : Expression} (hr : Legible r) (hbar : r ≠ .bar .done) :
    ∃ (e : String) (item : Expression),
      (Chain.makeOptional (String.ofList r.text)).outcome = .ok e ∧
        IsItem item ∧ (item = r ∨ item = .group .nonCapturing r none .done) ∧
        Legible (questioned item) ∧ (questioned item).text = e.toList ∧
        (∀ t, Legible t → t.text = e.toList → t = questioned item) ∧
        ∀ L, languageOver L item = languageOver L r ∧
          languageOver L (questioned item) = 1 + languageOver L r := by
  have htext : r.text = (String.ofList r.text).toList := String.toList_ofList.symm
  rcases exists_makesOptional hr.sound hbar htext with ⟨s, e, houtcome, hoptional, hs⟩
  rcases hoptional.exists_item with ⟨item, hitem, rfl, hsame⟩
  have hlegible : Legible item := by
    rcases hsame with rfl | rfl
    · exact hr
    · exact ⟨rfl, hr, trivial⟩
  have hlanguage : ∀ L, languageOver L item = languageOver L r := by
    intro L
    rcases hsame with rfl | rfl
    · rfl
    · rw [languageOver_group]
      rfl
  have hquestioned := hlegible.questioned hitem
  refine ⟨e, item, houtcome, hitem, hsame, hquestioned, hs, ?_, ?_⟩
  · intro t ht htext
    exact ht.text_injective hquestioned (htext.trans hs.symm)
  · intro L
    rw [languageOver_questioned L hitem, hlanguage]
    exact ⟨rfl, rfl⟩

/-- A lazy quantifier stays as it is, and so does a range that no character is in. -/
theorem makeOptional_whole_of_lazy :
    let r : Expression := .unit (.bracket ['z', '-', 'a']) (some ⟨.plus, .lazy⟩)
      (.group .capturing .done none .done)
    ∃ item, (Chain.makeOptional "[z-a]+?()").outcome = .ok "(?:[z-a]+?())?" ∧ IsItem item ∧
      (item = r ∨ item = .group .nonCapturing r none .done) ∧
      (questioned item).text = "(?:[z-a]+?())?".toList := by
  intro r
  have hcontent : FreeOf (· = ']') ['z', '-', 'a'] :=
    .of_forall (forall_mem_of_all (by decide))
  have hr : Legible r := ⟨⟨hcontent, rfl⟩, rfl, trivial, trivial⟩
  have hmade : (Chain.makeOptional (String.ofList r.text)).outcome =
      .ok "(?:[z-a]+?())?" := by decide +kernel
  rcases makeOptional_whole hr nofun with ⟨e, item, houtcome, hitem, hsame, -, htext, -, -⟩
  cases houtcome.symm.trans hmade
  exact ⟨item, hmade, hitem, hsame, htext⟩

end Regular

end RegexText
