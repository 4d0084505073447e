/-
  RegexText/Proofs/Conversion/Assertions.lean
  ===========================================
  **An assertion loses its quantifier.**

  The token of the closing parenthesis takes up the quantifier behind it, and the
  converter keeps no quantifier of an assertion: the target need not know what it
  means to repeat one.

  For a `+` this changes nothing, as the assertion has to hold anyway.  For a `*`
  it does.  The source matches whether the assertion holds or not, and the target
  only where it holds: `(?=b)*a` is found in `a`, and `(?=b)a` nowhere.

  The source is read in characters and the target in code units.  That makes no
  difference as long as no quantifier stands behind a character of two units, of
  which the target would repeat the second only.
-/
import RegexText.Proofs.Conversion.Delimited
import RegexText.Proofs.Conversion.Inert
import RegexText.Proofs.Target.Literal

namespace RegexText

open Text TokenStream Conversion

namespace Regular

/-! ### Legal literals -/

/-- Can a literal stand between two slashes and mean itself?  It is neither a slash nor the end of
    a line, and no sign without its backslash. -/
structure Literal.IsLegal (l : Literal Char) : Prop where
  symbol : if l.escaped then isPunctuation l.symbol = true
    else l.symbol ∉ '/' :: metacharacters ++ lineEnds
  times : ∀ t ∈ l.times, t.count.IsLegal

instance (l : Literal Char) : Decidable l.IsLegal :=
  decidable_of_iff _ ⟨fun h => ⟨h.1, h.2⟩, fun h => And.intro h.symbol h.times⟩

/-- Is an expression made of legal literals in one piece, without groups? -/
def OfLiterals (r : Literals Char) : Prop :=
  r.All (fun l q => l.IsLegal ∧ Target.IsWhole l ∧ q = none) fun _ _ => False

/-- What is written behind a literal is neither an escape nor a dot, and opens nothing. -/
theorem Literal.IsLegal.plain {l : Literal Char} (h : l.IsLegal) :
    ∀ c ∈ l.timesText, c ≠ '\\' ∧ c ≠ '.' ∧ ¬ (c = '[' ∨ c = '(' ∨ c = ')') ∧ c ≠ '/' := by
  have hdigit : ∀ d ∈ ['\\', '.', '[', '(', ')', '/'], d.isDigit = false ∧ d ∉ Count.signs :=
    forall_mem_of_all (by decide)
  intro c hc
  have hnot : c ∉ ['\\', '.', '[', '(', ')', '/'] := by
    intro hmem
    rcases Literal.forall_mem_timesText h.times c hc with hyes | hsign
    · exact Bool.false_ne_true ((hdigit c hmem).1.symm.trans hyes)
    · exact (hdigit c hmem).2 hsign
  simp only [List.mem_cons, List.not_mem_nil, or_false, not_or] at hnot ⊢
  rcases hnot with ⟨hbackslash, hdot, hbracket, hopening, hclosing, hslash⟩
  exact ⟨hbackslash, hdot, ⟨hbracket, hopening, hclosing⟩, hslash⟩

/-- A legal literal is written as a run that stands for itself. -/
theorem Literal.IsLegal.run {l : Literal Char} (h : l.IsLegal) :
    (Spelling.run l.text).Sound ∧ (Spelling.run l.text).Inert ∧ FreeOf (· = '/') l.text := by
  have hplain := h.plain
  have hpasses : Source.Passes l.timesText := .chars fun c hc => (hplain c hc).1
  have hexpands : ∀ dotAll, Source.Expands false dotAll l.timesText l.timesText :=
    fun _ => .chars fun c hc => ⟨(hplain c hc).1, (hplain c hc).2.1⟩
  have hopens : FreeOf (fun c => c = '[' ∨ c = '(' ∨ c = ')') l.timesText :=
    .of_forall fun c hc => ⟨(hplain c hc).1, (hplain c hc).2.2.1⟩
  have hslash : FreeOf (· = '/') l.timesText :=
    .of_forall fun c hc => ⟨(hplain c hc).1, (hplain c hc).2.2.2⟩
  have hsymbol := h.symbol
  cases hescaped : l.escaped with
  | true =>
    rw [if_pos hescaped] at hsymbol
    have htext : l.text = ['\\', l.symbol] ++ l.timesText := by simp [Literal.text, hescaped]
    have hinert := Spelling.inert_escape hsymbol
    rw [htext]
    exact ⟨⟨by simp, fresh_cons.2 (by decide), .pair _ hopens⟩,
      ⟨hinert.1.append hpasses, fun dotAll => (hinert.2 dotAll).append (hexpands dotAll)⟩,
      .pair _ hslash⟩
  | false =>
    rw [if_neg (by simp [hescaped])] at hsymbol
    have htext : l.text = [l.symbol] ++ l.timesText := by simp [Literal.text, hescaped]
    have hne : ∀ c ∈ metacharacters, l.symbol ≠ c := by
      rintro c hc rfl
      exact hsymbol (List.mem_append_left _ (List.mem_cons_of_mem _ hc))
    have hbackslash : l.symbol ≠ '\\' := hne _ (by decide)
    have hinert := Spelling.inert_char hbackslash (hne _ (by decide))
    rw [htext]
    refine ⟨⟨by simp, fresh_cons.2 ?_, .single hbackslash ?_ hopens⟩,
      ⟨hinert.1.append hpasses, fun dotAll => (hinert.2 dotAll).append (hexpands dotAll)⟩,
      .single hbackslash ?_ hslash⟩
    · exact ⟨hne _ (by decide), hne _ (by decide), hne _ (by decide)⟩
    · rintro (heq | heq | heq)
      · exact hne _ (by decide) heq
      · exact hne _ (by decide) heq
      · exact hne _ (by decide) heq
    · rintro heq
      exact hsymbol (List.mem_append_left _ (by simp [heq]))

/-! ### Dropping quantifiers -/

/-- A tree without the quantifiers of its groups. -/
def unquantified : Literals Char → Literals Char
  | .done => .done
  | .unit l q next => .unit l q (unquantified next)
  | .group g body _ next => .group g (unquantified body) none (unquantified next)
  | .bar next => .bar (unquantified next)

theorem unquantified_append (r s : Literals Char) :
    unquantified (r.append s) = (unquantified r).append (unquantified s) := by
  induction r with
  | done => rfl
  | unit l q next ih => exact congrArg _ ih
  | group g body q next _ ih => exact congrArg _ ih
  | bar next ih => exact congrArg _ ih

theorem OfLiterals.unquantified_eq {r : Literals Char} (hr : OfLiterals r) :
    unquantified r = r := by
  induction r with
  | done => rfl
  | unit l q next ih => exact congrArg _ (ih hr.2)
  | group g body q next _ _ => exact hr.1.elim
  | bar next ih => exact congrArg _ (ih hr)

theorem OfLiterals.depth_eq {r : Literals Char} (hr : OfLiterals r) : r.depth = 0 := by
  induction r with
  | done => rfl
  | unit l q next ih => exact ih hr.2
  | group g body q next _ _ => exact hr.1.elim
  | bar next ih => exact ih hr

/-! ### Literals and assertions -/

/-- Is a tree made of legal literals and of assertions whose tokens take up the whole
    quantifier? -/
def Asserting (r : Literals Char) : Prop :=
  r.All (fun l q => l.IsLegal ∧ q = none)
    fun g q => (∃ negated, g = .ahead negated) ∧ Quantifier.remaining q = []

theorem Asserting.sound {r : Literals Char} (hr : Asserting r) : r.Sound := by
  refine hr.imp (fun l _ hl => hl.1.run.1) ?_
  rintro _ _ ⟨⟨negated, rfl⟩, _⟩
  cases negated with
  | false => exact ⟨['?', '='], rfl, fun _ _ => rfl⟩
  | true => exact ⟨['?', '!'], rfl, fun _ _ => rfl⟩

theorem Asserting.freeOf_slash {r : Literals Char} (hr : Asserting r) :
    FreeOf (· = '/') r.text := by
  induction r with
  | done => exact .nil
  | unit l q next ih => exact (hr.1.1.run.2.2.append (Source.freeOf_quantifier q)).append (ih hr.2)
  | group g body q next ihb ihn =>
    rcases hr with ⟨⟨⟨negated, rfl⟩, _⟩, hbody, hnext⟩
    have hopening : FreeOf (· = '/') (Marks.opening (Look.ahead negated)) := by
      cases negated with
      | false => exact Source.freeOf_signs _ (by decide)
      | true => exact Source.freeOf_signs _ (by decide)
    have hclose : FreeOf (· = '/') (')' :: Quantifier.text q) :=
      .single (by decide) (by decide) (Source.freeOf_quantifier q)
    exact ((hopening.append (ihb hbody)).append hclose).append (ihn hnext)
  | bar next ih => exact .single (by decide) (by decide) (ih hr)

end Regular

/-! ### Conversion -/

namespace Source.Carries

open Regular

variable {dotAll : Bool} {groups : Groups} {kinds : List GroupKind} {ls : List Lexeme}
  {y : List Char} {final : Captures}

theorem ahead (negated : Bool)
    (h : Carries dotAll groups (.assertion .ahead negated :: kinds) ls y final) :
    Carries dotAll groups kinds
      (.opener (.assertion .ahead negated) (Marks.opening (Look.ahead negated)) :: ls)
      (Marks.opening (Look.ahead negated) ++ y) final := by
  refine token rfl ?_ rfl h
  intro pos
  cases negated with
  | false => rfl
  | true => rfl

/-- The end of an assertion keeps nothing of what its token takes up. -/
theorem ahead_closer (negated : Bool) (quantifiers : List Char)
    (h : Carries dotAll groups kinds ls y final) :
    Carries dotAll groups (.assertion .ahead negated :: kinds) (.closer quantifiers :: ls)
      (')' :: y) final := by
  refine token (x := [')']) rfl ?_ rfl h
  intro pos
  rfl

/-- **Literals stay, and assertions lose their quantifiers.** -/
theorem asserting {r : Literals Char} (hr : Asserting r)
    (h : Carries dotAll groups kinds ls y final) :
    Carries dotAll groups kinds (r.lexemes ++ ls) ((unquantified r).text ++ y) final := by
  induction r generalizing kinds ls y with
  | done => exact h
  | unit l q next ih =>
    have hrest := inert_run hr.1.1.run.2.1 q (ih hr.2 h)
    rw [Regex.lexemes, unquantified, Regex.text, List.append_assoc, List.append_assoc]
    exact hrest
  | group g body q next ihb ihn =>
    rcases hr with ⟨⟨⟨negated, rfl⟩, hq⟩, hbody, hnext⟩
    have hend := ahead_closer negated (Quantifier.absorbed q) (ihn hnext h)
    have hstart := ahead negated (ihb hbody hend)
    simpa [Regex.lexemes, unquantified, Regex.text, Marks.opener, Quantifier.text, hq] using hstart
  | bar next ih => exact (ih hr h).bar

end Source.Carries

/-! ### Whole patterns -/

theorem Regex.depth_append {U G : Type} (r s : Regex U G) :
    (r.append s).depth = max r.depth s.depth := by
  induction r with
  | done => simp [append, depth]
  | unit u q next ih => exact ih
  | group g body q next _ ih => rw [append, depth, depth, ih, max_assoc]
  | bar next ih => exact ih

namespace Regular

/-- **However assertions are nested, they lose their quantifiers and nothing else changes.** -/
theorem convertPattern_asserting {limit : Nat} {r : Literals Char} (hr : Asserting r)
    (hdepth : r.depth ≤ limit) :
    (convertPattern limit (String.ofList ('/' :: r.text ++ ['/']))).outcome =
      .ok ⟨String.ofList ('/' :: (unquantified r).text ++ ['/']), .empty⟩ := by
  have hcarries := Source.Carries.asserting hr
    (Source.Carries.nil : Source.Carries false [] [] _ _ _)
  rw [List.append_nil, List.append_nil] at hcarries
  have hnone : ∀ m ∈ ([] : List Char), m ∈ Source.modifiers := by simp
  rcases Regex.convert_of_carries hr.sound hdepth hr.freeOf_slash hnone hcarries with
    ⟨s, _, _, hparse, hconvert⟩
  exact Traced.outcome_bind_eq_ok_iff.2 ⟨_, hparse, hconvert⟩

section Guarded

variable {u v w : Literals Char} (hu : OfLiterals u) (hv : OfLiterals v) (hw : OfLiterals w)
  (negated : Bool)

include hu hv hw

theorem unquantified_guarded (q : Option Quantifier) :
    unquantified (guarded u v w negated q) = guarded u v w negated none := by
  rw [guarded, unquantified_append, unquantified, hu.unquantified_eq, hv.unquantified_eq,
    hw.unquantified_eq]
  rfl

theorem depth_guarded (q : Option Quantifier) : (guarded u v w negated q).depth = 1 := by
  rw [guarded, Regex.depth_append, Regex.depth, hu.depth_eq, hv.depth_eq, hw.depth_eq]
  rfl

theorem asserting_guarded {q : Option Quantifier} (hq : Quantifier.remaining q = []) :
    Asserting (guarded u v w negated q) := by
  have hlegal : ∀ {r : Literals Char}, OfLiterals r → Asserting r :=
    fun hr => hr.imp (fun _ _ hl => ⟨hl.1, hl.2.2⟩) fun _ _ hgroup => hgroup.elim
  exact (hlegal hu).append ⟨⟨⟨negated, rfl⟩, hq⟩, hlegal hv, hlegal hw⟩

theorem inPieces_guarded : Target.InPieces (guarded u v w negated none) := by
  have hpieces : ∀ {r : Literals Char}, OfLiterals r → Target.InPieces r :=
    fun hr => hr.imp (fun _ _ hl => hl.2) fun _ _ hgroup => hgroup.elim
  exact (hpieces hu).append ⟨⟨⟨negated, rfl⟩, rfl⟩, hpieces hv, hpieces hw⟩

theorem convertPattern_guarded {limit : Nat} (hlimit : 1 ≤ limit) {q : Option Quantifier}
    (hq : Quantifier.remaining q = []) :
    (convertPattern limit (String.ofList ('/' :: (u.text ++ Marks.opening (Look.ahead negated) ++
        v.text ++ ')' :: Quantifier.text q ++ w.text) ++ ['/']))).outcome =
      .ok ⟨String.ofList ('/' :: (u.text ++ Marks.opening (Look.ahead negated) ++
        v.text ++ [')'] ++ w.text) ++ ['/']), .empty⟩ := by
  have hdepth : (guarded u v w negated q).depth ≤ limit :=
    (depth_guarded hu hv hw negated q).trans_le hlimit
  have hconvert := convertPattern_asserting (asserting_guarded hu hv hw negated hq) hdepth
  rwa [unquantified_guarded hu hv hw, text_guarded, text_guarded] at hconvert

end Guarded

/-- **The assertion of an expression `u(?=v)+w` or `u(?=v)*w` loses its quantifier, and keeps
    its meaning where that was a `+`.**  Let `u`, `v` and `w` be literals, with quantifiers behind
    those of one code unit, and with bars; the assertion may be negated, and its quantifier
    possessive.  What the expression is converted to is read in code units.  It is found in the
    same texts if the assertion had a `+`.  If it had a `*`, then the source is found wherever
    `uw` is, and the target is found in some of these texts only. -/
theorem guarded_convertPattern {limit : Nat} (hlimit : 1 ≤ limit) {u v w : Literals Char}
    (hu : OfLiterals u) (hv : OfLiterals v) (hw : OfLiterals w) (negated : Bool)
    {m : Manner} (hm : m ≠ .lazy) :
    (∀ repetition ∈ [Repetition.plus, Repetition.star],
      (convertPattern limit (String.ofList ('/' :: (u.text ++ Marks.opening (Look.ahead negated) ++
          v.text ++ ')' :: Quantifier.text (some ⟨repetition, m⟩) ++ w.text) ++ ['/']))).outcome =
        .ok ⟨String.ofList ('/' :: (u.text ++ Marks.opening (Look.ahead negated) ++
          v.text ++ [')'] ++ w.text) ++ ['/']), .empty⟩) ∧
      ∃ target : Literals Nat,
        Target.unitText target = Target.units (u.text ++ Marks.opening (Look.ahead negated) ++
          v.text ++ [')'] ++ w.text) ∧
        target = Target.inUnits (guarded u v w negated none) ∧
        ∀ subject,
          (Finds Literal.language (guarded u v w negated (some ⟨.plus, m⟩)) subject ↔
            Finds Literal.language target (Target.units subject)) ∧
          (Finds Literal.language (guarded u v w negated (some ⟨.star, m⟩)) subject ↔
            Finds Literal.language (u.append w) subject) ∧
          (Finds Literal.language target (Target.units subject) →
            Finds Literal.language (guarded u v w negated (some ⟨.star, m⟩)) subject) := by
  constructor
  · intro repetition hrepetition
    apply convertPattern_guarded hu hv hw negated hlimit
    -- a lazy mark alone would be left behind the assertion
    rcases List.mem_pair.1 hrepetition with rfl | rfl
    · cases m <;> first | rfl | exact absurd rfl hm
    · cases m <;> first | rfl | exact absurd rfl hm
  · refine ⟨_, ?_, rfl, ?_⟩
    · rw [Target.unitText_inUnits, text_guarded]
      rfl
    · intro subject
      have hunits := Target.finds_inUnits (inPieces_guarded hu hv hw negated) subject
      have hstar : Finds Literal.language (guarded u v w negated (some ⟨.star, m⟩)) subject ↔
          Finds Literal.language (u.append w) subject :=
        finds_congr (leavesOf_guarded_star u v w negated m)
      refine ⟨(finds_congr (leavesOf_guarded_plus u v w negated m)).trans hunits.symm, hstar, ?_⟩
      intro hfound
      exact hstar.2 (.of_le (leavesOf_guarded_le u v w negated) (hunits.1 hfound))

/-- The expression of one character. -/
def single (c : Char) (times : Option Times) : Literals Char := .unit ⟨c, false, times⟩ none .done

/-- In `a{1,2}?😀(?!b)++\/|c` a count in braces and a character of two units come before the
    assertion, and a slash behind it. -/
theorem guarded_convertPattern_plus :
    let u := (single 'a' (some ⟨.between ['1'] ['2'], true⟩)).append (single '😀' none)
    let v := single 'b' none
    let w : Literals Char := .unit ⟨'/', true, none⟩ none (.bar (single 'c' none))
    (convertPattern 1 "/a{1,2}?😀(?!b)++\\/|c/").outcome = .ok ⟨"/a{1,2}?😀(?!b)\\/|c/", .empty⟩ ∧
      ∀ subject,
        Finds Literal.language (guarded u v w true (some ⟨.plus, .possessive⟩)) subject ↔
          Finds Literal.language (Target.inUnits (guarded u v w true none))
            (Target.units subject) := by
  intro u v w
  have hu : OfLiterals u := ⟨⟨by decide, by decide, rfl⟩, ⟨by decide, by decide, rfl⟩, trivial⟩
  have hv : OfLiterals v := ⟨⟨by decide, by decide, rfl⟩, trivial⟩
  have hw : OfLiterals w := ⟨⟨by decide, by decide, rfl⟩, ⟨by decide, by decide, rfl⟩, trivial⟩
  rcases guarded_convertPattern (Nat.le_refl 1) hu hv hw true
    (by decide : Manner.possessive ≠ .lazy) with ⟨hconvert, target, -, rfl, hfinds⟩
  exact ⟨hconvert .plus (by decide), fun subject => (hfinds subject).1⟩

/-- `(?=b)*a` is found in `a`, but what it is converted to is found nowhere.  And `a😀*(?=b)+b` is
    found in `ab`, but for the target the star belongs to the second unit of the character alone,
    and the first is missing there. -/
theorem guarded_convertPattern_star :
    (let source := guarded .done (single 'b' none) (single 'a' none) false (some ⟨.star, .greedy⟩)
      let target := guarded .done (single 'b' none) (single 'a' none) false none
      source.text = "(?=b)*a".toList ∧ target.text = "(?=b)a".toList ∧
        (convertPattern 256 "/(?=b)*a/").outcome = .ok ⟨"/(?=b)a/", .empty⟩ ∧
        Finds Literal.language source ['a'] ∧
        ¬ Finds Literal.language (Target.inUnits target) (Target.units ['a'])) ∧
      (let u := (single 'a' none).append (single '😀' (some ⟨.star, false⟩))
        let source := guarded u (single 'b' none) (single 'b' none) false (some ⟨.plus, .greedy⟩)
        let target := guarded u (single 'b' none) (single 'b' none) false none
        source.text = "a😀*(?=b)+b".toList ∧ target.text = "a😀*(?=b)b".toList ∧
          (convertPattern 256 "/a😀*(?=b)+b/").outcome = .ok ⟨"/a😀*(?=b)b/", .empty⟩ ∧
          Finds Literal.language source ['a', 'b'] ∧
          ¬ Finds Literal.language (Target.inUnits target) (Target.units ['a', 'b'])) := by
  have hsource : ∀ (c : Char) (ds : List Char),
      takesOff (Literal.language ⟨c, false, none⟩) (c :: ds) ds :=
    fun c ds => ⟨[c], Literal.mem_language_once.2 rfl, rfl⟩
  have hahead : ∀ (c : Char) (ds : List Char), (Look.ahead false).enclosing (fun x y =>
      (leavesOf Literal.language (single c none)).1 x y ∨
        (leavesOf Literal.language (single c none)).2 x y) (c :: ds) (c :: ds) :=
    fun c ds => ⟨rfl, ds, .inl ⟨ds, hsource c ds, rfl⟩⟩
  constructor
  · intro source target
    refine ⟨by decide, by decide, by decide +kernel, ?_, ?_⟩
    · rw [finds_congr (leavesOf_guarded_star _ _ _ _ _)]
      exact ⟨[], ['a'], [], rfl, .inl ⟨[], hsource 'a' [], rfl⟩⟩
    · rintro ⟨front, x, z, hsubject, ⟨_, ⟨rfl, y, hfound | hnone⟩, _⟩ | hother⟩
      · -- the assertion wants a character that the text does not have
        rcases hfound with ⟨_, ⟨w, hw, rfl⟩, _⟩
        rw [Literal.mem_language_once.1 hw] at hsubject
        have hmem : 'b'.toNat ∈ Target.units ['a'] := by
          rw [hsubject]
          simp
        exact absurd hmem (by decide)
      · exact hnone
      · exact hother
  · intro u source target
    refine ⟨by decide, by decide, by decide +kernel, ?_, ?_⟩
    · rw [finds_congr (leavesOf_guarded_plus _ _ _ _ _)]
      have hnone : takesOff (Literal.language ⟨'😀', false, some ⟨.star, false⟩⟩) ['b'] ['b'] :=
        ⟨[], ⟨0, trivial, rfl⟩, rfl⟩
      exact ⟨[], ['a', 'b'], [], rfl, .inl ⟨_, hsource 'a' ['b'], _, hnone, _, hahead 'b' [], _,
        hsource 'b' [], rfl⟩⟩
    · rintro ⟨front, x, z, hsubject, ⟨_, ⟨w, hw, rfl⟩, _, ⟨w', hw', rfl⟩, _⟩ | hother⟩
      · -- the first unit of the character has to be there
        rw [Literal.mem_language_once.1 hw'] at hsubject
        have hmem : 0xD83D ∈ Target.units ['a', 'b'] := by
          rw [hsubject]
          simp
        exact absurd hmem (by decide)
      · exact hother

end Regular

end RegexText
