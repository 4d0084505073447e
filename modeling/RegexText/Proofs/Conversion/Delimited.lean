/-
  RegexText/Proofs/Conversion/Delimited.lean
  ==========================================
  **What stands between the slashes of a converted pattern.**

  The target dialect finds the end of a pattern by itself.  It stops at the
  first slash that is neither escaped nor between brackets, and takes no pattern
  that is empty, that goes over the end of a line, or that begins with a star as
  a comment does.

  The converter looks after the slashes.  The rest it leaves as it is: nothing
  that is written for a piece of a pattern is empty, begins with a star or ends a
  line unless the piece does, so a converted body does so exactly if the body of
  the pattern does.
-/
import RegexText.Proofs.Conversion.Written
import RegexText.Proofs.Lexeme.Opener

namespace RegexText

open Text

namespace Conversion

open CategoryEscape Lexeme TokenStream

variable {inClass dotAll : Bool} {captures final : Captures} {kinds : List GroupKind}
  {ls : List Lexeme} {x x' y y' : List Char}

/-! ### Texts of a pattern -/

/-- The characters that end a line in the target dialect. -/
def lineEnds : List Char := ['\n', '\r', '\u2028', '\u2029']

/-- Are two texts alike in what may keep them from standing between two slashes? -/
structure SameBounds (x y : List Char) : Prop where
  nil_iff : y = [] ↔ x = []
  star_iff : y.head? = some '*' ↔ x.head? = some '*'
  lineEnd_iff : ∀ c ∈ lineEnds, c ∈ y ↔ c ∈ x

/-- Is there nothing in a text that may keep it from standing between two slashes? -/
structure Quiet (x : List Char) : Prop where
  ne_nil : x ≠ []
  star : x.head? ≠ some '*'
  lineEnd : ∀ c ∈ x, c ∉ lineEnds

namespace SameBounds

theorem refl (x : List Char) : SameBounds x x := ⟨Iff.rfl, Iff.rfl, fun _ _ => Iff.rfl⟩

theorem append (h : SameBounds x y) (h' : SameBounds x' y') :
    SameBounds (x ++ x') (y ++ y') where
  nil_iff := by rw [List.append_eq_nil_iff, List.append_eq_nil_iff, h.nil_iff, h'.nil_iff]
  star_iff := by
    cases x with
    | nil =>
      rw [h.nil_iff.2 rfl]
      exact h'.star_iff
    | cons c cs =>
      cases y with
      | nil => exact absurd (h.nil_iff.1 rfl) (by simp)
      | cons d ds => exact h.star_iff
  lineEnd_iff := by
    intro c hc
    rw [List.mem_append, List.mem_append, h.lineEnd_iff c hc, h'.lineEnd_iff c hc]

theorem trans {z : List Char} (h : SameBounds x y) (h' : SameBounds y z) : SameBounds x z where
  nil_iff := h'.nil_iff.trans h.nil_iff
  star_iff := h'.star_iff.trans h.star_iff
  lineEnd_iff := fun c hc => (h'.lineEnd_iff c hc).trans (h.lineEnd_iff c hc)

theorem of_quiet (hx : Quiet x) (hy : Quiet y) : SameBounds x y where
  nil_iff := iff_of_false hy.ne_nil hx.ne_nil
  star_iff := iff_of_false hy.star hx.star
  lineEnd_iff := fun c hc =>
    iff_of_false (fun hmem => hy.lineEnd c hmem hc) (fun hmem => hx.lineEnd c hmem hc)

end SameBounds

theorem Quiet.cons {c : Char} {cs : List Char} (hc : c ≠ '*' ∧ c ∉ lineEnds)
    (hcs : ∀ d ∈ cs, d ∉ lineEnds) : Quiet (c :: cs) where
  ne_nil := by simp
  star := by simpa using hc.1
  lineEnd := List.forall_mem_cons.2 ⟨hc.2, hcs⟩

/-! ### Characters that end no line -/

theorem not_lineEnd_of_apply {p : Char → Bool} {c : Char} (hc : p c = true)
    (hp : (lineEnds.any p) = false) : c ∉ lineEnds := by
  intro hmem
  exact List.any_eq_false.1 hp c hmem hc

theorem Spelled.not_lineEnd {tail : List Char} (h : Spelled tail) : ∀ c ∈ tail, c ∉ lineEnds := by
  intro c hc
  rcases h.chars c hc with rfl | hspelling
  · decide
  · exact not_lineEnd_of_apply hspelling (by decide)

theorem not_lineEnd_of_isRepeat {quantifiers : List Char}
    (h : ∀ c ∈ quantifiers, isRepeat c = true) : ∀ c ∈ quantifiers, c ∉ lineEnds :=
  fun c hc => not_lineEnd_of_apply (h c hc) (by decide)

theorem not_lineEnd_unitText (unit : Nat) : ∀ c ∈ unitText unit, c ∉ lineEnds := by
  have halnum : ∀ {c : Char}, c.isAlphanum = true → c ∉ lineEnds := fun hc =>
    not_lineEnd_of_apply hc (by decide)
  unfold unitText
  simp only
  split
  · rename_i hplain
    exact List.forall_mem_singleton.2 (halnum hplain.2)
  · exact List.forall_mem_cons.2 ⟨by decide, List.forall_mem_cons.2 ⟨by decide, fun c hc =>
      halnum (Source.isAlphanum_of_mem_paddedUpperHex hc)⟩⟩

theorem not_lineEnd_rangesText (ranges : List UnitRange) :
    ∀ c ∈ rangesText ranges, c ∉ lineEnds := by
  intro c hc
  obtain ⟨range, _, hmem⟩ := List.mem_flatMap.1 hc
  unfold rangeText at hmem
  split at hmem
  · exact not_lineEnd_unitText _ c hmem
  · split at hmem
    · rcases List.mem_append.1 hmem with hfirst | hlast
      · exact not_lineEnd_unitText _ c hfirst
      · exact not_lineEnd_unitText _ c hlast
    · rcases List.mem_append.1 hmem with hfirst | hlast
      · exact not_lineEnd_unitText _ c hfirst
      · rcases List.mem_cons.1 hlast with rfl | hlast
        · decide
        · exact not_lineEnd_unitText _ c hlast

theorem not_lineEnd_expanded (escape : Escape) (inClass : Bool) :
    ∀ c ∈ escape.expanded inClass, c ∉ lineEnds := by
  have hranges := not_lineEnd_rangesText (unitRanges escape.categories false)
  have hclose : ∀ c ∈ [']'], c ∉ lineEnds := forall_mem_of_all (by decide)
  unfold Escape.expanded
  split
  · exact not_lineEnd_rangesText _
  · split
    · exact List.forall_mem_append.2 ⟨List.forall_mem_cons.2 ⟨by decide,
        List.forall_mem_cons.2 ⟨by decide, hranges⟩⟩, hclose⟩
    · exact List.forall_mem_append.2 ⟨List.forall_mem_cons.2 ⟨by decide, hranges⟩, hclose⟩

theorem quiet_numbered (number : Nat) (behind : List Char) :
    Quiet (Backreference.numbered number behind) := by
  have hdigits : ∀ c ∈ Nat.toDigits 10 number, c ∉ lineEnds := fun c hc =>
    not_lineEnd_of_apply (Nat.isDigit_of_mem_toDigits (by decide) (by decide) hc) (by decide)
  rw [Source.Rewrites.numbered_eq]
  split
  · have hclose : ∀ c ∈ [')'], c ∉ lineEnds := forall_mem_of_all (by decide)
    refine .cons (by decide) (List.forall_mem_append.2 ⟨?_, hclose⟩)
    exact List.forall_mem_cons.2 ⟨by decide, List.forall_mem_cons.2 ⟨by decide,
      List.forall_mem_cons.2 ⟨by decide, hdigits⟩⟩⟩
  · exact .cons (by decide) hdigits

/-! ### Literal text -/

/-- Texts without line ends, put in front of others, make no difference to these. -/
theorem lineEnd_append_iff {a b : List Char} {c : Char} (hc : c ∈ lineEnds)
    (ha : ∀ d ∈ a, d ∉ lineEnds) (hb : ∀ d ∈ b, d ∉ lineEnds) (h : c ∈ y ↔ c ∈ x) :
    c ∈ b ++ y ↔ c ∈ a ++ x := by
  rw [List.mem_append, List.mem_append, h]
  exact or_congr_left (iff_of_false (fun hmem => hb c hmem hc) fun hmem => ha c hmem hc)

theorem Spelled.not_lineEnd_escape {letter : Char} {tail : List Char} (h : Spelled tail)
    (hletter : letter ∉ lineEnds) : ∀ c ∈ '\\' :: letter :: tail, c ∉ lineEnds :=
  List.forall_mem_cons.2 ⟨by decide, List.forall_mem_cons.2 ⟨hletter, h.not_lineEnd⟩⟩

theorem Written.lineEnd_iff (h : Written inClass dotAll x y) :
    ∀ c ∈ lineEnds, c ∈ y ↔ c ∈ x := by
  intro c hc
  induction h with
  | nil => exact Iff.rfl
  | lone => exact Iff.rfl
  | @char d x y _ _ ih =>
    split
    · rename_i hdot
      subst hdot
      have hdots : ∀ c ∈ dotText dotAll, c ∉ lineEnds := by
        cases dotAll with
        | false => exact forall_mem_of_all (by decide)
        | true => exact forall_mem_of_all (by decide)
      exact lineEnd_append_iff (a := ['.']) hc (forall_mem_of_all (by decide)) hdots ih
    · rw [List.singleton_append, List.mem_cons, List.mem_cons, ih]
  | pair d _ ih => rw [List.mem_cons, List.mem_cons, List.mem_cons, List.mem_cons, ih]
  | category escape hletter htail _ ih =>
    refine lineEnd_append_iff hc (htail.not_lineEnd_escape ?_) (not_lineEnd_expanded escape _) ih
    rcases hletter with rfl | rfl <;> decide
  | reference number behind hletter htail _ ih =>
    refine lineEnd_append_iff hc (htail.not_lineEnd_escape ?_) (quiet_numbered number behind).3 ih
    rcases hletter with rfl | rfl <;> decide

/-- Outside of brackets something is written for each piece of a text, and a star only for a
    star. -/
theorem Written.sameBounds (h : Written false dotAll x y) : SameBounds x y := by
  refine ⟨?_, ?_, h.lineEnd_iff⟩
  · rcases h with _ | _ | _ | _ | @⟨_, _, _, _, escape, _, _, _⟩ | ⟨number, behind, _, _, _⟩
    · exact Iff.rfl
    · exact Iff.rfl
    · cases dotAll <;> split <;> simp [dotText]
    · simp
    · cases hnegated : escape.negated <;> simp [Escape.expanded, hnegated]
    · simp [(quiet_numbered number behind).ne_nil]
  · rcases h with _ | _ | @⟨c, _, _, _, _⟩ | _ | @⟨_, _, _, _, escape, _, _, _⟩ |
      @⟨_, _, _, y, number, behind, _, _, _⟩
    · exact Iff.rfl
    · exact Iff.rfl
    · cases dotAll <;> split <;> simp_all [dotText]
    · simp
    · cases hnegated : escape.negated <;> simp [Escape.expanded, hnegated]
    · have hquiet := quiet_numbered number behind
      cases hnumber : Backreference.numbered number behind with
      | nil => exact absurd hnumber hquiet.ne_nil
      | cons d ds =>
        have hstar := hquiet.star
        rw [hnumber] at hstar
        simpa using hstar

/-! ### Tokens and whole bodies -/

theorem quiet_opener {text : List Char} (h : OpenerText text) : Quiet text := by
  obtain ⟨inner, rfl, hinner⟩ := h.marks
  exact .cons (by decide) fun c hc => not_lineEnd_of_apply (hinner c hc) (by decide)

/-- What is written for a token is as quiet as the token, except for what a bracket expression
    holds. -/
theorem sameBounds_of_convertToken {l : Lexeme} {item : TokenItem} {pos : Nat}
    (hitem : itemFor? kinds l = some item) (hsafe : l.Safe fun _ => False)
    (hopener : ∀ opener text, l = .opener opener text → OpenerText text)
    (h : (convertToken ⟨pos, byteLength l.text, item⟩).outcome = .ok y) :
    SameBounds l.text y := by
  cases l with
  | bracket content quantifiers =>
    cases hitem
    obtain ⟨inner, hinner, hy⟩ := Traced.outcome_bind_eq_ok_iff.1 h
    cases hy
    rw [String.toList_ofList] at hinner ⊢
    have hquantifiers : ∀ c ∈ ']' :: quantifiers, c ∉ lineEnds :=
      List.forall_mem_cons.2 ⟨by decide, not_lineEnd_of_isRepeat hsafe.2⟩
    have hkept : ∀ c ∈ ']' :: quantifiers.take 1, c ∉ lineEnds :=
      List.forall_mem_cons.2 ⟨by decide, fun c hc =>
        not_lineEnd_of_isRepeat hsafe.2 c (List.mem_of_mem_take hc)⟩
    refine ⟨by simp [text], by simp [text], fun c hc => ?_⟩
    have hinside := (written_of_expand hinner).lineEnd_iff c hc
    have hbehind : c ∉ ']' :: quantifiers := fun hmem => hquantifiers c hmem hc
    have hbehind' : c ∉ ']' :: quantifiers.take 1 := fun hmem => hkept c hmem hc
    simp only [text, List.cons_append, List.mem_cons, List.mem_append] at hbehind hbehind' ⊢
    simp [hinside, hbehind, hbehind']
  | opener opener text =>
    cases hitem
    refine .of_quiet (quiet_opener (hopener opener text rfl)) ?_
    rcases convertOpener_eq_ok (convertToken_groupStart rfl h) with
      ⟨_, rfl⟩ | ⟨_, rfl⟩ | ⟨negated, _, rfl⟩
    · exact .cons (by decide) (forall_mem_of_all (by decide))
    · exact .cons (by decide) (forall_mem_of_all (by decide))
    · cases negated with
      | false => exact .cons (by decide) (forall_mem_of_all (by decide))
      | true => exact .cons (by decide) (forall_mem_of_all (by decide))
  | closer quantifiers =>
    obtain ⟨kind, _, rfl⟩ := Option.map_eq_some_iff.1 hitem
    cases h
    rw [String.toList_ofList]
    have hquantifiers := not_lineEnd_of_isRepeat hsafe
    refine .of_quiet (.cons (by decide) hquantifiers) (.cons (by decide) ?_)
    split
    · simp
    · exact fun c hc => hquantifiers c (List.mem_of_mem_take hc)
  | optionSetting options =>
    cases hitem
    cases h
  | _ => cases hitem

/-- **A converted body is as quiet as the body.** -/
theorem Converts.sameBounds (h : Converts dotAll captures kinds ls y final)
    (hsafe : ∀ l ∈ ls, l.Safe fun _ => False)
    (hopener : ∀ opener text, .opener opener text ∈ ls → OpenerText text) :
    SameBounds (ls.flatMap Lexeme.text) y := by
  induction h with
  | literal _ hx => exact (written_of_convertLiteral hx).sameBounds
  | @token _ _ _ lits ls l item pos x y z _ hx hitem hy _ ih =>
    obtain ⟨_, hsafelater⟩ := List.forall_mem_append.1 hsafe
    obtain ⟨hsafel, hsafels⟩ := List.forall_mem_cons.1 hsafelater
    have htoken := sameBounds_of_convertToken hitem hsafel
      (fun opener text heq => hopener opener text (by simp [heq])) hy
    have hlater := ih hsafels fun opener text hmem => hopener opener text (by simp [hmem])
    rw [List.flatMap_append, List.flatMap_cons, List.append_assoc]
    exact (written_of_convertLiteral hx).sameBounds.append (htoken.append hlater)

/-- Escaping slashes leaves the bounds of a text as they are. -/
theorem sameBounds_protect (h : Complete x) : SameBounds x (protect '/' x) := by
  induction h with
  | nil => exact .refl []
  | pair c _ ih => exact (SameBounds.refl ['\\', c]).append ih
  | @single c cs hc _ _ ih =>
    rw [protect_single hc]
    refine SameBounds.append (x := [c]) ?_ ih
    split
    · rename_i hslash
      rw [hslash]
      have hslashes : ∀ c ∈ ['/'], c ∉ lineEnds := forall_mem_of_all (by decide)
      exact .of_quiet (.cons (by decide) (by simp)) (.cons (by decide) hslashes)
    · exact .refl [c]

end Conversion

/-! ### Whole patterns -/

open Conversion in
/-- **What is written for a pattern.**  It stands between two slashes, without an unescaped slash
    of its own and without ending inside an escape, and behind it come distinct letters that the
    target knows.  It is empty, begins with a star or goes over the end of a line exactly if the
    body of the pattern does. -/
theorem delimited_convertPattern {limit : Nat} {pattern : String} {t : Converted}
    (h : (convertPattern limit pattern).outcome = .ok t) :
    ∃ p body flags, (Pattern.parse limit pattern).outcome = .ok p ∧
      t.pattern = String.ofList ('/' :: body ++ '/' :: flags) ∧ flags.Nodup ∧
      (∀ m ∈ flags, m ∈ ['i', 'm']) ∧ FreeOf (· = '/') body ∧
      SameBounds p.body.toList body := by
  obtain ⟨p, hparse, hconvert⟩ := Traced.outcome_bind_eq_ok_iff.1 h
  obtain ⟨flags, text, body, captures, hpattern, hflags, hconverts, hbody, hfree, hcomplete, _⟩ :=
    Pattern.exists_written hparse hconvert
  obtain ⟨hdistinct, hkept⟩ := distinct_of_convertModifiers hflags List.nodup_nil (by simp)
  have hsame := hconverts.sameBounds
    (fun _ => Lexeme.safe_of_mem_ofBody (Pattern.freeOf_of_parse hparse).complete)
    fun _ _ => Lexeme.openerText_of_mem_ofBody
  rw [Lexeme.flatMap_text_ofBody] at hsame
  refine ⟨p, body, flags, hparse, hpattern, hdistinct, hkept, hfree, ?_⟩
  rcases hbody with rfl | rfl
  · exact hsame
  · exact hsame.trans (sameBounds_protect hcomplete)

/-- Slashes between other delimiters, one of them between brackets, and modifiers in an order of
    their own. -/
theorem delimited_convertPattern_slashes :
    (convertPattern 1 "#a/ (.[/])+*#msixm").outcome = .ok ⟨"/a\\/([\\s\\S][\\/])+/mi", ⟨[]⟩⟩ ∧
      ∃ p body flags, (Pattern.parse 1 "#a/ (.[/])+*#msixm").outcome = .ok p ∧
        "/a\\/([\\s\\S][\\/])+/mi" = String.ofList ('/' :: body ++ '/' :: flags) ∧ flags.Nodup ∧
        (∀ m ∈ flags, m ∈ ['i', 'm']) ∧ FreeOf (· = '/') body ∧
        Conversion.SameBounds p.body.toList body := by
  have h : (convertPattern 1 "#a/ (.[/])+*#msixm").outcome =
      .ok ⟨"/a\\/([\\s\\S][\\/])+/mi", ⟨[]⟩⟩ := by decide +kernel
  exact ⟨h, delimited_convertPattern h⟩

/-- Nothing is written between the slashes for an empty body, which begins a comment. -/
theorem delimited_convertPattern_empty :
    (convertPattern 256 "~~").outcome = .ok ⟨"//", ⟨[]⟩⟩ ∧
      ∀ body flags, "//" = String.ofList ('/' :: body ++ '/' :: flags) → body = [] := by
  refine ⟨by decide +kernel, ?_⟩
  intro body flags h
  have hlength : 2 = ('/' :: body ++ '/' :: flags).length := by
    rw [← String.toList_ofList (l := '/' :: body ++ '/' :: flags), ← h]
    rfl
  rw [List.length_append, List.length_cons, List.length_cons] at hlength
  exact List.length_eq_zero_iff.1 (by omega)

/-- The end of a line is copied, and so is a star in front. -/
example : (convertPattern 0 "/*\n/").outcome = .ok ⟨"/*\n/", ⟨[]⟩⟩ := by decide +kernel

end RegexText
