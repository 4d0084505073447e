/-
  RegexText/Proofs/Conversion/Decimals.lean
  =========================================
  **What becomes of numeric escapes.**

  A numeric escape is as long as digits follow, so it depends on what stands behind
  it.  The converter copies numeric escapes and takes care that none grows: what it
  writes in place of something else never begins with a digit.

  Stripping an extended body does not take such care.  An escape that is followed by
  white space or a comment and then by a digit swallows the digit, and the number
  that reaches the target is another one.  Escapes that are not parted from a digit
  in this way keep their numbers (`decimals_stripExtended`).
-/
import RegexText.Proofs.Conversion.Possessive
import RegexText.Proofs.Pattern.Extended
import RegexText.Proofs.Pattern.Delimiters
import RegexText.Proofs.Piece.Decimal

namespace RegexText

open Text

/-! ### Two bodies side by side -/

namespace Piece

variable {p : Piece} {as bs ps qs : List Piece} {cs : List Char}

/-- Are the numbers of some pieces among those of others, in their order, and would a number in
    front of either go on in the same way? -/
structure Upheld (ps qs : List Piece) : Prop where
  digits : leadingDigits ps = leadingDigits qs
  decimals : (decimals ps).Sublist (decimals qs)

theorem not_isDecimal_of_mem_map (cs : List Char) : ∀ p ∈ cs.map Piece.char, ¬ IsDecimal p := by
  intro p hp
  obtain ⟨c, _, rfl⟩ := List.mem_map.1 hp
  rintro ⟨d, heq, _⟩
  cases heq

theorem leadingDigits_ofBody (h : ∃ c ∈ cs.head?, c.isDigit = false) :
    leadingDigits (ofBody false cs) = [] := by
  obtain ⟨c, hc, hdigit⟩ := h
  by_contra hne
  obtain ⟨d, qs, hbody, hd⟩ := leadingDigits_ne_nil_iff.1 hne
  have hhead : cs.head? = some d := head?_of_head?_ofBody (by rw [hbody]; rfl)
  rw [hhead] at hc
  cases hc
  rw [hdigit] at hd
  cases hd

/-- A text that leaves no bracket open is cut apart from what comes behind it. -/
theorem ofBody_append {x : List Char} (h : Lexeme.Outside x) (y : List Char) :
    ofBody false (x ++ y) = ofBody false x ++ ofBody false y := by
  induction h with
  | nil => rw [ofBody_nil, List.nil_append, List.nil_append]
  | pair c _ ih =>
    simp only [List.cons_append]
    rw [ofBody_escape, ofBody_escape, ih, List.cons_append]
  | @bracket content cs hcontent _ ih =>
    have hsplit : '[' :: content ++ ']' :: cs ++ y = '[' :: content ++ ']' :: (cs ++ y) := by
      simp
    rw [hsplit, ofBody_bracket hcontent, ofBody_bracket hcontent, ih, List.cons_append]
  | single hc hbracket _ ih =>
    rw [List.cons_append, ofBody_char ⟨hc, hbracket⟩ (by simp),
      ofBody_char ⟨hc, hbracket⟩ (by simp), ih, List.cons_append]

namespace Upheld

theorem nil : Upheld [] [] := ⟨rfl, List.Sublist.refl _⟩

/-- A piece that is copied keeps its number, if it begins one. -/
theorem piece (p : Piece) (h : Upheld ps qs) : Upheld (p :: ps) (p :: qs) := by
  constructor
  · by_cases hp : IsDigit p
    · obtain ⟨c, rfl, hc⟩ := hp
      rw [leadingDigits_digit hc, leadingDigits_digit hc, h.digits]
    · rw [leadingDigits_of_not hp, leadingDigits_of_not hp]
  · by_cases hp : IsDecimal p
    · obtain ⟨c, rfl, hc⟩ := hp
      rw [decimals_decimal hc, decimals_decimal hc, h.digits]
      exact h.decimals.cons_cons _
    · rw [decimals_of_not hp, decimals_of_not hp]
      exact h.decimals

/-- In place of pieces without a number anything can be written, if no digit is in front. -/
theorem instead (as bs : List Piece) (has : ∀ p ∈ as, ¬ IsDecimal p)
    (hfront : leadingDigits (as ++ ps) = []) (hfront' : leadingDigits (bs ++ qs) = [])
    (h : Upheld ps qs) : Upheld (as ++ ps) (bs ++ qs) where
  digits := hfront.trans hfront'.symm
  decimals := by
    rw [decimals_append_of_forall has]
    exact h.decimals.trans (sublist_decimals_append bs qs)

end Upheld

/-- A slash is no part of a number, and what becomes of one is none, either. -/
theorem shielded_cases (p : Piece) : Conversion.shielded p = p ∨
    ¬ IsDigit p ∧ ¬ IsDigit (Conversion.shielded p) ∧
      ¬ IsDecimal p ∧ ¬ IsDecimal (Conversion.shielded p) := by
  unfold Conversion.shielded
  split
  · right
    refine ⟨?_, ?_, ?_, ?_⟩ <;> (rintro ⟨c, heq, hc⟩; cases heq) <;> cases hc
  · right
    refine ⟨?_, ?_, ?_, ?_⟩ <;> (rintro ⟨c, heq, _⟩; cases heq)
  · exact .inl rfl

theorem leadingDigits_map_shielded (ps : List Piece) :
    leadingDigits (ps.map Conversion.shielded) = leadingDigits ps := by
  induction ps with
  | nil => rfl
  | cons p ps ih =>
    rw [List.map_cons]
    rcases shielded_cases p with hsame | ⟨hp, hp', _, _⟩
    · rw [hsame]
      by_cases hp : IsDigit p
      · obtain ⟨c, rfl, hc⟩ := hp
        rw [leadingDigits_digit hc, leadingDigits_digit hc, ih]
      · rw [leadingDigits_of_not hp, leadingDigits_of_not hp]
    · rw [leadingDigits_of_not hp, leadingDigits_of_not hp']

theorem decimals_map_shielded (ps : List Piece) :
    decimals (ps.map Conversion.shielded) = decimals ps := by
  induction ps with
  | nil => rfl
  | cons p ps ih =>
    rw [List.map_cons]
    rcases shielded_cases p with hsame | ⟨_, _, hp, hp'⟩
    · rw [hsame]
      by_cases hp : IsDecimal p
      · obtain ⟨c, rfl, hc⟩ := hp
        rw [decimals_decimal hc, decimals_decimal hc, leadingDigits_map_shielded, ih]
      · rw [decimals_of_not hp, decimals_of_not hp, ih]
    · rw [decimals_of_not hp, decimals_of_not hp', ih]

end Piece

namespace Conversion

open CategoryEscape Lexeme TokenStream Piece

variable {dotAll : Bool} {captures final : Captures} {kinds : List GroupKind}
  {ls : List Lexeme} {x y z w : List Char}

/-! ### Literal text -/

theorem upheld_dotText {ps : List Piece} (h : Upheld ps (Piece.ofBody false w)) :
    Upheld (.char '.' :: ps) (Piece.ofBody false (dotText dotAll ++ w)) := by
  cases dotAll with
  | true =>
    have hcontent : FreeOf (· = ']') ['\\', 's', '\\', 'S'] := .pair 's' (.pair 'S' .nil)
    change Upheld _ (Piece.ofBody false ('[' :: ['\\', 's', '\\', 'S'] ++ ']' :: w))
    rw [Piece.ofBody_bracket hcontent]
    exact .instead [.char '.'] [_] (not_isDecimal_of_mem_map ['.']) rfl rfl h
  | false =>
    change Upheld _ (Piece.ofBody false ('.' :: w))
    rw [Piece.ofBody_char (by decide) (by simp)]
    exact h.piece _

/-- An escape that is no number, with what spells it. -/
theorem not_isDecimal_of_spelled {letter : Char} (hletter : letter.isDigit = false)
    (tail : List Char) : ∀ p ∈ Piece.escape letter :: tail.map .char, ¬ IsDecimal p := by
  refine List.forall_mem_cons.2 ⟨?_, not_isDecimal_of_mem_map tail⟩
  rintro ⟨d, heq, hd⟩
  cases heq
  rw [hletter] at hd
  cases hd

theorem head?_numbered (number : Nat) (behind w : List Char) :
    ∃ c ∈ (Backreference.numbered number behind ++ w).head?, c.isDigit = false := by
  rw [Source.Rewrites.numbered_eq]
  split
  · exact ⟨'(', rfl, rfl⟩
  · exact ⟨'\\', rfl, rfl⟩

/-- **Literal text keeps its numbers.** -/
theorem Written.upheld (h : Written false dotAll x y) (hx : Plain (fun _ => False) x)
    (hz : Upheld (Piece.ofBody false z) (Piece.ofBody false w)) :
    Upheld (Piece.ofBody false (x ++ z)) (Piece.ofBody false (y ++ w)) := by
  induction h with
  | nil => exact hz
  | lone =>
    rcases hx with _ | _ | ⟨hc, _, _⟩
    exact absurd rfl hc
  | @char c x y hc _ ih =>
    obtain ⟨hno, hrest⟩ := hx.of_single hc
    have hlater := ih hrest
    simp only [false_or, not_or] at hno
    rw [List.cons_append, List.append_assoc, Piece.ofBody_char ⟨hc, hno.1⟩ (by simp)]
    split
    · rename_i hdot
      rw [hdot]
      exact upheld_dotText hlater
    · rw [List.singleton_append, Piece.ofBody_char ⟨hc, hno.1⟩ (by simp)]
      exact hlater.piece _
  | pair c _ ih =>
    simp only [List.cons_append]
    rw [Piece.ofBody_escape, Piece.ofBody_escape]
    exact (ih hx.of_pair).piece _
  | @category letter tail x y escape hletter htail _ ih =>
    have hrest := FreeOf.of_append (complete_of_forall htail.ne_backslash) hx.of_pair
    have hno : letter.isDigit = false := by rcases hletter with rfl | rfl <;> rfl
    obtain ⟨content, hcontent⟩ := ofBody_expanded escape (y ++ w)
    rw [List.append_assoc, List.append_assoc, htail.ofBody_append, hcontent]
    exact .instead _ [.bracket content] (not_isDecimal_of_spelled hno tail) rfl rfl (ih hrest.2)
  | @reference letter tail x y number behind hletter htail _ ih =>
    have hrest := FreeOf.of_append (complete_of_forall htail.ne_backslash) hx.of_pair
    have hno : letter.isDigit = false := by rcases hletter with rfl | rfl <;> rfl
    obtain ⟨bs, _, hbs⟩ := exists_settled_numbered number behind (y ++ w)
    have hfront := leadingDigits_ofBody (head?_numbered number behind (y ++ w))
    rw [List.append_assoc, List.append_assoc, htail.ofBody_append, hbs]
    rw [hbs] at hfront
    exact .instead _ _ (not_isDecimal_of_spelled hno tail) rfl hfront (ih hrest.2)

/-! ### Tokens and whole bodies -/

/-- **A token is written without a digit in front, and holds no number.** -/
theorem upheld_of_convertToken {l : Lexeme} {item : TokenItem} {pos : Nat} {ps : List Piece}
    (hitem : itemFor? kinds l = some item) (hsafe : l.Safe fun _ => False)
    (hopener : ∀ opener text, l = .opener opener text → OpenerText text)
    (h : (convertToken ⟨pos, byteLength l.text, item⟩).outcome = .ok y)
    (hz : Upheld ps (Piece.ofBody false w)) :
    Upheld (l.pieces ++ ps) (Piece.ofBody false (y ++ w)) := by
  obtain ⟨_, _, hrendered⟩ :=
    rendered_of_convertToken (z := []) (fun _ => False.elim) hitem hsafe h (by simp) .nil .nil
  rw [List.append_nil] at hrendered
  have hsplit := ofBody_append hrendered.outside w
  have hwritten : (∃ c ∈ y.head?, c.isDigit = false) →
      leadingDigits (Piece.ofBody false y ++ Piece.ofBody false w) = [] := by
    rintro ⟨c, hc, hdigit⟩
    rw [← hsplit]
    refine leadingDigits_ofBody ⟨c, ?_, hdigit⟩
    rw [List.head?_append, Option.mem_def.1 hc]
    rfl
  rw [hsplit]
  cases l with
  | bracket content quantifiers =>
    cases hitem
    obtain ⟨inner, _, hy⟩ := Traced.outcome_bind_eq_ok_iff.1 h
    cases hy
    refine .instead _ _ (List.forall_mem_cons.2 ⟨?_, not_isDecimal_of_mem_map _⟩) rfl
      (hwritten ⟨'[', rfl, rfl⟩) hz
    rintro ⟨d, heq, _⟩
    cases heq
  | opener opener text =>
    cases hitem
    obtain ⟨inner, htext, _⟩ := (hopener opener text rfl).marks
    obtain ⟨inner', hy, _⟩ := (openerText_of_convertOpener (convertToken_groupStart rfl h)).marks
    refine .instead _ _ (not_isDecimal_of_mem_map _) ?_ (hwritten ⟨'(', by rw [hy]; rfl, rfl⟩) hz
    rw [pieces, htext]
    rfl
  | closer quantifiers =>
    obtain ⟨kind, _, rfl⟩ := Option.map_eq_some_iff.1 hitem
    cases h
    exact .instead _ _ (not_isDecimal_of_mem_map _) rfl (hwritten ⟨')', rfl, rfl⟩) hz
  | optionSetting options =>
    cases hitem
    cases h
  | _ => cases hitem

/-- **A converted body has the numbers of the body, and those of resolved references.** -/
theorem Converts.upheld (h : Converts dotAll captures kinds ls y final)
    (hsafe : ∀ l ∈ ls, l.Safe fun _ => False)
    (hopener : ∀ opener text, .opener opener text ∈ ls → OpenerText text)
    (hcut : Lexeme.ofBody (ls.flatMap Lexeme.text) = ls) :
    Upheld (Piece.ofBody false (ls.flatMap Lexeme.text)) (Piece.ofBody false y) := by
  induction h with
  | literal hlits hx =>
    have hwritten := (written_of_convertLiteral hx).upheld (z := []) (w := [])
      (plain_of_literal hlits hsafe)
    simp only [List.append_nil, Piece.ofBody_nil] at hwritten
    exact hwritten .nil
  | @token _ _ _ lits ls l item pos x y z hlits hx hitem hy _ ih =>
    obtain ⟨hsafelits, hsafelater⟩ := List.forall_mem_append.1 hsafe
    obtain ⟨hsafel, hsafels⟩ := List.forall_mem_cons.1 hsafelater
    have hcutl : Lexeme.ofBody ((l :: ls).flatMap Lexeme.text) = l :: ls :=
      ofBody_flatMap_text hcut
    have hcutsplit : Lexeme.ofBody (([l] ++ ls).flatMap Lexeme.text) = [l] ++ ls := hcutl
    have hcutls : Lexeme.ofBody (ls.flatMap Lexeme.text) = ls := ofBody_flatMap_text hcutsplit
    have hlater := ih hsafels (fun opener text hmem => hopener opener text (by simp [hmem])) hcutls
    have htoken := upheld_of_convertToken hitem hsafel
      (fun opener text heq => hopener opener text (by simp [heq])) hy hlater
    have hpieces : Piece.ofBody false ((l :: ls).flatMap Lexeme.text) =
        l.pieces ++ Piece.ofBody false (ls.flatMap Lexeme.text) := by
      rw [← flatMap_pieces_ofBody, hcutl, ← flatMap_pieces_ofBody, hcutls]
      rfl
    rw [← hpieces] at htoken
    rw [List.flatMap_append, List.append_assoc]
    exact (written_of_convertLiteral hx).upheld (plain_of_literal hlits hsafelits) htoken

end Conversion

/-! ### Whole patterns -/

namespace Pattern

/-- The numbers of a body are among those that are written for it. -/
theorem sublist_decimals_convert {limit : Nat} {pattern : String} {p : Pattern} {t : Converted}
    (hparse : (parse limit pattern).outcome = .ok p) (hconvert : p.convert.outcome = .ok t) :
    ∃ body flags, t.pattern = String.ofList ('/' :: body ++ '/' :: flags) ∧
      FreeOf (· = '/') body ∧
      (Piece.decimals (Piece.ofBody false p.body.toList)).Sublist
        (Piece.decimals (Piece.ofBody false body)) := by
  obtain ⟨flags, text, body, captures, hpattern, _, hconverts, hbody, hfree, _, houtside⟩ :=
    exists_written hparse hconvert
  have hupheld := hconverts.upheld
    (fun _ => Lexeme.safe_of_mem_ofBody (freeOf_of_parse hparse).complete)
    (fun _ _ => Lexeme.openerText_of_mem_ofBody) (by rw [Lexeme.flatMap_text_ofBody])
  rw [Lexeme.flatMap_text_ofBody] at hupheld
  refine ⟨body, flags, hpattern, hfree, ?_⟩
  rcases hbody with rfl | rfl
  · exact hupheld.decimals
  · rw [Conversion.ofBody_protect houtside, Piece.decimals_map_shielded]
    exact hupheld.decimals

/-- **What the modifier `x` does to the numeric escapes of a body.**  Each of them is the beginning
    of what it becomes, and all of them stay as they are exactly if none is parted from a digit by
    nothing but white space and comments.  What they have become is what the pattern is reported to
    have, and what reaches the target. -/
theorem decimals_stripExtended (raw : List Char) :
    List.Forall₂ (· <+: ·) (Piece.decimals (Piece.ofBody true raw))
      (Piece.decimals (Piece.ofBody false (stripExtended .ordinary raw))) ∧
    (Piece.decimals (Piece.ofBody false (stripExtended .ordinary raw)) =
      Piece.decimals (Piece.ofBody true raw) ↔ ¬ Piece.Parted (Piece.ofBody true raw)) ∧
    ∀ limit pattern d mods, Division pattern.toList d raw mods → 'x' ∈ mods →
      (∀ p, (parse limit pattern).outcome = .ok p →
        p.body.toList = stripExtended .ordinary raw) ∧
      ∀ t, (convertPattern limit pattern).outcome = .ok t → ∃ body flags,
        t.pattern = String.ofList ('/' :: body ++ '/' :: flags) ∧ FreeOf (· = '/') body ∧
        (Piece.decimals (Piece.ofBody false (stripExtended .ordinary raw))).Sublist
          (Piece.decimals (Piece.ofBody false body)) := by
  rw [Piece.ofBody_stripExtended]
  refine ⟨Piece.decimals_prefix_filter _, Piece.decimals_filter_eq_iff, ?_⟩
  intro limit pattern d mods hdivision hx
  have hbody : ∀ p, (parse limit pattern).outcome = .ok p →
      p.body.toList = stripExtended .ordinary raw := by
    intro p hparse
    obtain ⟨raw', mods', body, tokens, hsplit, hbody, _, hp⟩ := parse_eq_ok_iff.1 hparse
    obtain ⟨_, rfl, rfl⟩ := hdivision.unique (splitDelimiters_eq_ok_iff.1 hsplit)
    rw [hp, ← hbody, if_pos (List.contains_iff_mem.2 hx)]
    exact String.toList_ofList
  refine ⟨hbody, fun t hconvert => ?_⟩
  obtain ⟨p, hparse, hp⟩ := Traced.outcome_bind_eq_ok_iff.1 hconvert
  have hwritten := sublist_decimals_convert hparse hp
  rwa [hbody p hparse, Piece.ofBody_stripExtended] at hwritten

/-- A number before a letter, and a reference before a digit, with ignorable text between. -/
theorem decimals_stripExtended_apart :
    ¬ Piece.Parted (Piece.ofBody true "(a)\\1 b 2#3\n\\g{1} 4".toList) ∧
      (convertPattern 256 "/(a)\\1 b 2#3\n\\g{1} 4/x").outcome =
        .ok ⟨"/(a)\\1b2(?:\\1)4/", ⟨[]⟩⟩ ∧
      ∃ body flags, "/(a)\\1b2(?:\\1)4/" = String.ofList ('/' :: body ++ '/' :: flags) ∧
        FreeOf (· = '/') body ∧ [['1']].Sublist (Piece.decimals (Piece.ofBody false body)) := by
  obtain ⟨_, hparted, hpatterns⟩ :=
    decimals_stripExtended "(a)\\1 b 2#3\n\\g{1} 4".toList
  have hconvert : (convertPattern 256 "/(a)\\1 b 2#3\n\\g{1} 4/x").outcome =
      .ok ⟨"/(a)\\1b2(?:\\1)4/", ⟨[]⟩⟩ := by
    decide +kernel
  have hnumbers : Piece.decimals (Piece.ofBody false
      (stripExtended .ordinary "(a)\\1 b 2#3\n\\g{1} 4".toList)) = [['1']] := by
    decide +kernel
  have hdivision : Division "/(a)\\1 b 2#3\n\\g{1} 4/x".toList '/'
      "(a)\\1 b 2#3\n\\g{1} 4".toList ['x'] :=
    splitDelimiters_eq_ok_iff.1 (by decide +kernel)
  obtain ⟨_, hwritten⟩ := hpatterns 256 _ _ _ hdivision (by decide)
  rw [hnumbers] at hwritten
  exact ⟨hparted.1 (by decide +kernel), hconvert, hwritten _ hconvert⟩

/-- A number that is parted from a digit by a space becomes another number, and that number is
    what reaches the target. -/
theorem decimals_stripExtended_parted :
    Piece.decimals (Piece.ofBody true "(a)\\1 2".toList) = [['1']] ∧
      Piece.decimals (Piece.ofBody false (stripExtended .ordinary "(a)\\1 2".toList)) =
        [['1', '2']] ∧
      (parse 256 "/(a)\\1 2/x").outcome = .ok ⟨'/', "x", "(a)\\12",
        [⟨0, 1, .groupStart (.capturing none) 1⟩, ⟨2, 1, .groupEnd .capturing 0 ""⟩]⟩ ∧
      (convertPattern 256 "/(a)\\1 2/x").outcome = .ok ⟨"/(a)\\12/", ⟨[]⟩⟩ := by
  refine ⟨?_, ?_, ?_, ?_⟩ <;> decide +kernel

end Pattern

end RegexText
