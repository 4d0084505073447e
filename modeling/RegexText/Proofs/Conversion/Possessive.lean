/-
  RegexText/Proofs/Conversion/Possessive.lean
  ===========================================
  **Which possessive marks reach the target dialect.**

  The target knows no possessive quantifiers.  The converter drops a possessive
  mark together with the quantifiers that a token takes up: behind a bracket
  expression and behind a group.  Every other mark is literal text, be it behind
  a character, an escape, a dot or a reference, and it is copied; so is that of
  a question mark wherever it stands, since no token takes up a question mark.

  So a possessive mark reaches the target exactly if it is one of these.  This is
  so as long as no quantifier has more behind it than such a mark: what follows
  the quantifiers of a token could otherwise become a mark of the one that is
  kept.
-/
import RegexText.Proofs.Conversion.Written
import RegexText.Proofs.Lexeme.Grammar
import RegexText.Proofs.Lexeme.Opener
import RegexText.Proofs.Piece.Possessive

namespace RegexText

open Text

namespace Piece

variable {as bs ps : List Piece} {cs : List Char} {c : Char}

theorem settled_of_countP (hcount : as.countP isQuantifier ≤ 1)
    (hfirst : ∃ p ∈ as.head?, p.isQuantifier = false)
    (hlast : ∃ p ∈ as.getLast?, p.isQuantifier = false) : Settled as where
  unmarked := fun h => by
    have hle := h.two_le_countP
    omega
  first := hfirst
  last := hlast

/-- The first piece of a body, if it is a character, is the first character. -/
theorem head?_of_head?_ofBody {extended : Bool}
    (h : (ofBody extended cs).head? = some (.char c)) : cs.head? = some c := by
  obtain ⟨rest, hrest⟩ := List.head?_eq_some_iff.1 h
  rw [← flatMap_text_ofBody extended cs, hrest]
  rfl

theorem Restrained.of_append (h : Restrained (as ++ bs)) : Restrained bs := by
  intro c hc
  have hback : bs <:+: as ++ bs := (List.suffix_append as bs).isInfix
  constructor
  · intro htwice
    exact (h c hc).1 (htwice.trans hback)
  · intro hmarked
    exact (h c hc).2 (hmarked.trans hback)

/-! ### Quantifiers of a token -/

theorem mem_of_isRepeat (h : Lexeme.isRepeat c = true) :
    c ∈ ['*', '+', '?'] ∧ (c = '*' ∨ c = '+') := by
  simp only [Lexeme.isRepeat, Bool.or_eq_true, beq_iff_eq] at h
  rcases h with rfl | rfl <;> decide

/-- Behind a quantifier there is a plus sign, if there is a repetition at all. -/
theorem eq_plus_of_restrained {d : Char} (hc : Lexeme.isRepeat c = true)
    (hd : Lexeme.isRepeat d = true) (h : Restrained (.char c :: .char d :: ps)) : d = '+' := by
  rcases (mem_of_isRepeat hd).2 with rfl | rfl
  · exact absurd (List.prefix_append [_, _] ps).isInfix (h c (mem_of_isRepeat hc).1).1
  · rfl

/-- Behind a possessive mark there is no repetition. -/
theorem not_isRepeat_of_restrained {d : Char} (hc : Lexeme.isRepeat c = true)
    (h : Restrained (.char c :: .char '+' :: .char d :: ps)) : Lexeme.isRepeat d = false := by
  by_contra hd
  rw [Bool.not_eq_false] at hd
  have hsplit : Restrained ([.char c] ++ .char '+' :: .char d :: ps) := h
  have hbehind := hsplit.of_append
  rw [eq_plus_of_restrained rfl hd hbehind] at h
  exact absurd (List.prefix_append [_, _, _] ps).isInfix (h c (mem_of_isRepeat hc).1).2

/-- What a token takes up, if nothing is left that would only have been possible without it. -/
theorem repeats_of_restrained {quantifiers : List Char}
    (hall : ∀ c ∈ quantifiers, Lexeme.isRepeat c = true)
    (h : Restrained (quantifiers.map .char ++ ps)) : Repeats quantifiers := by
  match quantifiers with
  | [] => exact .none
  | [c] => exact .one (hall c (by simp))
  | [c, d] =>
    rw [eq_plus_of_restrained (hall c (by simp)) (hall d (by simp)) h]
    exact .possessive (hall c (by simp))
  | c :: d :: e :: more =>
    have hd := eq_plus_of_restrained (hall c (by simp)) (hall d (by simp)) h
    subst hd
    have he := not_isRepeat_of_restrained (hall c (by simp)) h
    rw [hall e (by simp)] at he
    cases he

end Piece

namespace Lexeme

variable {l : Lexeme} {ls : List Lexeme} {quantifiers content cs : List Char}

/-- The quantifier characters of a lexeme that takes some up. -/
def quantifiers? : Lexeme → Option (List Char)
  | .bracket _ quantifiers | .closer quantifiers => some quantifiers
  | _ => none

/-- A lexeme takes up what it can. -/
theorem stops_of_precedes {rest : List Char} (h : l.Precedes rest)
    (hl : l.quantifiers? = some quantifiers) : Stops quantifiers rest := by
  cases h with
  | bracket _ _ _ hstops =>
    cases hl
    exact hstops
  | closer _ hnext =>
    cases hl
    exact ⟨fun _ => hnext, fun _ _ hplus => absurd (hnext '+' hplus) (by decide)⟩
  | special hspecial => cases hspecial <;> cases hl
  | _ => cases hl

/-- The first of the lexemes of a body takes up what it can. -/
theorem stops_of_ofBody (h : ofBody ((l :: ls).flatMap text) = l :: ls)
    (hl : l.quantifiers? = some quantifiers) : Stops quantifiers (ls.flatMap text) := by
  cases hbody : (l :: ls).flatMap text with
  | nil =>
    rw [hbody, ofBody] at h
    cases h
  | cons c cs =>
    rw [hbody, ofBody] at h
    obtain ⟨rfl, rfl⟩ := List.cons.inj h
    rw [flatMap_text_ofBody]
    exact stops_of_precedes (precedes_next c cs) hl

end Lexeme

namespace Conversion

open CategoryEscape Lexeme TokenStream Piece

variable {dotAll : Bool} {captures final : Captures} {kinds : List GroupKind}
  {ls : List Lexeme} {x y z w : List Char}

/-! ### Literal text -/

theorem isQuantifier_of_isSpellingChar {c : Char} (h : isSpellingChar c = true) :
    (Piece.char c).isQuantifier = false ∧ (Piece.char c).isItemEnd = false := by
  have hne : ∀ {d : Char}, isSpellingChar d = false → c ≠ d := Source.ne_of_apply h
  simp [isQuantifier, isItemEnd, hne (d := '*') rfl, hne (d := '+') rfl, hne (d := '?') rfl,
    hne (d := ')') rfl]

/-- An escape with what spells it holds one quantifier character at most. -/
theorem Spelled.settled {tail : List Char} (h : Spelled tail) (letter : Char) :
    Settled (.escape letter :: tail.map .char) ∧
      endsItem false (.escape letter :: tail.map .char) = false := by
  have hcount : (tail.map Piece.char).countP isQuantifier = tail.count '+' := by
    rw [List.countP_map, List.count]
    refine List.countP_congr fun c hc => ?_
    rcases h.chars c hc with rfl | hspelling
    · simp [isQuantifier]
    · have hne : c ≠ '+' := Source.ne_of_apply hspelling (by decide)
      simp [(isQuantifier_of_isSpellingChar hspelling).1, hne]
  have hlast : ∃ p ∈ (Piece.escape letter :: tail.map .char).getLast?,
      p.isQuantifier = false ∧ p.isItemEnd = false := by
    rw [List.getLast?_cons, List.getLast?_map]
    cases htail : tail.getLast? with
    | none => exact ⟨.escape letter, rfl, rfl, rfl⟩
    | some c =>
      have hc := h.last c htail
      rcases h.chars c (List.mem_of_getLast? htail) with rfl | hspelling
      · exact absurd rfl hc
      · exact ⟨.char c, rfl, isQuantifier_of_isSpellingChar hspelling⟩
  obtain ⟨p, hp, hquantifier, hopen⟩ := hlast
  refine ⟨settled_of_countP ?_ ⟨_, rfl, rfl⟩ ⟨p, hp, hquantifier⟩, ?_⟩
  · have hescape : (Piece.escape letter).isQuantifier = false := rfl
    rw [List.countP_cons_of_neg (by simp [hescape]), hcount]
    exact h.once
  · rw [endsItem_of_getLast? false hp, hopen]

/-- Pieces without a plus sign are settled if they neither begin nor end with a quantifier. -/
theorem settled_of_not_mem {as : List Piece} (hplus : Piece.char '+' ∉ as)
    (hfirst : ∃ p ∈ as.head?, p.isQuantifier = false)
    (hlast : ∃ p ∈ as.getLast?, p.isQuantifier = false) : Settled as where
  unmarked := fun h => hplus h.plus_mem
  first := hfirst
  last := hlast

/-- An escape and what spells it, as pieces. -/
theorem Spelled.ofBody_append {tail : List Char} (h : Spelled tail) (letter : Char)
    (w : List Char) :
    Piece.ofBody false ('\\' :: letter :: tail ++ w) =
      (.escape letter :: tail.map .char) ++ Piece.ofBody false w := by
  have hplain : ∀ c ∈ tail, c ≠ '\\' ∧ c ≠ '[' := by
    intro c hc
    rcases h.chars c hc with rfl | hspelling
    · decide
    · exact ⟨Source.ne_of_apply hspelling (by decide), Source.ne_of_apply hspelling (by decide)⟩
  rw [List.cons_append, List.cons_append, Piece.ofBody_escape, Piece.ofBody_plains hplain]
  rfl

/-- The number of a reference is settled, be it set apart or not. -/
theorem exists_settled_numbered (number : Nat) (behind w : List Char) :
    ∃ bs, Settled bs ∧
      Piece.ofBody false (Backreference.numbered number behind ++ w) =
        bs ++ Piece.ofBody false w := by
  cases hnumber : Nat.toDigits 10 number with
  | nil => exact absurd hnumber Nat.toDigits_ne_nil
  | cons d ds =>
    have hdigits : ∀ c ∈ ds, c.isDigit = true := fun c hc =>
      Nat.isDigit_of_mem_toDigits (by decide) (by decide) (hnumber ▸ List.mem_cons_of_mem d hc)
    have hspelled : Spelled ds := .of_forall fun c hc => isSpellingChar_of_isDigit (hdigits c hc)
    rw [Source.Rewrites.numbered_eq, hnumber]
    split
    · -- the only quantifier character is that of the group
      refine ⟨.char '(' :: .char '?' :: .char ':' :: .escape d :: ds.map .char ++ [.char ')'],
        settled_of_not_mem ?_ ⟨_, rfl, rfl⟩ ⟨_, List.getLast?_concat, rfl⟩, ?_⟩
      · have hplus : '+' ∉ ds := Source.not_mem_of_all hdigits (by decide)
        simp [hplus]
      · have hopening : ∀ c ∈ ['(', '?', ':'], c ≠ '\\' ∧ c ≠ '[' := forall_mem_of_all (by decide)
        have hwhole := Piece.ofBody_plains hopening ('\\' :: d :: ds ++ ')' :: w)
        rw [hspelled.ofBody_append, Piece.ofBody_char (by decide) (by simp)] at hwhole
        simpa using hwhole
    · exact ⟨_, (hspelled.settled d).1, hspelled.ofBody_append d w⟩

theorem ofBody_expanded (escape : Escape) (w : List Char) :
    ∃ content, Piece.ofBody false (escape.expanded false ++ w) =
      .bracket content :: Piece.ofBody false w := by
  have hranges : FreeOf (· = ']') (rangesText (unitRanges escape.categories false)) :=
    Source.freeOf_rangesText (fun _ => Or.inr) _
  cases hnegated : escape.negated with
  | true =>
    have hcontent : FreeOf (· = ']') ('^' :: rangesText (unitRanges escape.categories false)) :=
      .single (by decide) (by decide) hranges
    refine ⟨_, Eq.trans ?_ (Piece.ofBody_bracket hcontent w)⟩
    simp [Escape.expanded, hnegated]
  | false =>
    refine ⟨_, Eq.trans ?_ (Piece.ofBody_bracket hranges w)⟩
    simp [Escape.expanded, hnegated]

/-- A dot is carried over as itself or as a bracket expression. -/
theorem carried_dotText {ps : List Piece} (h : Carried ps (Piece.ofBody false w)) :
    Carried (.char '.' :: ps) (Piece.ofBody false (dotText dotAll ++ w)) := by
  cases dotAll with
  | true =>
    have hcontent : FreeOf (· = ']') ['\\', 's', '\\', 'S'] := .pair 's' (.pair 'S' .nil)
    change Carried _ (Piece.ofBody false ('[' :: ['\\', 's', '\\', 'S'] ++ ']' :: w))
    rw [Piece.ofBody_bracket hcontent]
    exact .piece (.inr ⟨rfl, rfl⟩) rfl h
  | false =>
    change Carried _ (Piece.ofBody false ('.' :: w))
    rw [Piece.ofBody_char (by decide) (by simp)]
    exact .piece (.inl rfl) rfl h

/-- **Literal text is carried over with all its marks.** -/
theorem Written.carried (h : Written false dotAll x y) (hx : Plain (fun _ => False) x)
    (hz : Carried (Piece.ofBody false z) (Piece.ofBody false w)) :
    Carried (Piece.ofBody false (x ++ z)) (Piece.ofBody false (y ++ w)) := by
  induction h with
  | nil => exact hz
  | lone =>
    rcases hx with _ | _ | ⟨hc, _, _⟩
    exact absurd rfl hc
  | @char c x y hc _ ih =>
    obtain ⟨hno, hrest⟩ := hx.of_single hc
    have hlater := ih hrest
    simp only [false_or, not_or] at hno
    have hitem : (Piece.char c).isItemEnd = false := by simp [isItemEnd, hno.2.2]
    rw [List.cons_append, List.append_assoc, Piece.ofBody_char ⟨hc, hno.1⟩ (by simp)]
    split
    · rename_i hdot
      rw [hdot]
      exact carried_dotText hlater
    · rw [List.singleton_append, Piece.ofBody_char ⟨hc, hno.1⟩ (by simp)]
      exact .piece (.inl rfl) hitem hlater
  | pair c _ ih =>
    simp only [List.cons_append]
    rw [Piece.ofBody_escape, Piece.ofBody_escape]
    exact .piece (.inl rfl) rfl (ih hx.of_pair)
  | @category letter tail x y escape _ htail _ ih =>
    have hrest := FreeOf.of_append (complete_of_forall htail.ne_backslash) hx.of_pair
    obtain ⟨hsettled, hopen⟩ := htail.settled letter
    obtain ⟨content, hcontent⟩ := ofBody_expanded escape (y ++ w)
    have hbracket : Settled [.bracket content] :=
      settled_of_countP (Nat.zero_le 1) ⟨_, rfl, rfl⟩ ⟨_, rfl, rfl⟩
    rw [List.append_assoc, List.append_assoc, htail.ofBody_append, hcontent]
    exact .settled hsettled hbracket hopen (ih hrest.2)
  | @reference letter tail x y number behind _ htail _ ih =>
    have hrest := FreeOf.of_append (complete_of_forall htail.ne_backslash) hx.of_pair
    obtain ⟨hsettled, hopen⟩ := htail.settled letter
    obtain ⟨bs, hnumber, hbs⟩ := exists_settled_numbered number behind (y ++ w)
    rw [List.append_assoc, List.append_assoc, htail.ofBody_append, hbs]
    exact .settled hsettled hnumber hopen (ih hrest.2)

/-! ### Tokens and whole bodies -/

/-- Nothing is left behind a token that could be taken for a quantifier of it. -/
theorem next_of_stops {quantifiers : List Char} (hstops : Stops quantifiers z)
    (hrepeats : Repeats quantifiers)
    (h : Restrained (quantifiers.map .char ++ Piece.ofBody false z)) :
    ∀ c, isRepeat c = true → (Piece.ofBody false z).head? ≠ some (.char c) := by
  intro c hc hhead
  have hz := head?_of_head?_ofBody hhead
  obtain ⟨ps, hps⟩ := List.head?_eq_some_iff.1 hhead
  rw [hps] at h
  cases hrepeats with
  | none =>
    rw [hstops.1 rfl c hz] at hc
    cases hc
  | one hd =>
    rw [eq_plus_of_restrained hd hc h] at hz
    exact hstops.2 _ rfl hz
  | possessive hd =>
    rw [not_isRepeat_of_restrained hd h] at hc
    cases hc

theorem ofBody_repeats {quantifiers : List Char} (h : ∀ c ∈ quantifiers, isRepeat c = true)
    (z : List Char) :
    Piece.ofBody false (quantifiers ++ z) = quantifiers.map .char ++ Piece.ofBody false z :=
  Piece.ofBody_plains
    (fun c hc => ⟨(ne_of_isRepeat (h c hc)).1, (ne_of_isRepeat (h c hc)).2.1⟩) z

/-- An item is carried over with its first quantifier character, or with none. -/
theorem carried_item {p p' : Piece} {quantifiers kept : List Char} (hitem : p.isItemEnd = true)
    (hp' : p'.isQuantifier = false) (hall : ∀ c ∈ quantifiers, isRepeat c = true)
    (hkept : kept = [] ∨ kept = quantifiers.take 1) (hstops : Stops quantifiers z)
    (h : Restrained (p :: Piece.ofBody false (quantifiers ++ z)))
    (hz : Carried (Piece.ofBody false z) (Piece.ofBody false w)) :
    Carried (p :: Piece.ofBody false (quantifiers ++ z))
      (p' :: Piece.ofBody false (kept ++ w)) := by
  have hkeptall : ∀ c ∈ kept, isRepeat c = true := by
    rcases hkept with rfl | rfl
    · simp
    · exact fun c hc => hall c (List.mem_of_mem_take hc)
  have hsplit : Restrained ([p] ++ Piece.ofBody false (quantifiers ++ z)) := h
  have hbehind := hsplit.of_append
  rw [ofBody_repeats hall] at hbehind ⊢
  rw [ofBody_repeats hkeptall]
  have hrepeats := repeats_of_restrained hall hbehind
  exact .item hitem hp' hrepeats hkept (next_of_stops hstops hrepeats hbehind) hz

/-- The start of a group is settled, however it is spelled. -/
theorem settled_opener {text : List Char} (h : OpenerText text) :
    Settled (text.map .char) ∧ endsItem false (text.map .char) = false ∧
      ∀ c ∈ text, c ≠ '\\' ∧ c ≠ '[' := by
  obtain ⟨inner, htext, hinner⟩ := h.marks
  obtain ⟨last, hlast, hend⟩ := h.last
  have hne : ∀ {d : Char}, isOpenerEnd d = false → last ≠ d := Source.ne_of_apply hend
  have hlast' : (text.map Piece.char).getLast? = some (.char last) := by
    rw [List.getLast?_map, Option.mem_def.1 hlast]
    rfl
  refine ⟨settled_of_not_mem ?_ ?_ ⟨.char last, hlast', ?_⟩, ?_, ?_⟩
  · have hplus : '+' ∉ inner := Source.not_mem_of_all hinner (by decide)
    simp [htext, hplus]
  · exact ⟨.char '(', by rw [htext]; rfl, rfl⟩
  · simp [isQuantifier, hne (d := '*') rfl, hne (d := '+') rfl, hne (d := '?') rfl]
  · rw [endsItem_of_getLast? false hlast']
    simp [isItemEnd, hne (d := ')') rfl]
  · rw [htext]
    exact List.forall_mem_cons.2 ⟨by decide, fun c hc =>
      ⟨(ne_of_isMarkChar (hinner c hc)).1, (ne_of_isMarkChar (hinner c hc)).2.1⟩⟩

theorem openerText_of_convertOpener {pos : Nat} {opener : Opener}
    (h : convertOpener pos opener = .ok y) : OpenerText y := by
  rcases convertOpener_eq_ok h with ⟨_, rfl⟩ | ⟨_, rfl⟩ | ⟨negated, _, rfl⟩
  · exact ⟨⟨[], rfl, by simp⟩, ⟨'(', rfl, rfl⟩⟩
  · exact ⟨⟨['?', ':'], rfl, forall_mem_of_all (by decide)⟩, ⟨':', rfl, rfl⟩⟩
  · cases negated
    · exact ⟨⟨['?', '='], rfl, forall_mem_of_all (by decide)⟩, ⟨'=', rfl, rfl⟩⟩
    · exact ⟨⟨['?', '!'], rfl, forall_mem_of_all (by decide)⟩, ⟨'!', rfl, rfl⟩⟩

/-- **A token keeps one quantifier character at most.** -/
theorem carried_of_convertToken {l : Lexeme} {item : TokenItem} {pos : Nat}
    (hitem : itemFor? kinds l = some item) (hsafe : l.Safe fun _ => False)
    (hopener : ∀ opener text, l = .opener opener text → OpenerText text)
    (hstops : ∀ quantifiers, l.quantifiers? = some quantifiers → Stops quantifiers z)
    (hrestrained : Restrained (Piece.ofBody false (l.text ++ z)))
    (h : (convertToken ⟨pos, byteLength l.text, item⟩).outcome = .ok y)
    (hz : Carried (Piece.ofBody false z) (Piece.ofBody false w)) :
    Carried (Piece.ofBody false (l.text ++ z)) (Piece.ofBody false (y ++ w)) := by
  cases l with
  | bracket content quantifiers =>
    cases hitem
    obtain ⟨inner, hinner, hy⟩ := Traced.outcome_bind_eq_ok_iff.1 h
    cases hy
    rw [String.toList_ofList] at hinner ⊢
    obtain ⟨hcontent, hall⟩ := hsafe
    have hwritten : FreeOf (· = ']') inner :=
      ((expansion_of_outcome hinner).freeOf (fun _ => False.elim) hcontent).mono fun _ => Or.inr
    have hsource : (Lexeme.bracket content quantifiers).text ++ z =
        '[' :: content ++ ']' :: (quantifiers ++ z) := by
      simp [Lexeme.text]
    have htarget : '[' :: inner ++ ']' :: quantifiers.take 1 ++ w =
        '[' :: inner ++ ']' :: (quantifiers.take 1 ++ w) := by
      simp
    rw [hsource, Piece.ofBody_bracket (hcontent.mono fun _ => Or.inr)] at hrestrained ⊢
    rw [htarget, Piece.ofBody_bracket hwritten]
    exact carried_item rfl rfl hall (.inr rfl) (hstops quantifiers rfl) hrestrained hz
  | opener opener text =>
    cases hitem
    obtain ⟨hsettled, hopen, hplain⟩ := settled_opener (hopener opener text rfl)
    obtain ⟨hsettled', _, hplain'⟩ :=
      settled_opener (openerText_of_convertOpener (convertToken_groupStart rfl h))
    rw [Lexeme.text, Piece.ofBody_plains hplain, Piece.ofBody_plains hplain']
    exact .settled hsettled hsettled' hopen hz
  | closer quantifiers =>
    obtain ⟨kind, _, rfl⟩ := Option.map_eq_some_iff.1 hitem
    cases h
    rw [String.toList_ofList]
    have hparen : ∀ cs : List Char,
        Piece.ofBody false (')' :: cs) = .char ')' :: Piece.ofBody false cs :=
      Piece.ofBody_char (by decide) (by simp)
    rw [Lexeme.text, List.cons_append, hparen] at hrestrained ⊢
    rw [List.cons_append, hparen]
    refine carried_item rfl rfl hsafe ?_ (hstops quantifiers rfl) hrestrained hz
    split
    · exact .inl rfl
    · exact .inr rfl
  | optionSetting options =>
    cases hitem
    cases h
  | _ => cases hitem

/-- Where a body is cut into lexemes, its pieces are cut, too. -/
theorem restrained_of_cut {as bs : List Lexeme}
    (hcut : Lexeme.ofBody ((as ++ bs).flatMap Lexeme.text) = as ++ bs)
    (h : Restrained (Piece.ofBody false ((as ++ bs).flatMap Lexeme.text))) :
    Restrained (Piece.ofBody false (bs.flatMap Lexeme.text)) := by
  rw [← flatMap_pieces_ofBody, hcut, List.flatMap_append] at h
  have hbs := h.of_append
  rwa [← flatMap_pieces_ofBody, ofBody_flatMap_text hcut]

/-- **A converted body has been made of the pieces of the body.** -/
theorem Converts.carried (h : Converts dotAll captures kinds ls y final)
    (hsafe : ∀ l ∈ ls, l.Safe fun _ => False)
    (hopener : ∀ opener text, .opener opener text ∈ ls → OpenerText text)
    (hcut : Lexeme.ofBody (ls.flatMap Lexeme.text) = ls)
    (hrestrained : Restrained (Piece.ofBody false (ls.flatMap Lexeme.text))) :
    Carried (Piece.ofBody false (ls.flatMap Lexeme.text)) (Piece.ofBody false y) := by
  induction h with
  | literal hlits hx =>
    have hwritten := (written_of_convertLiteral hx).carried (z := []) (w := [])
      (plain_of_literal hlits hsafe)
    simp only [List.append_nil, Piece.ofBody_nil] at hwritten
    exact hwritten .nil
  | @token _ _ _ lits ls l item pos x y z hlits hx hitem hy _ ih =>
    obtain ⟨hsafelits, hsafelater⟩ := List.forall_mem_append.1 hsafe
    obtain ⟨hsafel, hsafels⟩ := List.forall_mem_cons.1 hsafelater
    have hcutl : Lexeme.ofBody ((l :: ls).flatMap Lexeme.text) = l :: ls :=
      ofBody_flatMap_text hcut
    have hrestrainedl := restrained_of_cut hcut hrestrained
    have hcutsplit : Lexeme.ofBody (([l] ++ ls).flatMap Lexeme.text) = [l] ++ ls := hcutl
    have hlater := ih hsafels (fun opener text hmem => hopener opener text (by simp [hmem]))
      (ofBody_flatMap_text hcutsplit) (restrained_of_cut hcutsplit hrestrainedl)
    rw [List.flatMap_cons] at hrestrainedl
    have htoken := carried_of_convertToken hitem hsafel
      (fun opener text heq => hopener opener text (by simp [heq]))
      (fun _ => stops_of_ofBody hcutl) hrestrainedl hy hlater
    rw [List.flatMap_append, List.flatMap_cons, List.append_assoc]
    exact (written_of_convertLiteral hx).carried (plain_of_literal hlits hsafelits) htoken

/-! ### Slashes -/

/-- What becomes of a piece when slashes are escaped. -/
def shielded : Piece → Piece
  | .char '/' => .escape '/'
  | .bracket content => .bracket (protect '/' content)
  | p => p

theorem ofBody_protect (h : Outside x) :
    Piece.ofBody false (protect '/' x) = (Piece.ofBody false x).map shielded := by
  induction h with
  | nil => rw [protect, Piece.ofBody_nil, List.map_nil]
  | pair c _ ih => rw [protect, Piece.ofBody_escape, Piece.ofBody_escape, ih]; rfl
  | @bracket content cs hcontent _ ih =>
    have hshielded : FreeOf (· = ']') (protect '/' content) :=
      hcontent.protect.mono fun _ => Or.inl
    have hprotect : protect '/' ('[' :: content ++ ']' :: cs) =
        '[' :: protect '/' content ++ ']' :: protect '/' cs := by
      rw [List.cons_append, protect_single (by decide), protect_append hcontent.complete,
        protect_single (by decide)]
      rfl
    rw [hprotect, Piece.ofBody_bracket hshielded, Piece.ofBody_bracket hcontent, ih]
    rfl
  | @single c cs hc hbracket _ ih =>
    rw [protect_single hc, Piece.ofBody_char ⟨hc, hbracket⟩ (by simp), List.map_cons, ← ih]
    split
    · rename_i hslash
      subst hslash
      exact Piece.ofBody_escape '/' _
    · rename_i hslash
      have hsame : shielded (.char c) = .char c := by
        unfold shielded
        split <;> simp_all
      rw [hsame]
      exact Piece.ofBody_char ⟨hc, hbracket⟩ (by simp) _

theorem possessive_protect (h : Outside x) :
    Possessive (Piece.ofBody false (protect '/' x)) ↔ Possessive (Piece.ofBody false x) := by
  rw [ofBody_protect h]
  apply possessive_map
  intro p
  unfold shielded
  split
  · exact .inr ⟨rfl, rfl⟩
  · exact .inr ⟨rfl, rfl⟩
  · exact .inl rfl

end Conversion

/-! ### Whole patterns -/

open Conversion in
/-- **Which possessive marks are written.**  If no quantifier of a body has more behind it than a
    possessive mark, then what is written for the body holds a possessive mark exactly if the body
    holds one that is not dropped with the quantifiers of a bracket expression or of a group. -/
theorem possessive_convertPattern {limit : Nat} {pattern : String} {p : Pattern} {t : Converted}
    (hparse : (Pattern.parse limit pattern).outcome = .ok p) (hconvert : p.convert.outcome = .ok t)
    (hrestrained : Piece.Restrained (Piece.ofBody false p.body.toList)) :
    ∃ body flags, t.pattern = String.ofList ('/' :: body ++ '/' :: flags) ∧
      FreeOf (· = '/') body ∧
      (Piece.Possessive (Piece.ofBody false body) ↔
        Piece.Exposed false (Piece.ofBody false p.body.toList)) := by
  obtain ⟨flags, text, body, captures, hpattern, _, hconverts, hbody, hfree, _, houtside⟩ :=
    Pattern.exists_written hparse hconvert
  have hcarried := hconverts.carried
    (fun _ => Lexeme.safe_of_mem_ofBody (Pattern.freeOf_of_parse hparse).complete)
    (fun _ _ => Lexeme.openerText_of_mem_ofBody) (by rw [Lexeme.flatMap_text_ofBody])
    (by rwa [Lexeme.flatMap_text_ofBody])
  rw [Lexeme.flatMap_text_ofBody] at hcarried
  have hiff : Piece.Possessive (Piece.ofBody false text) ↔
      Piece.Exposed false (Piece.ofBody false p.body.toList) := hcarried.possessive_iff nofun
  refine ⟨body, flags, hpattern, hfree, ?_⟩
  rcases hbody with rfl | rfl
  · exact hiff
  · exact (possessive_protect houtside).trans hiff

/-- A group and a bracket expression with possessive marks, and a question mark with one. -/
def possessiveQuestion : Pattern :=
  ⟨'~', "", "([/]*+)++b?+",
    [⟨0, 1, .groupStart (.capturing none) 2⟩, ⟨1, 5, .characterClass "/" "*+"⟩,
      ⟨6, 3, .groupEnd .capturing 0 "++"⟩]⟩

theorem possessive_convertPattern_question :
    (Pattern.parse 1 "~([/]*+)++b?+~").outcome = .ok possessiveQuestion ∧
      possessiveQuestion.convert.outcome = .ok ⟨"/([\\/]*)+b?+/", ⟨[]⟩⟩ ∧
      Piece.Restrained (Piece.ofBody false possessiveQuestion.body.toList) ∧
      ∃ body flags, "/([\\/]*)+b?+/" = String.ofList ('/' :: body ++ '/' :: flags) ∧
        FreeOf (· = '/') body ∧ Piece.Possessive (Piece.ofBody false body) := by
  have hparse : (Pattern.parse 1 "~([/]*+)++b?+~").outcome = .ok possessiveQuestion := by
    decide +kernel
  have hconvert : possessiveQuestion.convert.outcome = .ok ⟨"/([\\/]*)+b?+/", ⟨[]⟩⟩ := by
    decide +kernel
  have hrestrained : Piece.Restrained (Piece.ofBody false possessiveQuestion.body.toList) := by
    decide +kernel
  obtain ⟨body, flags, hpattern, hfree, hiff⟩ :=
    possessive_convertPattern hparse hconvert hrestrained
  have hpieces : Piece.ofBody false possessiveQuestion.body.toList =
      [.char '(', .bracket ['/'], .char '*', .char '+', .char ')', .char '+', .char '+',
        .char 'b'] ++ [.char '?', .char '+'] := by decide +kernel
  exact ⟨hparse, hconvert, hrestrained, body, flags, hpattern, hfree,
    hiff.2 ⟨_, .char '?', [], hpieces, rfl, .inl rfl⟩⟩

/-- Behind a character, a possessive mark is copied. -/
theorem possessive_convertPattern_character :
    (convertPattern 256 "/a++/").outcome = .ok ⟨"/a++/", ⟨[]⟩⟩ ∧
      Piece.Restrained (Piece.ofBody false "a++".toList) ∧
      Piece.Possessive (Piece.ofBody false "a++".toList) := by
  have hpieces : Piece.ofBody false "a++".toList =
      [.char 'a'] ++ [.char '+', .char '+'] := by decide +kernel
  exact ⟨by decide +kernel, by decide +kernel, [.char 'a'], .char '+', [], hpieces, rfl, trivial⟩

/-- Of the quantifiers that a token takes up, the first one is kept, and none by an assertion. -/
example : (convertPattern 1 "/[a]*+(b)++(?=c)++/").outcome = .ok ⟨"/[a]*(b)+(?=c)/", ⟨[]⟩⟩ := by
  decide +kernel

end RegexText
