/-
  RegexText/Proofs/Conversion/Places.lean
  =======================================
  **References in the text of a body.**

  What a reference means is decided in a piece of literal text, with the groups that
  the tokens before it have opened.  Both can be read off the body: a backslash that
  stands outside of escapes and bracket expressions is in a piece of literal text,
  and the groups opened before it are those with a smaller offset.  The piece may
  end before the body does, but no reference reaches beyond it, since the next token
  begins with a parenthesis or a bracket.
-/
import RegexText.Proofs.Conversion.Numbering
import RegexText.Proofs.Conversion.Resolution

namespace RegexText

open Text Source

/-! ### Lexemes of a body -/

namespace Lexeme

/-- A lexeme that is no literal text begins with a parenthesis or a bracket. -/
theorem exists_head_of_mem_ofBody {body : List Char} {l : Lexeme} (hl : l ∈ ofBody body)
    (hclosed : l.isClosed = true) (hliteral : l.isLiteral = false) :
    ∃ c inner, l.text = c :: inner ∧ (c = '(' ∨ c = '[' ∨ c = ')') := by
  fun_induction ofBody body with
  | case1 => cases hl
  | case2 c cs ih =>
    rcases List.mem_cons.1 hl with rfl | hlater
    · unfold next at hclosed hliteral ⊢
      split_ifs at hclosed hliteral ⊢ with hbackslash hbracket hgroup hcloser
      · cases cs <;> cases hliteral
      · unfold readBracket at hclosed ⊢
        split
        · exact ⟨_, _, rfl, .inr (.inl rfl)⟩
        · exact ⟨_, _, rfl, .inr (.inl rfl)⟩
      · obtain ⟨inner, htext, _⟩ := isMarkChar_readGroup hclosed
        exact ⟨_, inner, htext, .inl rfl⟩
      · exact ⟨_, _, rfl, .inr (.inr rfl)⟩
      · cases hliteral
    · exact ih hlater

/-- What is asked of the lexemes of a body that has tokens. -/
structure Readable (bad : Char → Prop) (l : Lexeme) : Prop where
  safe : l.Safe bad
  closed : l.isClosed = true
  head : l.isLiteral = false → ∃ c inner, l.text = c :: inner ∧ (c = '(' ∨ c = '[' ∨ c = ')')

end Lexeme

namespace TokenStream

variable {bad : Char → Prop} {kinds : List GroupKind} {l : Lexeme} {ls ms : List Lexeme}

/-- The kinds of the open groups behind some lexemes. -/
def kindsThrough (kinds : List GroupKind) (ls : List Lexeme) : List GroupKind :=
  ls.foldl kindsAfter kinds

theorem layout_append (pos : Nat) (kinds : List GroupKind) (ls ms : List Lexeme) :
    layout pos kinds (ls ++ ms) = layout pos kinds ls ++
      layout (pos + byteLength (ls.flatMap Lexeme.text)) (kindsThrough kinds ls) ms := by
  induction ls generalizing pos kinds with
  | nil => rfl
  | cons l ls ih =>
    rw [List.cons_append, layout, layout, ih, List.append_assoc, List.flatMap_cons,
      byteLength_append, Nat.add_assoc]
    rfl

/-- A lexeme without a token is an escape, or its text holds no backslash. -/
theorem ne_backslash_of_itemFor? (hl : l.Readable bad) (hitem : itemFor? kinds l = none)
    (hescaped : ∀ c, l ≠ .escaped c) : ∀ c ∈ l.text, c ≠ '\\' := by
  cases l with
  | plain c => exact List.forall_mem_singleton.2 hl.safe.1
  | escaped c => exact absurd rfl (hescaped c)
  | loneBackslash => exact hl.safe.elim
  | closer quantifiers =>
    exact List.forall_mem_cons.2
      ⟨by decide, fun c hc => Lexeme.ne_backslash_of_isRepeat (hl.safe c hc)⟩
  | bracket content quantifiers => cases hitem
  | optionSetting options => cases hitem
  | opener opener text => cases hitem
  | unclosedBracket after => cases hl.closed
  | unknownGroup after => cases hl.closed

theorem isLiteral_of_itemFor? {item : TokenItem} (hitem : itemFor? kinds l = some item) :
    l.isLiteral = false := by
  cases l <;> first | rfl | cases hitem

/-- Is there nothing left of a text, or does it begin as a token does? -/
def AtToken (cs : List Char) : Prop := ∀ c ∈ cs.head?, c = '(' ∨ c = '[' ∨ c = ')'

/-- The text in front of the first token ends where that token begins. -/
theorem exists_span_append (kinds : List GroupKind) (hls : ∀ l ∈ ls, l.Readable bad) :
    ∃ tail, ls.flatMap Lexeme.text = span kinds ls ++ tail ∧ AtToken tail := by
  induction ls with
  | nil => exact ⟨[], rfl, nofun⟩
  | cons l ls ih =>
    obtain ⟨hl, hls⟩ := List.forall_mem_cons.1 hls
    cases hitem : itemFor? kinds l with
    | none =>
      obtain ⟨tail, htail, hhead⟩ := ih hls
      exact ⟨tail, by rw [List.flatMap_cons, htail, span, hitem, List.append_assoc], hhead⟩
    | some item =>
      obtain ⟨c, inner, htext, hc⟩ := hl.head (isLiteral_of_itemFor? hitem)
      refine ⟨l.text ++ ls.flatMap Lexeme.text, by rw [List.flatMap_cons, span, hitem]; rfl, ?_⟩
      rw [htext]
      rintro d ⟨rfl⟩
      exact hc

/-! ### Groups opened before a place -/

theorem map_groupsOf_layout (pos : Nat) (kinds : List GroupKind) (ls : List Lexeme) :
    (groupsOf (layout pos kinds ls)).map Prod.snd = ls.filterMap Lexeme.captureName? := by
  induction ls generalizing pos kinds with
  | nil => rfl
  | cons l ls ih =>
    have hcapture := bind_itemFor? kinds l
    simp only [map_groupsOf] at ih ⊢
    cases hitem : itemFor? kinds l with
    | none =>
      rw [hitem, Option.bind_none] at hcapture
      rw [layout, hitem, List.filterMap_cons_none hcapture.symm, ← ih]
      rfl
    | some item =>
      rw [hitem, Option.bind_some] at hcapture
      rw [layout_of_some hitem, List.map_cons, captureNames, List.filterMap_cons,
        List.filterMap_cons, hcapture, ← ih]
      rfl

end TokenStream

/-- The groups that have been opened before an offset, the latest first. -/
def openedBefore (groups : List (Nat × Option String)) (pos : Nat) : Groups :=
  ((groups.filter fun group => group.1 < pos).map Prod.snd).reverse

namespace TokenStream

/-- The tokens in front of an offset are those of the lexemes in front of it. -/
theorem openedBefore_groupsOf {ls ms : List Lexeme} (hls : ∀ l ∈ ls, l.text ≠ []) :
    openedBefore (groupsOf (layout 0 [] (ls ++ ms))) (byteLength (ls.flatMap Lexeme.text)) =
      (ls.filterMap Lexeme.captureName?).reverse := by
  have hfront : (groupsOf (layout 0 [] ls)).filter
      (fun group => group.1 < byteLength (ls.flatMap Lexeme.text)) =
        groupsOf (layout 0 [] ls) := by
    apply List.filter_eq_self.2
    rintro ⟨pos, name⟩ hmem
    obtain ⟨before, text, after, rfl, rfl⟩ := mem_groupsOf_layout.1 hmem
    have hpositive := byteLength_pos (hls (.opener (.capturing name) text) (by simp))
    simp only [List.flatMap_append, List.flatMap_cons, byteLength_append, decide_eq_true_eq]
    omega
  have hbehind : (groupsOf (layout (0 + byteLength (ls.flatMap Lexeme.text))
      (kindsThrough [] ls) ms)).filter
        (fun group => group.1 < byteLength (ls.flatMap Lexeme.text)) = [] := by
    apply List.filter_eq_nil_iff.2
    rintro ⟨pos, name⟩ hmem
    obtain ⟨t, ht, hname⟩ := List.mem_filterMap.1 hmem
    obtain ⟨_, _, heq⟩ := Option.map_eq_some_iff.1 hname
    cases heq
    have hle := pos_le_of_mem_layout ht
    simp only [decide_eq_true_eq]
    omega
  rw [groupsOf, layout_append, List.filterMap_append, ← groupsOf, ← groupsOf, openedBefore,
    List.filter_append, hfront, hbehind, List.append_nil, map_groupsOf_layout]

theorem placed_of_tokenize {limit : Nat} {body : List Char} {tokens : List Token}
    (h : (tokenize limit body).outcome = .ok tokens) : Placed body tokens := by
  obtain ⟨s, hreads, _, rfl⟩ := tokenize_eq_ok_iff.1 h
  refine ⟨?_, pairwise_of_reads hreads⟩
  intro t ht
  obtain ⟨before, text, after, rfl, _, hpos, hlen⟩ := exists_lexeme_of_mem hreads ht
  refine ⟨⟨before, text ++ after, by simp, hpos.symm⟩, before ++ text, after, rfl, ?_⟩
  rw [byteLength_append, Token.stop, hpos, hlen]

end TokenStream

/-! ### Pieces of literal text and lexemes -/

namespace Conversion

open TokenStream

variable {bad : Char → Prop} {body front : List Char} {groups : Groups}
  {kinds : List GroupKind} {ls : List Lexeme}

theorem spans_unlinked (body : List Char) (groups : Groups) (pos : Nat) (ts : List Token) :
    spans body groups pos (ts.map unlinked) = spans body groups pos ts := by
  induction ts generalizing groups pos with
  | nil => rfl
  | cons t ts ih =>
    have hgroups : groupsAfter groups (unlinked t).item = groupsAfter groups t.item := by
      obtain ⟨pos, len, item⟩ := t
      rcases item with _ | _ | ⟨_ | _ | _ | _, e⟩ | _ <;> rfl
    rw [List.map_cons, spans, spans, hgroups, ih]
    rfl

/-- The first piece is the text in front of the first token, and the others do not depend on where
    it begins. -/
theorem spans_layout (groups : Groups) (kinds : List GroupKind)
    (hbody : body = front ++ ls.flatMap Lexeme.text) (pos : Nat) :
    spans body groups (byteLength front) (layout (byteLength front) kinds ls) =
      ⟨groups, span kinds ls⟩ ::
        (spans body groups pos (layout (byteLength front) kinds ls)).tail := by
  have hrest : (splitBytes (byteLength front) body).2 = ls.flatMap Lexeme.text := by
    rw [hbody, splitBytes_byteLength]
  cases hlayout : layout (byteLength front) kinds ls with
  | nil => rw [spans, hrest, span_of_layout_nil hlayout, spans, List.tail_cons]
  | cons t ts =>
    rw [spans, sliceBytes, hrest, splitBytes_of_layout_cons hlayout, spans, List.tail_cons]

/-- An escape among some lexemes is the first of them, or comes later. -/
theorem forall_escaped_cons {P : List Lexeme → Char → List Lexeme → Prop} {l : Lexeme} :
    (∀ before letter after, l :: ls = before ++ .escaped letter :: after →
      P before letter after) ↔
    (∀ letter, l = .escaped letter → P [] letter ls) ∧
      ∀ before letter after, ls = before ++ .escaped letter :: after →
        P (l :: before) letter after := by
  constructor
  · intro h
    refine ⟨fun letter hletter => h [] letter ls (by rw [hletter]; rfl), ?_⟩
    rintro before letter after rfl
    exact h (l :: before) letter after rfl
  · rintro ⟨hfirst, hlater⟩ before letter after heq
    cases before with
    | nil =>
      obtain ⟨hletter, rfl⟩ := List.cons.inj heq
      exact hfirst letter hletter
    | cons m before =>
      obtain ⟨rfl, hrest⟩ := List.cons.inj heq
      exact hlater before letter after hrest

/-- The first lexeme of a piece holds no pair, unless it is one. -/
theorem forall_pairAt_append {P : Char → List Char → Prop} {l : Lexeme} {cs : List Char}
    (hl : l.Readable bad) (hitem : itemFor? kinds l = none) :
    (∀ letter after, PairAt (l.text ++ cs) letter after → P letter after) ↔
      (∀ letter, l = .escaped letter → P letter cs) ∧
        ∀ letter after, PairAt cs letter after → P letter after := by
  by_cases hescaped : ∃ c, l = .escaped c
  · obtain ⟨c, rfl⟩ := hescaped
    constructor
    · intro h
      refine ⟨?_, fun letter after hpair => h letter after (pairAt_pair_iff.2 (.inr hpair))⟩
      intro letter hletter
      cases hletter
      exact h c cs (pairAt_pair_iff.2 (.inl ⟨rfl, rfl⟩))
    · rintro ⟨hfirst, hothers⟩ letter after hpair
      rcases pairAt_pair_iff.1 hpair with ⟨rfl, rfl⟩ | hlater
      · exact hfirst c rfl
      · exact hothers letter after hlater
  · have hplain := ne_backslash_of_itemFor? hl hitem fun c hc => hescaped ⟨c, hc⟩
    simp only [pairAt_append_iff_of_forall hplain]
    exact (and_iff_right fun letter hletter => absurd ⟨letter, hletter⟩ hescaped).symm

/-- **The pairs in the pieces are the escapes among the lexemes.** -/
theorem forall_spans_iff (front : List Char) (groups : Groups) (kinds : List GroupKind)
    {Q : Groups → Char → List Char → Prop} (hbody : body = front ++ ls.flatMap Lexeme.text)
    (hls : ∀ l ∈ ls, l.Readable bad) :
    (∀ s ∈ spans body groups (byteLength front) (layout (byteLength front) kinds ls),
      ∀ letter after, PairAt s.text letter after → Q s.groups letter after) ↔
    ∀ before letter after, ls = before ++ .escaped letter :: after →
      Q ((before.filterMap Lexeme.captureName?).reverse ++ groups) letter
        (span (kindsThrough kinds before) after) := by
  induction ls generalizing front groups kinds with
  | nil =>
    refine iff_of_true ?_ (by simp)
    rw [spans_layout groups kinds hbody 0]
    simp [layout, spans, span, not_pairAt_nil]
  | cons l ls ih =>
    obtain ⟨hl, hls⟩ := List.forall_mem_cons.1 hls
    have hfront : body = front ++ l.text ++ ls.flatMap Lexeme.text := by
      rw [hbody, List.flatMap_cons, List.append_assoc]
    have hcapture := bind_itemFor? kinds l
    rw [forall_escaped_cons]
    cases hitem : itemFor? kinds l with
    | some item =>
      have hescaped : ∀ letter, l ≠ .escaped letter := by
        rintro letter rfl
        cases hitem
      have hgroups : ∀ before : List Lexeme,
          ((l :: before).filterMap Lexeme.captureName?).reverse ++ groups =
            (before.filterMap Lexeme.captureName?).reverse ++ groupsAfter groups item := by
        intro before
        rw [hitem, Option.bind_some] at hcapture
        rw [groupsAfter, hcapture, List.filterMap_cons]
        cases l.captureName? <;> simp
      have hempty : sliceBytes (byteLength front) (byteLength front) body = [] := by
        rw [sliceBytes, Nat.sub_self]
        exact congrArg Prod.fst (splitBytes_byteLength [] _)
      have hlater := ih (front ++ l.text) (groupsAfter groups item) (kindsAfter kinds l) hfront hls
      rw [byteLength_append] at hlater
      simp only [hgroups]
      rw [layout_of_some hitem, spans, List.forall_mem_cons, hempty]
      refine and_congr (iff_of_true ?_ ?_) hlater
      · exact fun _ _ h => absurd h not_pairAt_nil
      · exact fun letter h => absurd h (hescaped letter)
    | none =>
      have hgroups : ∀ before : List Lexeme,
          (l :: before).filterMap Lexeme.captureName? =
            before.filterMap Lexeme.captureName? := by
        intro before
        rw [hitem, Option.bind_none] at hcapture
        exact List.filterMap_cons_none hcapture.symm
      have hkinds : ∀ before, kindsThrough kinds (l :: before) = kindsThrough kinds before := by
        intro before
        rw [kindsThrough, List.foldl_cons, kindsAfter_of_itemFor? hitem]
        rfl
      have hspan : span kinds (l :: ls) = l.text ++ span kinds ls := by rw [span, hitem]
      have hlater := ih (front ++ l.text) groups kinds hfront hls
      -- the lists of pieces differ in the first one only, and there by the text of the lexeme
      have hwhole := spans_layout groups kinds hbody (byteLength (front ++ l.text))
      have hrest := spans_layout groups kinds hfront (byteLength (front ++ l.text))
      rw [layout_of_none hitem, ← byteLength_append, hspan] at hwhole
      simp only [hgroups, hkinds]
      rw [← hlater, layout_of_none hitem, ← byteLength_append, hwhole, hrest,
        List.forall_mem_cons, List.forall_mem_cons, ← and_assoc]
      exact and_congr_left' (forall_pairAt_append hl hitem)

end Conversion

end RegexText
