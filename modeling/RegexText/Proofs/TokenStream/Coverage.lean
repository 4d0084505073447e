/-
  RegexText/Proofs/TokenStream/Coverage.lean
  ==========================================
  **Tokens and the text between them make up the body.**

  A token stands for the characters of one lexeme, and its item tells which.  What
  lies between two tokens holds no bracket and no parenthesis, except behind a
  backslash, so nothing that could have been a token has been passed over.

  `Tiles` says both at once, from an offset to the end of the body.  It follows the
  tokens and not the lexemes: a lexeme that is no token widens the gap before the
  next one.
-/
import RegexText.Proofs.Lexeme.Grammar
import RegexText.Proofs.TokenStream.Run
import RegexText.Proofs.Traced

namespace RegexText

open Text

/-- Does an item say which lexeme has been read?  An item knows more than its lexeme: the other
    end of a group, and of which kind the group is. -/
inductive TokenItem.Shows : TokenItem → Lexeme → Prop where
  | bracket (content quantifiers : List Char) :
      Shows (.characterClass (String.ofList content) (String.ofList quantifiers))
        (.bracket content quantifiers)
  | setting (options : List Char) :
      Shows (.optionGroup (String.ofList options)) (.optionSetting options)
  | start (opener : Opener) (text : List Char) (endToken : Nat) :
      Shows (.groupStart opener endToken) (.opener opener text)
  | stop (kind : GroupKind) (startToken : Nat) (quantifiers : List Char) :
      Shows (.groupEnd kind startToken (String.ofList quantifiers)) (.closer quantifiers)

namespace TokenStream

/-- The characters with which a token can begin. -/
def BeginsToken (c : Char) : Prop := c ∈ ['[', '(', ')']

/-- Do some tokens, and gaps in which none of them could have begun, make up a text whose first
    character is at offset `pos`? -/
inductive Tiles : Nat → List Char → List Token → Prop where
  /-- The last gap reaches to the end of the text, be it the end of a pair or not. -/
  | done {pos : Nat} {gap : List Char} (hgap : ¬ HasUnescaped BeginsToken gap) : Tiles pos gap []
  | token {pos : Nat} {gap rest : List Char} {t : Token} {l : Lexeme} {ts : List Token}
      (hgap : ¬ HasUnescaped BeginsToken gap) (hcomplete : Complete gap)
      (hpos : t.pos = pos + byteLength gap) (hlen : t.len = byteLength l.text)
      (hshows : t.item.Shows l) (hl : l.Precedes rest) (hrest : Tiles t.stop rest ts) :
      Tiles pos (gap ++ (l.text ++ rest)) (t :: ts)

variable {limit pos : Nat} {kinds : List GroupKind} {s s' : State} {cs rest body : List Char}
  {l : Lexeme} {ls : List Lexeme} {item : TokenItem} {t : Token} {ts tokens : List Token}

theorem not_beginsToken_backslash : ¬ BeginsToken '\\' := by
  simp [BeginsToken]

/-! ### Items -/

theorem shows_of_itemFor? (h : itemFor? kinds l = some item) : item.Shows l := by
  cases l with
  | bracket content quantifiers =>
    cases h
    exact .bracket content quantifiers
  | optionSetting options =>
    cases h
    exact .setting options
  | opener opener text =>
    cases h
    exact .start opener text 0
  | closer quantifiers =>
    obtain ⟨kind, _, rfl⟩ := Option.map_eq_some_iff.1 h
    exact .stop kind 0 quantifiers
  | _ => cases h

theorem shows_of_unlinkedItem (h : (unlinkedItem item).Shows l) : item.Shows l := by
  cases item with
  | groupStart opener endToken =>
    cases h
    exact .start ..
  | groupEnd kind startToken quantifiers =>
    cases h
    exact .stop ..
  | _ => exact h

/-- What is read and becomes no token is literal text. -/
theorem Moves.isLiteral (h : Moves limit s l s') (hitem : itemFor? s.kinds l = none) :
    l.isLiteral = true := by
  cases h with
  | skip hliteral => exact hliteral
  | emit hflat => cases l <;> cases hflat <;> cases hitem
  | opened => cases hitem
  | closed hopen => simp [itemFor?, State.kinds, hopen] at hitem

/-! ### Gaps -/

theorem Tiles.eq_nil (h : Tiles pos [] ts) : ts = [] := by
  generalize hcs : ([] : List Char) = cs at h
  cases h with
  | done => rfl
  | token _ _ _ _ _ hl _ =>
    have hempty := List.append_eq_nil_iff.1 hcs.symm
    exact absurd (List.append_eq_nil_iff.1 hempty.2).1 (Lexeme.text_ne_nil_of_precedes hl)

theorem freeOf_literal (hl : l.Precedes rest) (hliteral : l.isLiteral = true)
    (hpair : l ≠ .loneBackslash) : FreeOf BeginsToken l.text := by
  cases hl with
  | plain h =>
    simp only [List.mem_cons, List.not_mem_nil, or_false, not_or] at h
    exact .single h.1 (by simp [BeginsToken, h.2]) .nil
  | escaped c => exact .pair c .nil
  | loneBackslash => exact absurd rfl hpair
  | special hspecial => cases hspecial <;> cases hliteral
  | _ => cases hliteral

/-- Literal text widens the gap before the first token. -/
theorem Tiles.literal (hl : l.Precedes rest) (hliteral : l.isLiteral = true)
    (h : Tiles (pos + byteLength l.text) rest ts) : Tiles pos (l.text ++ rest) ts := by
  by_cases hpair : l = .loneBackslash
  · -- a backslash that escapes nothing ends the body, so it cannot stand before a token
    subst hpair
    cases hl with
    | loneBackslash =>
      rw [h.eq_nil]
      exact .done (not_hasUnescaped_lone not_beginsToken_backslash)
    | special hspecial => cases hspecial
  · have hfree := freeOf_literal hl hliteral hpair
    cases h with
    | done hgap =>
      exact .done (mt (hasUnescaped_append_iff not_beginsToken_backslash hfree).1 hgap)
    | @token _ gap behind t m ts hgap hcomplete hpos hlen hshows hm hrest =>
      rw [← List.append_assoc]
      refine .token ?_ (hfree.complete.append hcomplete) ?_ hlen hshows hm hrest
      · exact mt (hasUnescaped_append_iff not_beginsToken_backslash hfree).1 hgap
      · rw [hpos, byteLength_append, Nat.add_assoc]

/-! ### Bodies -/

theorem tiles_layout (h : Reads limit s ls s') (hcut : Lexeme.Cut cs ls) :
    Tiles s.pos cs (layout s.pos s.kinds ls) := by
  induction hcut generalizing s with
  | nil => exact .done not_hasUnescaped_nil
  | @cons l rest ls hl _ ih =>
    obtain ⟨mid, hmove, hreads⟩ := reads_cons.1 h
    obtain ⟨hpos, hkinds, _⟩ := hmove.layout
    have hlater := ih hreads
    rw [hpos, hkinds] at hlater
    rw [layout]
    cases hitem : itemFor? s.kinds l with
    | none => exact hlater.literal hl (hmove.isLiteral hitem)
    | some item =>
      -- nothing lies between the offset and the token
      rw [← List.nil_append (l.text ++ rest)]
      exact .token not_hasUnescaped_nil .nil rfl rfl (shows_of_itemFor? hitem) hl hlater

/-- Where tokens lie does not depend on their links. -/
theorem Tiles.of_map_unlinked (h : Tiles pos cs (ts.map unlinked)) : Tiles pos cs ts := by
  generalize hus : ts.map unlinked = us at h
  induction h generalizing ts with
  | done hgap =>
    rw [List.map_eq_nil_iff.1 hus]
    exact .done hgap
  | token hgap hcomplete hpos hlen hshows hl _ ih =>
    obtain ⟨t, later, rfl, rfl, hlater⟩ := List.map_eq_cons_iff.1 hus
    exact .token hgap hcomplete hpos hlen (shows_of_unlinkedItem hshows) hl (ih hlater)

/-- Where a token lies in a text. -/
theorem Tiles.exists_of_mem (h : Tiles pos cs ts) (ht : t ∈ ts) : ∃ before l after,
    cs = before ++ (l.text ++ after) ∧ t.pos = pos + byteLength before ∧
      t.len = byteLength l.text ∧ t.item.Shows l ∧ l.Precedes after := by
  induction h with
  | done => cases ht
  | @token pos gap rest first l later _ _ hpos hlen hshows hl _ ih =>
    rcases List.mem_cons.1 ht with rfl | hmem
    · exact ⟨gap, l, rest, rfl, hpos, hlen, hshows, hl⟩
    · obtain ⟨before, m, after, rfl, hpos', hlen', hshows', hm⟩ := ih hmem
      refine ⟨gap ++ (l.text ++ before), m, after, by simp, ?_, hlen', hshows', hm⟩
      rw [hpos', Token.stop, hpos, hlen]
      simp only [byteLength_append]
      omega

/-- **The tokens of a body and the gaps between them make up the body**, and the slice of a token is
    the text of the lexeme that its item shows. -/
theorem tiles_of_tokenize (h : (tokenize limit body).outcome = .ok tokens) :
    Tiles 0 body tokens ∧ ∀ t ∈ tokens, ∃ before l after,
      body = before ++ (l.text ++ after) ∧ t.pos = byteLength before ∧
        sliceBytes t.pos t.stop body = l.text ∧ t.item.Shows l ∧ l.Precedes after := by
  obtain ⟨s, hreads, _, _⟩ := tokenize_eq_ok_iff.1 h
  have hlayout := tiles_layout hreads (Lexeme.cut_ofBody body)
  have htiles : Tiles 0 body tokens :=
    Tiles.of_map_unlinked ((map_unlinked_of_tokenize h).symm ▸ hlayout)
  refine ⟨htiles, fun t ht => ?_⟩
  obtain ⟨before, l, after, hbody, hpos, hlen, hshows, hl⟩ := htiles.exists_of_mem ht
  rw [Nat.zero_add] at hpos
  refine ⟨before, l, after, hbody, hpos, ?_, hshows, hl⟩
  rw [Token.stop, hpos, hlen, hbody, sliceBytes_append]

/-- A named group around a bracket expression, behind an escaped bracket and a character of two
    bytes, and before a backslash that escapes nothing. -/
def gappedTokens : List Token :=
  [⟨4, 5, .groupStart (.capturing (some "n")) 2⟩, ⟨9, 7, .characterClass "\\]+" "*+"⟩,
    ⟨16, 3, .groupEnd .capturing 0 "++"⟩]

theorem tiles_of_tokenize_gapped :
    (tokenize 1 "é\\[(?<n>[\\]+]*+)++|\\".toList).outcome = .ok gappedTokens ∧
      Tiles 0 "é\\[(?<n>[\\]+]*+)++|\\".toList gappedTokens := by
  have htokens : (tokenize 1 "é\\[(?<n>[\\]+]*+)++|\\".toList).outcome = .ok gappedTokens := by
    decide +kernel
  exact ⟨htokens, (tiles_of_tokenize htokens).1⟩

end TokenStream

end RegexText
