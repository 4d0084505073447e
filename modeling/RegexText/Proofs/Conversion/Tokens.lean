/-
  RegexText/Proofs/Conversion/Tokens.lean
  =======================================
  **The converter walks over tokens, and so over lexemes.**

  The converter is given offsets, and cuts the body at them.  The tokens of a
  layout lie where their lexemes lie, so the cuts fall between the lexemes, and
  the literal text in front of a token is that of the literal lexemes in front of
  it: the *span*.

  `Carries` says what some lexemes are converted to, wherever in a body they
  stand.  Literal lexemes and tokens can be put in front one by one.
-/
import RegexText.Proofs.Conversion.Literal
import RegexText.Proofs.TokenStream.Tree
import RegexText.Proofs.TokenStream.WellFormed

namespace RegexText

open Text TokenStream

namespace Text

theorem splitBytes_byteLength_add (as bs : List Char) (n : Nat) :
    splitBytes (byteLength as + n) (as ++ bs) =
      (as ++ (splitBytes n bs).1, (splitBytes n bs).2) := by
  induction as with
  | nil => simp
  | cons a as ih =>
    have hfits : a.utf8Size ≤ byteLength (a :: as) + n := by
      rw [byteLength_cons]
      omega
    have hrest : byteLength (a :: as) + n - a.utf8Size = byteLength as + n := by
      rw [byteLength_cons]
      omega
    rw [List.cons_append, splitBytes, if_pos hfits, hrest, ih]
    rfl

end Text

namespace Conversion

/-! ### Links do not matter -/

theorem convertToken_unlinked (t : Token) : convertToken (unlinked t) = convertToken t := by
  obtain ⟨pos, len, item⟩ := t
  cases item <;> rfl

theorem opened_unlinkedItem (captures : Captures) (item : TokenItem) :
    opened captures (unlinkedItem item) = opened captures item := by
  cases item with
  | groupStart opener endToken => cases opener <;> rfl
  | characterClass content quantifiers => rfl
  | optionGroup options => rfl
  | groupEnd kind startToken quantifiers => rfl

/-- The converter does not look at the links between the ends of a group. -/
theorem convertTokens_unlinked (dotAll : Bool) (captures : Captures) (pos : Nat)
    (rest : List Char) (ts : List Token) :
    convertTokens dotAll captures pos rest (ts.map unlinked) =
      convertTokens dotAll captures pos rest ts := by
  induction ts generalizing captures pos rest with
  | nil => rfl
  | cons t ts ih =>
    simp only [List.map_cons, convertTokens, convertToken_unlinked, ih]
    simp only [unlinked, opened_unlinkedItem, Token.stop]

end Conversion

/-! ### Spans of literal text -/

namespace TokenStream

/-- The text in front of the first token. -/
def span (kinds : List GroupKind) : List Lexeme → List Char
  | [] => []
  | l :: ls =>
    match itemFor? kinds l with
    | none => l.text ++ span kinds ls
    | some _ => []

theorem kindsAfter_of_itemFor? {kinds : List GroupKind} {l : Lexeme}
    (h : itemFor? kinds l = none) : kindsAfter kinds l = kinds := by
  cases l with
  | opener opener text => cases h
  | closer quantifiers =>
    cases kinds with
    | nil => rfl
    | cons kind kinds => cases h
  | plain c => rfl
  | escaped c => rfl
  | loneBackslash => rfl
  | bracket content quantifiers => rfl
  | optionSetting options => rfl
  | unclosedBracket after => rfl
  | unknownGroup after => rfl

theorem itemFor?_of_literal {l : Lexeme} (h : l.isLiteral = true) (kinds : List GroupKind) :
    itemFor? kinds l = none := by
  cases l <;> first | rfl | cases h

theorem layout_of_none {pos : Nat} {kinds : List GroupKind} {l : Lexeme} {ls : List Lexeme}
    (h : itemFor? kinds l = none) :
    layout pos kinds (l :: ls) = layout (pos + byteLength l.text) kinds ls := by
  rw [layout, h, kindsAfter_of_itemFor? h]
  rfl

theorem layout_of_some {pos : Nat} {kinds : List GroupKind} {l : Lexeme} {ls : List Lexeme}
    {item : TokenItem} (h : itemFor? kinds l = some item) :
    layout pos kinds (l :: ls) =
      ⟨pos, byteLength l.text, item⟩ ::
        layout (pos + byteLength l.text) (kindsAfter kinds l) ls := by
  rw [layout, h]
  rfl

theorem span_of_layout_nil {pos : Nat} {kinds : List GroupKind} {ls : List Lexeme}
    (h : layout pos kinds ls = []) : span kinds ls = ls.flatMap Lexeme.text := by
  induction ls generalizing pos with
  | nil => rfl
  | cons l ls ih =>
    cases hitem : itemFor? kinds l with
    | none =>
      rw [layout_of_none hitem] at h
      simp only [span, hitem, List.flatMap_cons, ih h]
    | some item =>
      rw [layout_of_some hitem] at h
      cases h

/-- The cut at the first token is behind the span. -/
theorem splitBytes_of_layout_cons {pos : Nat} {kinds : List GroupKind} {ls : List Lexeme}
    {t : Token} {ts : List Token} (h : layout pos kinds ls = t :: ts) :
    (splitBytes (t.pos - pos) (ls.flatMap Lexeme.text)).1 = span kinds ls := by
  induction ls generalizing pos with
  | nil => cases h
  | cons l ls ih =>
    cases hitem : itemFor? kinds l with
    | none =>
      rw [layout_of_none hitem] at h
      have hpos : pos + byteLength l.text ≤ t.pos :=
        pos_le_of_mem_layout (h ▸ List.mem_cons_self ..)
      have hlen : t.pos - pos = byteLength l.text + (t.pos - (pos + byteLength l.text)) := by
        omega
      rw [List.flatMap_cons, hlen, splitBytes_byteLength_add, ih h]
      simp only [span, hitem]
    | some item =>
      rw [layout_of_some hitem] at h
      cases h
      have hcut := splitBytes_byteLength [] ((l :: ls).flatMap Lexeme.text)
      simp only [span, hitem, Nat.sub_self]
      exact congrArg Prod.fst hcut

theorem span_literal {lits : List Lexeme} (h : ∀ l ∈ lits, l.isLiteral = true)
    (kinds : List GroupKind) (ls : List Lexeme) :
    span kinds (lits ++ ls) = lits.flatMap Lexeme.text ++ span kinds ls := by
  induction lits with
  | nil => rfl
  | cons l lits ih =>
    have hitem := itemFor?_of_literal (h l (List.mem_cons_self ..)) kinds
    rw [List.cons_append, span, hitem, ih fun m hm => h m (List.mem_cons_of_mem _ hm)]
    simp

theorem layout_literal {lits : List Lexeme} (h : ∀ l ∈ lits, l.isLiteral = true) (pos : Nat)
    (kinds : List GroupKind) (ls : List Lexeme) :
    layout pos kinds (lits ++ ls) =
      layout (pos + byteLength (lits.flatMap Lexeme.text)) kinds ls := by
  induction lits generalizing pos with
  | nil => rfl
  | cons l lits ih =>
    have hitem := itemFor?_of_literal (h l (List.mem_cons_self ..)) kinds
    rw [List.cons_append, layout_of_none hitem, ih fun m hm => h m (List.mem_cons_of_mem _ hm),
      List.flatMap_cons, byteLength_append, Nat.add_assoc]

end TokenStream

namespace Source

open Conversion

/-! ### What lexemes are converted to -/

/-- Are some lexemes, inside groups of the given kinds, converted to a text, wherever they
    stand? -/
def Carries (dotAll : Bool) (groups : Groups) (kinds : List GroupKind) (ls : List Lexeme)
    (y : List Char) (final : Captures) : Prop :=
  ∀ pos, (convertTokens dotAll (capturesOf groups) pos (ls.flatMap Lexeme.text)
    (layout pos kinds ls)).outcome = .ok (y, final)

namespace Carries

variable {dotAll : Bool} {groups : Groups} {kinds : List GroupKind} {ls : List Lexeme}
  {x y : List Char} {final : Captures}

theorem nil : Carries dotAll groups kinds [] [] (capturesOf groups) := by
  intro pos
  have hempty : (convertLiteral dotAll (capturesOf groups) []).outcome = .ok [] := by
    rw [convertLiteral_of_none rfl]
    exact Expands.nil.outcome
  exact Traced.outcome_bind_eq_ok_iff.2 ⟨[], hempty, rfl⟩

theorem literal {lits : List Lexeme} (hlits : ∀ l ∈ lits, l.isLiteral = true)
    (hx : Rewrites dotAll groups (digitAhead (span kinds ls)) (lits.flatMap Lexeme.text) x)
    (h : Carries dotAll groups kinds ls y final) :
    Carries dotAll groups kinds (lits ++ ls) (x ++ y) final := by
  intro pos
  have hbehind := h (pos + byteLength (lits.flatMap Lexeme.text))
  rw [layout_literal hlits, List.flatMap_append]
  cases hlayout : layout (pos + byteLength (lits.flatMap Lexeme.text)) kinds ls with
  | nil =>
    rw [hlayout] at hbehind
    obtain ⟨later, hlater, hy⟩ := Traced.outcome_bind_eq_ok_iff.1 hbehind
    cases hy
    refine Traced.outcome_bind_eq_ok_iff.2 ⟨x ++ y, ?_, rfl⟩
    rw [span_of_layout_nil hlayout] at hx
    exact hx _ _ rfl hlater
  | cons t ts =>
    -- the first token stays where it is, and the literal text in front of it grows
    have hpos : pos + byteLength (lits.flatMap Lexeme.text) ≤ t.pos :=
      pos_le_of_mem_layout (hlayout ▸ List.mem_cons_self ..)
    have hlen : t.pos - pos = byteLength (lits.flatMap Lexeme.text) +
        (t.pos - (pos + byteLength (lits.flatMap Lexeme.text))) := by omega
    have hspan := splitBytes_of_layout_cons hlayout
    rw [hlayout] at hbehind
    obtain ⟨before, hbefore, hrest⟩ := Traced.outcome_bind_eq_ok_iff.1 hbehind
    obtain ⟨token, htoken, hlast⟩ := Traced.outcome_bind_eq_ok_iff.1 hrest
    obtain ⟨later, hlater, hy⟩ := Traced.outcome_bind_eq_ok_iff.1 hlast
    cases hy
    rw [convertTokens, hlen, splitBytes_byteLength_add]
    refine Traced.outcome_bind_eq_ok_iff.2 ⟨x ++ before, ?_, ?_⟩
    · rw [← hspan] at hx
      exact hx _ _ rfl hbefore
    · refine Traced.outcome_bind_eq_ok_iff.2 ⟨token, htoken, ?_⟩
      refine Traced.outcome_bind_eq_ok_iff.2 ⟨later, hlater, ?_⟩
      simp

theorem token {l : Lexeme} {item : TokenItem} {after : Groups}
    (hitem : itemFor? kinds l = some item)
    (htoken : ∀ pos, (convertToken ⟨pos, byteLength l.text, item⟩).outcome = .ok x)
    (hopened : Conversion.opened (capturesOf groups) item = capturesOf after)
    (h : Carries dotAll after (kindsAfter kinds l) ls y final) :
    Carries dotAll groups kinds (l :: ls) (x ++ y) final := by
  intro pos
  have hempty : (convertLiteral dotAll (capturesOf groups) []).outcome = .ok [] := by
    rw [convertLiteral_of_none rfl]
    exact Expands.nil.outcome
  have hfront : splitBytes (pos - pos) (l.text ++ ls.flatMap Lexeme.text) =
      ([], l.text ++ ls.flatMap Lexeme.text) := by
    rw [Nat.sub_self]
    exact splitBytes_byteLength [] _
  rw [layout_of_some hitem, List.flatMap_cons, convertTokens, hfront]
  refine Traced.outcome_bind_eq_ok_iff.2 ⟨[], hempty, ?_⟩
  refine Traced.outcome_bind_eq_ok_iff.2 ⟨x, htoken pos, ?_⟩
  refine Traced.outcome_bind_eq_ok_iff.2 ⟨(y, final), ?_, rfl⟩
  rw [hopened, splitBytes_byteLength]
  exact h _

end Carries

end Source

end RegexText
