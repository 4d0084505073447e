/-
  RegexText/Proofs/TokenStream/Run.lean
  =====================================
  **What reading a lexeme can do, and which tokens a whole reading leaves.**

  `Moves` lists the transitions of the reader: stepping over literal text,
  emitting a token that stands alone, opening a group and closing the innermost
  one.  `step_eq_ok_iff` says that these are all of them, so that every invariant
  is proved by cases on `Moves` and no proof opens `step` again.

  Apart from the links between the two ends of a group, the tokens do not depend
  on the reader at all.  `layout` computes them from the lexemes, and
  `Reads.layout` says that a successful reading leaves these tokens, with links
  filled in.
-/
import RegexText.TokenStream

namespace RegexText

open Text

/-! ### Lengths -/

namespace Text

theorem byteLength_pos {cs : List Char} (h : cs ≠ []) : 0 < byteLength cs := by
  cases cs with
  | nil => exact absurd rfl h
  | cons c cs =>
    have := c.utf8Size_pos
    simp only [byteLength_cons]
    omega

theorem length_le_byteLength (cs : List Char) : cs.length ≤ byteLength cs := by
  induction cs with
  | nil => exact Nat.le_refl 0
  | cons c cs ih =>
    have hpos := c.utf8Size_pos
    rw [List.length_cons, byteLength_cons]
    omega

theorem eq_nil_of_byteLength {cs : List Char} (h : byteLength cs = 0) : cs = [] := by
  cases cs with
  | nil => rfl
  | cons c cs => exact absurd h (Nat.ne_of_gt (byteLength_pos (List.cons_ne_nil c cs)))

end Text

/-! ### Kinds of lexemes -/

namespace Lexeme

/-- Is a lexeme literal text, which has no token? -/
def isLiteral : Lexeme → Bool
  | .plain _ | .escaped _ | .loneBackslash => true
  | .bracket _ _ | .optionSetting _ | .opener _ _ | .closer _ => false
  | .unclosedBracket _ | .unknownGroup _ => false

/-- The item of a token that is not an end of a group. -/
def flatItem? : Lexeme → Option TokenItem
  | .bracket content quantifiers =>
    some (.characterClass (String.ofList content) (String.ofList quantifiers))
  | .optionSetting options => some (.optionGroup (String.ofList options))
  | _ => none

end Lexeme

namespace TokenStream

namespace State

def itemAt? (s : State) (i : Nat) : Option TokenItem := (s.tokens[i]?).map Token.item

def opened (s : State) (opener : Opener) (text : List Char) : State :=
  { s.emit (.opener opener text) (.groupStart opener 0) with
    openGroups := ⟨s.tokens.size, opener.kind, s.pos⟩ :: s.openGroups }

/-- The state after the end of `group`, inside the groups `enclosing`. -/
def closed (s : State) (group : OpenGroup) (enclosing : List OpenGroup)
    (quantifiers : List Char) : State :=
  let linked := { s with
    tokens := s.tokens.modify group.startToken (link s.tokens.size)
    openGroups := enclosing }
  linked.emit (.closer quantifiers)
    (.groupEnd group.kind group.startToken (String.ofList quantifiers))

@[simp] theorem skip_tokens (s : State) (l : Lexeme) : (s.skip l).tokens = s.tokens := rfl

@[simp] theorem opened_openGroups (s : State) (opener : Opener) (text : List Char) :
    (s.opened opener text).openGroups =
      ⟨s.tokens.size, opener.kind, s.pos⟩ :: s.openGroups := rfl

@[simp] theorem closed_openGroups (s : State) (group : OpenGroup)
    (enclosing : List OpenGroup) (quantifiers : List Char) :
    (s.closed group enclosing quantifiers).openGroups = enclosing := rfl

@[simp] theorem emit_size (s : State) (l : Lexeme) (item : TokenItem) :
    (s.emit l item).tokens.size = s.tokens.size + 1 := Array.size_push _

@[simp] theorem opened_size (s : State) (opener : Opener) (text : List Char) :
    (s.opened opener text).tokens.size = s.tokens.size + 1 := Array.size_push _

@[simp] theorem closed_size (s : State) (group : OpenGroup)
    (enclosing : List OpenGroup) (quantifiers : List Char) :
    (s.closed group enclosing quantifiers).tokens.size = s.tokens.size + 1 := by
  simp [closed]

end State

/-! ### Items of later states -/

namespace State

theorem itemAt?_eq_none {s : State} {i : Nat} (h : s.tokens.size ≤ i) : s.itemAt? i = none := by
  simp [itemAt?, Array.getElem?_eq_none h]

theorem lt_size_of_itemAt? {s : State} {i : Nat} {item : TokenItem}
    (h : s.itemAt? i = some item) : i < s.tokens.size := by
  rcases Nat.lt_or_ge i s.tokens.size with hlt | hge
  · exact hlt
  · rw [itemAt?_eq_none hge] at h
    cases h

theorem itemAt?_emit (s : State) (l : Lexeme) (item : TokenItem) (i : Nat) :
    (s.emit l item).itemAt? i = if i = s.tokens.size then some item else s.itemAt? i := by
  simp only [itemAt?, emit, Array.getElem?_push]
  split <;> rfl

theorem itemAt?_opened (s : State) (opener : Opener) (text : List Char) (i : Nat) :
    (s.opened opener text).itemAt? i =
      if i = s.tokens.size then some (.groupStart opener 0) else s.itemAt? i :=
  itemAt?_emit s _ _ i

theorem getElem?_opened {s : State} {i : Nat} (hi : i < s.tokens.size) (opener : Opener)
    (text : List Char) : (s.opened opener text).tokens[i]? = s.tokens[i]? := by
  simp [opened, emit, Array.getElem?_push, Nat.ne_of_lt hi]

/-- The end of a group changes no earlier token but the start of the group. -/
theorem getElem?_closed {s : State} {group : OpenGroup} {i : Nat} (hi : i < s.tokens.size)
    (hne : i ≠ group.startToken) (enclosing : List OpenGroup) (quantifiers : List Char) :
    (s.closed group enclosing quantifiers).tokens[i]? = s.tokens[i]? := by
  simp [closed, emit, Array.getElem?_push, Array.getElem?_modify, Nat.ne_of_lt hi, hne.symm]

theorem getElem?_closed_size (s : State) (group : OpenGroup) (enclosing : List OpenGroup)
    (quantifiers : List Char) :
    (s.closed group enclosing quantifiers).tokens[s.tokens.size]? =
      some ⟨s.pos, byteLength (Lexeme.closer quantifiers).text,
        .groupEnd group.kind group.startToken (String.ofList quantifiers)⟩ := by
  simp only [closed, emit, Array.getElem?_push, Array.size_modify, if_true]

/-- The item of a start, once its end is known. -/
def linkedItem (endToken : Nat) : TokenItem → TokenItem
  | .groupStart opener _ => .groupStart opener endToken
  | item => item

theorem item_link (endToken : Nat) (t : Token) :
    (link endToken t).item = linkedItem endToken t.item := by
  unfold link linkedItem
  split <;> simp_all

theorem itemAt?_closed (s : State) (group : OpenGroup) (enclosing : List OpenGroup)
    (quantifiers : List Char) (i : Nat) :
    (s.closed group enclosing quantifiers).itemAt? i =
      if i = s.tokens.size then
        some (.groupEnd group.kind group.startToken (String.ofList quantifiers))
      else if i = group.startToken then (s.itemAt? i).map (linkedItem s.tokens.size)
      else s.itemAt? i := by
  simp only [closed, itemAt?_emit, Array.size_modify]
  split
  · rfl
  · simp only [itemAt?, Array.getElem?_modify, eq_comm (a := group.startToken)]
    split
    · simp only [Option.map_map]
      congr 1
      funext t
      exact item_link _ t
    · rfl

end State

/-! ### Transitions -/

/-- One transition of the reader, with at most `limit` groups open at a time. -/
inductive Moves (limit : Nat) (s : State) : Lexeme → State → Prop where
  | skip {l : Lexeme} (hliteral : l.isLiteral = true) : Moves limit s l (s.skip l)
  | emit {l : Lexeme} {item : TokenItem} (hitem : l.flatItem? = some item) :
      Moves limit s l (s.emit l item)
  | opened {opener : Opener} {text : List Char} (hroom : s.openGroups.length < limit) :
      Moves limit s (.opener opener text) (s.opened opener text)
  | closed {group : OpenGroup} {enclosing : List OpenGroup} {quantifiers : List Char}
      (hopen : s.openGroups = group :: enclosing) :
      Moves limit s (.closer quantifiers) (s.closed group enclosing quantifiers)

/-- **The transitions are exactly the successful steps.** -/
theorem step_eq_ok_iff {limit : Nat} {s s' : State} {l : Lexeme} :
    step limit s l = .ok s' ↔ Moves limit s l s' := by
  constructor
  · intro h
    cases l with
    | plain c => cases h; exact .skip rfl
    | escaped c => cases h; exact .skip rfl
    | loneBackslash => cases h; exact .skip rfl
    | bracket content quantifiers => cases h; exact .emit rfl
    | optionSetting options => cases h; exact .emit rfl
    | opener opener text =>
      simp only [step] at h
      split at h
      · cases h
      · rename_i hroom
        cases h
        exact .opened (by omega)
    | closer quantifiers =>
      simp only [step] at h
      split at h
      · cases h
      · rename_i group enclosing hopen
        cases h
        exact .closed hopen
    | unclosedBracket after => cases h
    | unknownGroup after => cases h
  · intro h
    cases h with
    | skip hliteral => cases l <;> first | rfl | simp [Lexeme.isLiteral] at hliteral
    | emit hitem =>
      cases l <;> simp only [Lexeme.flatItem?, Option.some.injEq, reduceCtorEq] at hitem
      · subst hitem; rfl
      · subst hitem; rfl
    | opened hroom =>
      have hnot : ¬ limit ≤ s.openGroups.length := by omega
      simp only [step, if_neg hnot, State.opened]
    | closed hopen => simp only [step, hopen, State.closed]

def Reads (limit : Nat) (s : State) (ls : List Lexeme) (s' : State) : Prop :=
  ls.foldlM (step limit) s = .ok s'

@[simp] theorem reads_nil {limit : Nat} {s s' : State} : Reads limit s [] s' ↔ s = s' := by
  simp [Reads, pure, Except.pure]

@[simp] theorem reads_cons {limit : Nat} {s s' : State} {l : Lexeme} {ls : List Lexeme} :
    Reads limit s (l :: ls) s' ↔ ∃ mid, Moves limit s l mid ∧ Reads limit mid ls s' := by
  simp only [Reads, List.foldlM_cons, ← step_eq_ok_iff]
  cases step limit s l with
  | error e => simp [bind, Except.bind]
  | ok mid => simp [bind, Except.bind]

theorem reads_append {limit : Nat} {s s' : State} {ls ms : List Lexeme} :
    Reads limit s (ls ++ ms) s' ↔ ∃ mid, Reads limit s ls mid ∧ Reads limit mid ms s' := by
  induction ls generalizing s with
  | nil => simp
  | cons l ls ih =>
    simp only [List.cons_append, reads_cons, ih]
    constructor
    · rintro ⟨first, hfirst, mid, hmid, hlast⟩
      exact ⟨mid, ⟨first, hfirst, hmid⟩, hlast⟩
    · rintro ⟨mid, ⟨first, hfirst, hmid⟩, hlast⟩
      exact ⟨first, hfirst, mid, hmid, hlast⟩

/-- What holds of a state and is kept by every transition holds after a reading. -/
theorem Reads.invariant {limit : Nat} {P : State → Prop}
    (hstep : ∀ s s' l, P s → Moves limit s l s' → P s')
    {s s' : State} {ls : List Lexeme} (hs : P s) (h : Reads limit s ls s') : P s' := by
  induction ls generalizing s with
  | nil => exact reads_nil.1 h ▸ hs
  | cons l ls ih =>
    obtain ⟨mid, hmove, hrest⟩ := reads_cons.1 h
    exact ih (hstep s mid l hs hmove) hrest

/-- A body has tokens exactly when its lexemes can be read to the last with every group
    closed, and then they are those of the last state. -/
theorem tokenize_eq_ok_iff {limit : Nat} {body : List Char} {tokens : List Token} :
    (tokenize limit body).outcome = .ok tokens ↔
      ∃ s, Reads limit .initial (Lexeme.ofBody body) s ∧ s.openGroups = [] ∧
        s.tokens.toList = tokens := by
  rw [outcome_tokenize]
  have hfinish : ∀ s, finish s = .ok tokens ↔ s.openGroups = [] ∧ s.tokens.toList = tokens := by
    intro s
    unfold finish
    split
    · rename_i outermost hlast
      have hne : s.openGroups ≠ [] := by
        intro hnil
        simp [hnil] at hlast
      simp [hne]
    · rename_i hlast
      simp [List.getLast?_eq_none_iff.1 hlast]
  simp only [Reads, ← hfinish]
  cases (Lexeme.ofBody body).foldlM (step limit) .initial with
  | error e => simp [bind, Except.bind]
  | ok s => simp [bind, Except.bind]

/-! ### The tokens, apart from their links

The reader's stack decides two things about a token: the links between the ends
of a group, and the kind of an end.  The kind is known from the openers alone, so
`layout` carries the kinds of the open groups along and leaves the links out. -/

/-- An item whose link, if it has one, is forgotten. -/
def unlinkedItem : TokenItem → TokenItem
  | .groupStart opener _ => .groupStart opener 0
  | .groupEnd kind _ quantifiers => .groupEnd kind 0 quantifiers
  | item => item

def unlinked (t : Token) : Token := { t with item := unlinkedItem t.item }

theorem eq_groupStart_of_unlinkedItem {item : TokenItem} {opener : Opener}
    (h : unlinkedItem item = .groupStart opener 0) : ∃ e, item = .groupStart opener e := by
  cases item <;> cases h
  exact ⟨_, rfl⟩

theorem eq_groupEnd_of_unlinkedItem {item : TokenItem} {kind : GroupKind} {quantifiers : String}
    (h : unlinkedItem item = .groupEnd kind 0 quantifiers) :
    ∃ i, item = .groupEnd kind i quantifiers := by
  cases item <;> cases h
  exact ⟨_, rfl⟩

theorem eq_characterClass_of_unlinkedItem {item : TokenItem} {content quantifiers : String}
    (h : unlinkedItem item = .characterClass content quantifiers) :
    item = .characterClass content quantifiers := by
  cases item <;> cases h
  rfl

/-- The unlinked item for a lexeme inside groups of the given kinds, innermost first. -/
def itemFor? (kinds : List GroupKind) : Lexeme → Option TokenItem
  | .opener opener _ => some (.groupStart opener 0)
  | .closer quantifiers =>
    kinds.head?.map fun kind => .groupEnd kind 0 (String.ofList quantifiers)
  | l => l.flatItem?

def kindsAfter (kinds : List GroupKind) : Lexeme → List GroupKind
  | .opener opener _ => opener.kind :: kinds
  | .closer _ => kinds.tail
  | _ => kinds

/-- The unlinked tokens of some lexemes, of which the first one stands at offset `pos`. -/
def layout (pos : Nat) (kinds : List GroupKind) : List Lexeme → List Token
  | [] => []
  | l :: ls =>
    ((itemFor? kinds l).map fun item => ⟨pos, byteLength l.text, item⟩).toList ++
      layout (pos + byteLength l.text) (kindsAfter kinds l) ls

namespace State

def kinds (s : State) : List GroupKind := s.openGroups.map OpenGroup.kind

end State

@[simp] theorem unlinked_link (endToken : Nat) (t : Token) :
    unlinked (link endToken t) = unlinked t := by
  unfold link
  split
  · rename_i hitem
    simp [unlinked, hitem, unlinkedItem]
  · rfl

theorem map_unlinked_modify (tokens : Array Token) (i endToken : Nat) :
    ((tokens.modify i (link endToken)).toList).map unlinked = tokens.toList.map unlinked := by
  apply List.ext_getElem?
  intro j
  simp only [List.getElem?_map, Array.getElem?_toList, Array.getElem?_modify]
  split
  · rw [Option.map_map]
    congr 1
    funext t
    exact unlinked_link endToken t
  · rfl

theorem Moves.layout {limit : Nat} {s s' : State} {l : Lexeme} (h : Moves limit s l s') :
    s'.pos = s.pos + byteLength l.text ∧ s'.kinds = kindsAfter s.kinds l ∧
      s'.tokens.toList.map unlinked = s.tokens.toList.map unlinked ++
        ((itemFor? s.kinds l).map fun item => ⟨s.pos, byteLength l.text, item⟩).toList := by
  cases h with
  | skip hliteral =>
    cases l <;> simp only [Lexeme.isLiteral, Bool.false_eq_true] at hliteral <;>
      exact ⟨rfl, rfl, by simp [itemFor?, Lexeme.flatItem?]⟩
  | emit hitem =>
    cases l <;> simp only [Lexeme.flatItem?, Option.some.injEq, reduceCtorEq] at hitem <;>
      exact ⟨rfl, rfl, by simp [itemFor?, Lexeme.flatItem?, State.emit, ← hitem, unlinked,
        unlinkedItem]⟩
  | opened hroom =>
    exact ⟨rfl, rfl, by simp [State.opened, State.emit, itemFor?, unlinked, unlinkedItem]⟩
  | @closed group enclosing quantifiers hopen =>
    refine ⟨rfl, by simp [State.kinds, hopen, kindsAfter], ?_⟩
    have hhead : s.kinds.head? = some group.kind := by simp [State.kinds, hopen]
    simp only [State.closed, State.emit, Array.toList_push, List.map_append,
      map_unlinked_modify, itemFor?, hhead]
    rfl

/-- **A reading leaves the tokens of the layout, with links filled in.** -/
theorem Reads.layout {limit : Nat} {s s' : State} {ls : List Lexeme}
    (h : Reads limit s ls s') :
    s'.pos = s.pos + byteLength (ls.flatMap Lexeme.text) ∧
      s'.tokens.toList.map unlinked =
        s.tokens.toList.map unlinked ++ TokenStream.layout s.pos s.kinds ls := by
  induction ls generalizing s with
  | nil => simp [reads_nil.1 h, TokenStream.layout]
  | cons l ls ih =>
    obtain ⟨mid, hmove, hrest⟩ := reads_cons.1 h
    obtain ⟨hpos, hkinds, htokens⟩ := hmove.layout
    obtain ⟨hpos', htokens'⟩ := ih hrest
    refine ⟨?_, ?_⟩
    · rw [hpos', hpos, List.flatMap_cons, byteLength_append, Nat.add_assoc]
    · rw [htokens', htokens, hpos, hkinds, TokenStream.layout, List.append_assoc]

/-- The tokens of a body are those of its layout. -/
theorem map_unlinked_of_tokenize {limit : Nat} {body : List Char} {tokens : List Token}
    (h : (tokenize limit body).outcome = .ok tokens) :
    tokens.map unlinked = TokenStream.layout 0 [] (Lexeme.ofBody body) := by
  obtain ⟨s, hreads, _, rfl⟩ := tokenize_eq_ok_iff.1 h
  exact hreads.layout.2

end TokenStream

end RegexText
