/-
  RegexText/Proofs/TokenStream/WellFormed.lean
  ============================================
  **Token streams are ordered, linked and well nested.**

  The offsets of the tokens follow from the layout of the lexemes.  The links do
  not: a start is emitted before its end is known and is patched later, so the
  statement about a finished stream is preceded by an invariant of the reader,
  `Linked`, which speaks of closed groups and of open ones at once.

  The nesting limit bounds the groups around any byte of the body.  The reader
  only ever counts the groups that are open, so the invariant bounds the groups
  around a *token* first: those that have not ended before it.  A byte inherits
  the bound from the last token that does not start behind it.
-/
import Mathlib.Data.Finset.Card
import Mathlib.Data.Finset.Range
import Mathlib.Data.Nat.Find
import RegexText.Proofs.TokenStream.Run
import RegexText.Proofs.Traced

namespace RegexText

open Text

namespace TokenStream

/-! ### Offsets -/

/-- Is a byte offset the place between two characters of a text, or one of its ends? -/
def IsBoundary (body : List Char) (offset : Nat) : Prop :=
  ∃ before after, body = before ++ after ∧ byteLength before = offset

theorem text_ne_nil_of_mem_ofBody {body : List Char} {l : Lexeme}
    (h : l ∈ Lexeme.ofBody body) : l.text ≠ [] := by
  fun_induction Lexeme.ofBody body with
  | case1 => simp at h
  | case2 c cs ih =>
    rcases List.mem_cons.1 h with rfl | hmem
    · exact Lexeme.text_next_ne_nil c cs
    · exact ih hmem

/-- Where a token of a layout lies: it takes up the text of one lexeme, and its item is that of
    the lexeme inside some groups. -/
theorem mem_layout {pos : Nat} {kinds : List GroupKind} {ls : List Lexeme} {t : Token}
    (h : t ∈ layout pos kinds ls) :
    ∃ before l after, ls = before ++ l :: after ∧
      t.pos = pos + byteLength (before.flatMap Lexeme.text) ∧ t.len = byteLength l.text ∧
        ∃ kinds', itemFor? kinds' l = some t.item := by
  induction ls generalizing pos kinds with
  | nil => simp [layout] at h
  | cons l ls ih =>
    simp only [layout, List.mem_append, Option.mem_toList, Option.map_eq_some_iff] at h
    rcases h with ⟨item, hitem, rfl⟩ | hmem
    · exact ⟨[], l, ls, rfl, by simp, rfl, kinds, hitem⟩
    · obtain ⟨before, m, after, rfl, hpos, hlen⟩ := ih hmem
      refine ⟨l :: before, m, after, rfl, ?_, hlen⟩
      rw [hpos, List.flatMap_cons, byteLength_append, Nat.add_assoc]

/-- The start of a group is a token of a layout, at the offset of its lexeme. -/
theorem mem_layout_opener (pos : Nat) (kinds : List GroupKind) (before : List Lexeme)
    (opener : Opener) (text : List Char) (after : List Lexeme) :
    ⟨pos + byteLength (before.flatMap Lexeme.text), byteLength text, .groupStart opener 0⟩ ∈
      layout pos kinds (before ++ .opener opener text :: after) := by
  induction before generalizing pos kinds with
  | nil => exact List.mem_cons_self ..
  | cons l before ih =>
    have hlater := ih (pos + byteLength l.text) (kindsAfter kinds l)
    rw [Nat.add_assoc, ← byteLength_append, ← List.flatMap_cons] at hlater
    exact List.mem_append_right _ hlater

theorem pos_le_of_mem_layout {pos : Nat} {kinds : List GroupKind} {ls : List Lexeme}
    {t : Token} (h : t ∈ layout pos kinds ls) : pos ≤ t.pos := by
  obtain ⟨before, l, after, _, hpos, _⟩ := mem_layout h
  omega

theorem pairwise_layout (pos : Nat) (kinds : List GroupKind) (ls : List Lexeme) :
    (layout pos kinds ls).Pairwise fun a b => a.stop ≤ b.pos := by
  induction ls generalizing pos kinds with
  | nil => exact List.Pairwise.nil
  | cons l ls ih =>
    rw [layout, List.pairwise_append]
    refine ⟨?_, ih _ _, ?_⟩
    · cases itemFor? kinds l <;> simp
    · intro a ha b hb
      obtain ⟨item, _, rfl⟩ := Option.map_eq_some_iff.1 (Option.mem_toList.1 ha)
      exact pos_le_of_mem_layout hb

/-! ### Links -/

namespace State

def openStarts (s : State) : List Nat := s.openGroups.map OpenGroup.startToken

/-- Has the group that starts at an index ended at another one? -/
def Ended (s : State) (i e : Nat) : Prop :=
  ∃ kind quantifiers, s.itemAt? e = some (.groupEnd kind i quantifiers)

/-- Does the group that starts at index `i` lie around the token at index `k`?  An open
    group lies around everything behind its start. -/
def Covers (s : State) (i k : Nat) : Prop :=
  i ≤ k ∧ ∃ opener e, s.itemAt? i = some (.groupStart opener e) ∧ (i ∈ s.openStarts ∨ k ≤ e)

end State

/-- The reader's stack and its tokens agree. -/
structure Linked (limit : Nat) (s : State) : Prop where
  room : s.openGroups.length ≤ limit
  sorted : s.openStarts.Pairwise (· > ·)
  start_of_open : ∀ group ∈ s.openGroups, ∃ opener e,
    s.itemAt? group.startToken = some (.groupStart opener e) ∧ opener.kind = group.kind
  ended_of_start : ∀ i opener e, s.itemAt? i = some (.groupStart opener e) →
    i ∉ s.openStarts →
    i < e ∧ ∃ quantifiers, s.itemAt? e = some (.groupEnd opener.kind i quantifiers)
  start_of_end : ∀ e kind i quantifiers,
    s.itemAt? e = some (.groupEnd kind i quantifiers) →
    i ∉ s.openStarts ∧ i < e ∧
      ∃ opener, s.itemAt? i = some (.groupStart opener e) ∧ opener.kind = kind
  nested : ∀ i e j f, s.Ended i e → s.Ended j f → i < j → e < j ∨ f < e
  open_nested : ∀ i ∈ s.openStarts, ∀ j f, s.Ended j f → i < j ∨ f < i
  depth : ∀ k < s.tokens.size, ∀ starts : Finset Nat,
    (∀ i ∈ starts, s.Covers i k) → starts.card ≤ limit

/-! ### The invariant holds in the end -/

variable {limit : Nat} {s s' : State}

theorem linked_initial : Linked limit .initial where
  room := Nat.zero_le _
  sorted := List.Pairwise.nil
  start_of_open := by simp [State.initial]
  ended_of_start := by simp [State.initial, State.itemAt?]
  start_of_end := by simp [State.initial, State.itemAt?]
  nested := by simp [State.initial, State.itemAt?, State.Ended]
  open_nested := by simp [State.initial, State.openStarts]
  depth := by simp [State.initial]

namespace Linked

theorem openStart_lt (h : Linked limit s) {i : Nat} (hi : i ∈ s.openStarts) :
    i < s.tokens.size := by
  obtain ⟨group, hgroup, rfl⟩ := List.mem_map.1 hi
  obtain ⟨opener, e, hitem, _⟩ := h.start_of_open group hgroup
  exact State.lt_size_of_itemAt? hitem

/-- Only open groups lie around a place behind all tokens. -/
theorem open_of_size_le (h : Linked limit s) {i e : Nat} {opener : Opener}
    (hitem : s.itemAt? i = some (.groupStart opener e)) (he : s.tokens.size ≤ e) :
    i ∈ s.openStarts := by
  by_contra hclosed
  obtain ⟨_, quantifiers, hend⟩ := h.ended_of_start i opener e hitem hclosed
  have := State.lt_size_of_itemAt? hend
  omega

theorem card_le_of_open {starts : Finset Nat} (hsub : ∀ i ∈ starts, i ∈ s.openStarts) :
    starts.card ≤ s.openGroups.length := by
  have hsubset : starts ⊆ s.openStarts.toFinset := by
    intro i hi
    exact List.mem_toFinset.2 (hsub i hi)
  calc starts.card ≤ s.openStarts.toFinset.card := Finset.card_le_card hsubset
    _ ≤ s.openStarts.length := List.toFinset_card_le _
    _ = s.openGroups.length := List.length_map _

theorem skip (h : Linked limit s) (l : Lexeme) : Linked limit (s.skip l) :=
  ⟨h.room, h.sorted, h.start_of_open, h.ended_of_start, h.start_of_end, h.nested,
    h.open_nested, h.depth⟩

/-- A token that stands alone is neither end of a group. -/
theorem emit (h : Linked limit s) {l : Lexeme} {item : TokenItem}
    (hitem : l.flatItem? = some item) : Linked limit (s.emit l item) := by
  have hstart : ∀ i opener e, (s.emit l item).itemAt? i = some (.groupStart opener e) ↔
      s.itemAt? i = some (.groupStart opener e) := by
    intro i opener e
    rw [State.itemAt?_emit]
    split
    · rename_i hi
      rw [State.itemAt?_eq_none (Nat.le_of_eq hi.symm)]
      cases l <;> simp_all [Lexeme.flatItem?] <;> simp [← hitem]
    · rfl
  have hend : ∀ e kind i q, (s.emit l item).itemAt? e = some (.groupEnd kind i q) ↔
      s.itemAt? e = some (.groupEnd kind i q) := by
    intro e kind i q
    rw [State.itemAt?_emit]
    split
    · rename_i hi
      rw [State.itemAt?_eq_none (Nat.le_of_eq hi.symm)]
      cases l <;> simp_all [Lexeme.flatItem?] <;> simp [← hitem]
    · rfl
  have hended : ∀ i e, (s.emit l item).Ended i e ↔ s.Ended i e := by
    intro i e
    simp only [State.Ended, hend]
  refine ⟨h.room, h.sorted, ?_, ?_, ?_, ?_, ?_, ?_⟩
  · intro group hgroup
    simpa only [hstart] using h.start_of_open group hgroup
  · intro i opener e hi hclosed
    simpa only [hend] using h.ended_of_start i opener e ((hstart _ _ _).1 hi) hclosed
  · intro e kind i q he
    simp only [hstart]
    exact h.start_of_end e kind i q ((hend _ _ _ _).1 he)
  · intro i e j f hi hj
    exact h.nested i e j f ((hended _ _).1 hi) ((hended _ _).1 hj)
  · intro i hi j f hj
    exact h.open_nested i hi j f ((hended _ _).1 hj)
  · intro k hk starts hstarts
    by_cases hold : k < s.tokens.size
    · apply h.depth k hold starts
      intro i hi
      obtain ⟨hle, opener, e, hitem, hcover⟩ := hstarts i hi
      exact ⟨hle, opener, e, (hstart _ _ _).1 hitem, hcover⟩
    · -- around the new token lie the open groups
      refine Nat.le_trans (card_le_of_open (s := s) ?_) h.room
      intro i hi
      obtain ⟨_, opener, e, hitem, hcover⟩ := hstarts i hi
      rcases hcover with hopen | hle
      · exact hopen
      · exact h.open_of_size_le ((hstart _ _ _).1 hitem) (by omega)

theorem opened (h : Linked limit s) {opener : Opener} {text : List Char}
    (hroom : s.openGroups.length < limit) : Linked limit (s.opened opener text) := by
  have hold : ∀ {i}, i < s.tokens.size → (s.opened opener text).itemAt? i = s.itemAt? i := by
    intro i hi
    rw [State.itemAt?_opened, if_neg (by omega)]
  have hnew : (s.opened opener text).itemAt? s.tokens.size = some (.groupStart opener 0) := by
    rw [State.itemAt?_opened, if_pos rfl]
  have hstarts : (s.opened opener text).openStarts = s.tokens.size :: s.openStarts := rfl
  have hend : ∀ {e kind i q}, (s.opened opener text).itemAt? e = some (.groupEnd kind i q) →
      s.itemAt? e = some (.groupEnd kind i q) := by
    intro e kind i q he
    rw [State.itemAt?_opened] at he
    split at he
    · simp at he
    · exact he
  have hended : ∀ {i e}, (s.opened opener text).Ended i e → s.Ended i e := by
    rintro i e ⟨kind, q, he⟩
    exact ⟨kind, q, hend he⟩
  refine ⟨hroom, ?_, ?_, ?_, ?_, ?_, ?_, ?_⟩
  · rw [hstarts]
    exact List.Pairwise.cons (fun i hi => h.openStart_lt hi) h.sorted
  · intro group hgroup
    rcases List.mem_cons.1 hgroup with rfl | hmem
    · exact ⟨opener, 0, hnew, rfl⟩
    · obtain ⟨other, e, hitem, hkind⟩ := h.start_of_open group hmem
      exact ⟨other, e, by rw [hold (State.lt_size_of_itemAt? hitem), hitem], hkind⟩
  · intro i other e hitem hclosed
    rw [hstarts, List.mem_cons, not_or] at hclosed
    rw [State.itemAt?_opened, if_neg hclosed.1] at hitem
    obtain ⟨hlt, q, he⟩ := h.ended_of_start i other e hitem hclosed.2
    exact ⟨hlt, q, by rw [hold (State.lt_size_of_itemAt? he), he]⟩
  · intro e kind i q he
    have he' := hend he
    obtain ⟨hclosed, hlt, other, hitem, hkind⟩ := h.start_of_end e kind i q he'
    have hi := State.lt_size_of_itemAt? hitem
    refine ⟨?_, hlt, other, by rw [hold hi, hitem], hkind⟩
    rw [hstarts, List.mem_cons, not_or]
    exact ⟨by omega, hclosed⟩
  · intro i e j f hi hj
    exact h.nested i e j f (hended hi) (hended hj)
  · intro i hi j f hj
    rw [hstarts, List.mem_cons] at hi
    rcases hi with rfl | hmem
    · obtain ⟨kind, q, hf⟩ := hended hj
      exact Or.inr (State.lt_size_of_itemAt? hf)
    · exact h.open_nested i hmem j f (hended hj)
  · intro k hk starts hcovers
    by_cases hkold : k < s.tokens.size
    · apply h.depth k hkold starts
      intro i hi
      obtain ⟨hle, other, e, hitem, hcover⟩ := hcovers i hi
      rw [hold (by omega)] at hitem
      refine ⟨hle, other, e, hitem, hcover.imp_left ?_⟩
      rw [hstarts, List.mem_cons]
      rintro (rfl | hmem)
      · omega
      · exact hmem
    · -- around the new token lie the open groups, the new one included
      refine Nat.le_trans (card_le_of_open (s := s.opened opener text) ?_) hroom
      intro i hi
      obtain ⟨hle, other, e, hitem, hcover⟩ := hcovers i hi
      rcases hcover with hopen | hle
      · exact hopen
      · rw [hstarts, List.mem_cons]
        by_cases hinew : i = s.tokens.size
        · exact Or.inl hinew
        · rw [State.itemAt?_opened, if_neg hinew] at hitem
          exact Or.inr (h.open_of_size_le hitem (by omega))

/-! The end of a group changes one item and adds one.  Whatever is asked of an item later is
asked of the new end, of the start of the group, or of an item as it was before. -/

section Closing

variable {group : OpenGroup} {enclosing : List OpenGroup} {quantifiers : List Char}
  {opener : Opener} {linked : Nat}

theorem itemAt?_closed_end : (s.closed group enclosing quantifiers).itemAt? s.tokens.size =
    some (.groupEnd group.kind group.startToken (String.ofList quantifiers)) := by
  rw [State.itemAt?_closed, if_pos rfl]

theorem itemAt?_closed_start
    (hgroup : s.itemAt? group.startToken = some (.groupStart opener linked)) :
    (s.closed group enclosing quantifiers).itemAt? group.startToken =
      some (.groupStart opener s.tokens.size) := by
  have hlt := State.lt_size_of_itemAt? hgroup
  rw [State.itemAt?_closed, if_neg (by omega), if_pos rfl, hgroup]
  rfl

theorem itemAt?_closed_of_ne {i : Nat} (hi : i < s.tokens.size) (hne : i ≠ group.startToken) :
    (s.closed group enclosing quantifiers).itemAt? i = s.itemAt? i := by
  rw [State.itemAt?_closed, if_neg (by omega), if_neg hne]

theorem start_of_closed (hgroup : s.itemAt? group.startToken = some (.groupStart opener linked))
    {i e : Nat} {other : Opener}
    (hitem : (s.closed group enclosing quantifiers).itemAt? i = some (.groupStart other e)) :
    (i = group.startToken ∧ other = opener ∧ e = s.tokens.size) ∨
      (i ≠ group.startToken ∧ s.itemAt? i = some (.groupStart other e)) := by
  have hsize := State.lt_size_of_itemAt? hitem
  rw [State.closed_size] at hsize
  by_cases hend : i = s.tokens.size
  · rw [hend, itemAt?_closed_end] at hitem
    cases hitem
  · by_cases hstart : i = group.startToken
    · rw [hstart, itemAt?_closed_start hgroup] at hitem
      cases hitem
      exact Or.inl ⟨hstart, rfl, rfl⟩
    · rw [itemAt?_closed_of_ne (by omega) hstart] at hitem
      exact Or.inr ⟨hstart, hitem⟩

theorem end_of_closed (hgroup : s.itemAt? group.startToken = some (.groupStart opener linked))
    {i e : Nat} {kind : GroupKind} {q : String}
    (hitem : (s.closed group enclosing quantifiers).itemAt? e = some (.groupEnd kind i q)) :
    (e = s.tokens.size ∧ i = group.startToken ∧ kind = group.kind) ∨
      s.itemAt? e = some (.groupEnd kind i q) := by
  have hsize := State.lt_size_of_itemAt? hitem
  rw [State.closed_size] at hsize
  by_cases hend : e = s.tokens.size
  · rw [hend, itemAt?_closed_end] at hitem
    cases hitem
    exact Or.inl ⟨hend, rfl, rfl⟩
  · by_cases hstart : e = group.startToken
    · rw [hstart, itemAt?_closed_start hgroup] at hitem
      cases hitem
    · rw [itemAt?_closed_of_ne (by omega) hstart] at hitem
      exact Or.inr hitem

theorem ended_of_closed (hgroup : s.itemAt? group.startToken = some (.groupStart opener linked))
    {i e : Nat} (h : (s.closed group enclosing quantifiers).Ended i e) :
    (e = s.tokens.size ∧ i = group.startToken) ∨ (s.Ended i e ∧ e < s.tokens.size) := by
  obtain ⟨kind, q, hitem⟩ := h
  rcases end_of_closed hgroup hitem with ⟨hend, hi, _⟩ | hold
  · exact Or.inl ⟨hend, hi⟩
  · exact Or.inr ⟨⟨kind, q, hold⟩, State.lt_size_of_itemAt? hold⟩

theorem openStarts_of_open (hopen : s.openGroups = group :: enclosing) :
    s.openStarts = group.startToken :: enclosing.map OpenGroup.startToken := by
  rw [State.openStarts, hopen, List.map_cons]

theorem mem_openStarts_of_enclosing (hopen : s.openGroups = group :: enclosing) {i : Nat}
    (hi : i ∈ enclosing.map OpenGroup.startToken) : i ∈ s.openStarts := by
  rw [openStarts_of_open hopen]
  exact List.mem_cons_of_mem _ hi

/-- The groups around the one that ends start before it. -/
theorem lt_of_mem_enclosing (h : Linked limit s) (hopen : s.openGroups = group :: enclosing)
    {i : Nat} (hi : i ∈ enclosing.map OpenGroup.startToken) : i < group.startToken := by
  have hsorted := h.sorted
  rw [openStarts_of_open hopen, List.pairwise_cons] at hsorted
  exact hsorted.1 i hi

theorem closed_ended_of_start (h : Linked limit s) (hopen : s.openGroups = group :: enclosing)
    (hgroup : s.itemAt? group.startToken = some (.groupStart opener linked))
    (hkind : opener.kind = group.kind) {i e : Nat} {other : Opener}
    (hitem : (s.closed group enclosing quantifiers).itemAt? i = some (.groupStart other e))
    (hclosed : i ∉ enclosing.map OpenGroup.startToken) :
    i < e ∧ ∃ q, (s.closed group enclosing quantifiers).itemAt? e =
      some (.groupEnd other.kind i q) := by
  rcases start_of_closed hgroup hitem with ⟨rfl, rfl, rfl⟩ | ⟨hne, hold⟩
  · exact ⟨State.lt_size_of_itemAt? hgroup, _, by rw [itemAt?_closed_end, hkind]⟩
  · have hnot : i ∉ s.openStarts := by
      rw [openStarts_of_open hopen, List.mem_cons, not_or]
      exact ⟨hne, hclosed⟩
    obtain ⟨hlt, q, hend⟩ := h.ended_of_start i other e hold hnot
    have hend' : e ≠ group.startToken := by
      rintro rfl
      rw [hgroup] at hend
      cases hend
    exact ⟨hlt, q, by rw [itemAt?_closed_of_ne (State.lt_size_of_itemAt? hend) hend', hend]⟩

theorem closed_start_of_end (h : Linked limit s) (hopen : s.openGroups = group :: enclosing)
    (hgroup : s.itemAt? group.startToken = some (.groupStart opener linked))
    (hkind : opener.kind = group.kind) {i e : Nat} {kind : GroupKind} {q : String}
    (hitem : (s.closed group enclosing quantifiers).itemAt? e = some (.groupEnd kind i q)) :
    i ∉ enclosing.map OpenGroup.startToken ∧ i < e ∧
      ∃ other, (s.closed group enclosing quantifiers).itemAt? i = some (.groupStart other e) ∧
        other.kind = kind := by
  rcases end_of_closed hgroup hitem with ⟨rfl, rfl, rfl⟩ | hold
  · refine ⟨?_, State.lt_size_of_itemAt? hgroup, opener, itemAt?_closed_start hgroup, hkind⟩
    intro hmem
    exact absurd (h.lt_of_mem_enclosing hopen hmem) (Nat.lt_irrefl _)
  · obtain ⟨hclosed, hlt, other, hstart, hkind'⟩ := h.start_of_end e kind i q hold
    have hne : i ≠ group.startToken := by
      rintro rfl
      exact hclosed (by simp [openStarts_of_open hopen])
    refine ⟨?_, hlt, other, ?_, hkind'⟩
    · intro hmem
      exact hclosed (mem_openStarts_of_enclosing hopen hmem)
    · rw [itemAt?_closed_of_ne (State.lt_size_of_itemAt? hstart) hne, hstart]

theorem closed_nested (h : Linked limit s) (hopen : s.openGroups = group :: enclosing)
    (hgroup : s.itemAt? group.startToken = some (.groupStart opener linked)) {i e j f : Nat}
    (hi : (s.closed group enclosing quantifiers).Ended i e)
    (hj : (s.closed group enclosing quantifiers).Ended j f) (hij : i < j) : e < j ∨ f < e := by
  rcases ended_of_closed hgroup hi with ⟨rfl, rfl⟩ | ⟨hi', he⟩
  · rcases ended_of_closed hgroup hj with ⟨rfl, rfl⟩ | ⟨_, hf⟩
    · omega
    · exact Or.inr hf
  · rcases ended_of_closed hgroup hj with ⟨rfl, rfl⟩ | ⟨hj', _⟩
    · -- an older group that starts before the one that ends now has ended before its start
      have hmem : group.startToken ∈ s.openStarts := by simp [openStarts_of_open hopen]
      rcases h.open_nested group.startToken hmem i e hi' with hlt | hlt
      · omega
      · exact Or.inl hlt
    · exact h.nested i e j f hi' hj' hij

theorem closed_depth (h : Linked limit s) (hopen : s.openGroups = group :: enclosing)
    (hgroup : s.itemAt? group.startToken = some (.groupStart opener linked)) {k : Nat}
    {starts : Finset Nat}
    (hcovers : ∀ i ∈ starts, (s.closed group enclosing quantifiers).Covers i k) :
    starts.card ≤ limit := by
  by_cases hk : k < s.tokens.size
  · apply h.depth k hk starts
    intro i hi
    obtain ⟨hle, other, e, hitem, hcover⟩ := hcovers i hi
    rcases start_of_closed hgroup hitem with ⟨rfl, _, _⟩ | ⟨_, hold⟩
    · exact ⟨hle, opener, linked, hgroup, Or.inl (by simp [openStarts_of_open hopen])⟩
    · exact ⟨hle, other, e, hold, hcover.imp_left (mem_openStarts_of_enclosing hopen)⟩
  · -- around the new end lie the groups that were open before it
    refine Nat.le_trans (card_le_of_open (s := s) ?_) h.room
    intro i hi
    obtain ⟨_, other, e, hitem, hcover⟩ := hcovers i hi
    rcases hcover with hmem | hle
    · exact mem_openStarts_of_enclosing hopen hmem
    · rcases start_of_closed hgroup hitem with ⟨rfl, _, _⟩ | ⟨_, hold⟩
      · simp [openStarts_of_open hopen]
      · exact h.open_of_size_le hold (by omega)

theorem closed (h : Linked limit s) (hopen : s.openGroups = group :: enclosing) :
    Linked limit (s.closed group enclosing quantifiers) := by
  obtain ⟨opener, linked, hgroup, hkind⟩ := h.start_of_open group (by simp [hopen])
  have hsorted := h.sorted
  rw [openStarts_of_open hopen, List.pairwise_cons] at hsorted
  refine ⟨?_, hsorted.2, ?_, ?_, ?_, ?_, ?_, ?_⟩
  · have hroom := h.room
    rw [hopen, List.length_cons] at hroom
    exact Nat.le_of_succ_le hroom
  · intro other hother
    have hmem : other ∈ s.openGroups := by
      rw [hopen]
      exact List.mem_cons_of_mem _ hother
    obtain ⟨opener', e, hitem, hkind'⟩ := h.start_of_open other hmem
    have hlt := h.lt_of_mem_enclosing hopen (List.mem_map_of_mem hother)
    refine ⟨opener', e, ?_, hkind'⟩
    rw [itemAt?_closed_of_ne (State.lt_size_of_itemAt? hitem) (Nat.ne_of_lt hlt), hitem]
  · intro i other e hitem hclosed
    exact h.closed_ended_of_start hopen hgroup hkind hitem hclosed
  · intro e kind i q hitem
    exact h.closed_start_of_end hopen hgroup hkind hitem
  · intro i e j f hi hj hij
    exact h.closed_nested hopen hgroup hi hj hij
  · intro i hi j f hj
    rcases ended_of_closed hgroup hj with ⟨rfl, rfl⟩ | ⟨hj', _⟩
    · exact Or.inl (h.lt_of_mem_enclosing hopen hi)
    · exact h.open_nested i (mem_openStarts_of_enclosing hopen hi) j f hj'
  · intro k _ starts hcovers
    exact h.closed_depth hopen hgroup hcovers

end Closing

theorem moves (h : Linked limit s) {l : Lexeme} (hmove : Moves limit s l s') :
    Linked limit s' := by
  cases hmove with
  | skip hliteral => exact h.skip _
  | emit hitem => exact h.emit hitem
  | opened hroom => exact h.opened hroom
  | closed hopen => exact h.closed hopen

end Linked

/-! ### Finished streams -/

/-- Does the group that starts at index `i` enclose the byte at an offset?  Its own
    parentheses and quantifiers belong to it. -/
def encloses (tokens : List Token) (offset i : Nat) : Bool :=
  match tokens[i]? with
  | some start =>
    match start.item with
    | .groupStart _ e =>
      match tokens[e]? with
      | some stop => decide (start.pos ≤ offset) && decide (offset < stop.stop)
      | none => false
    | _ => false
  | none => false

def enclosing (tokens : List Token) (offset : Nat) : Finset Nat :=
  (Finset.range tokens.length).filter fun i => encloses tokens offset i = true

theorem encloses_iff {tokens : List Token} {offset i : Nat} :
    encloses tokens offset i = true ↔
      ∃ start opener e stop, tokens[i]? = some start ∧ start.item = .groupStart opener e ∧
        tokens[e]? = some stop ∧ start.pos ≤ offset ∧ offset < stop.stop := by
  unfold encloses
  constructor
  · intro h
    split at h
    · rename_i start hstart
      split at h
      · rename_i opener e hitem
        split at h
        · rename_i stop hstop
          simp only [Bool.and_eq_true, decide_eq_true_eq] at h
          exact ⟨start, opener, e, stop, hstart, hitem, hstop, h.1, h.2⟩
        · cases h
      · cases h
    · cases h
  · rintro ⟨start, opener, e, stop, hstart, hitem, hstop, hpos, hoffset⟩
    simp [hstart, hitem, hstop, hpos, hoffset]

/-- What the tokens of a body promise.  The item of a start and that of its end name each
    other by their indices. -/
structure WellFormed (limit : Nat) (body : List Char) (tokens : List Token) : Prop where
  nonempty : ∀ t ∈ tokens, 0 < t.len
  disjoint : tokens.Pairwise fun a b => a.stop ≤ b.pos
  increasing : tokens.Pairwise fun a b => a.pos < b.pos
  inside : ∀ t ∈ tokens, t.stop ≤ byteLength body
  boundary : ∀ t ∈ tokens, IsBoundary body t.pos ∧ IsBoundary body t.stop
  start_linked : ∀ i opener e, (tokens[i]?).map Token.item = some (.groupStart opener e) →
    i < e ∧ e < tokens.length ∧
      ∃ quantifiers, (tokens[e]?).map Token.item = some (.groupEnd opener.kind i quantifiers)
  end_linked : ∀ e kind i quantifiers,
    (tokens[e]?).map Token.item = some (.groupEnd kind i quantifiers) →
    ∃ opener, (tokens[i]?).map Token.item = some (.groupStart opener e) ∧ opener.kind = kind
  nested : ∀ i opener e j opener' f,
    (tokens[i]?).map Token.item = some (.groupStart opener e) →
    (tokens[j]?).map Token.item = some (.groupStart opener' f) → i < j → e < j ∨ f < e
  depth : ∀ offset, (enclosing tokens offset).card ≤ limit

section Finished

variable {limit : Nat} {body : List Char} {s : State}

theorem exists_lexeme_of_mem (h : Reads limit .initial (Lexeme.ofBody body) s) {t : Token}
    (ht : t ∈ s.tokens.toList) :
    ∃ before text after, body = before ++ text ++ after ∧ text ≠ [] ∧
      t.pos = byteLength before ∧ t.len = byteLength text := by
  have hlayout : unlinked t ∈ layout 0 [] (Lexeme.ofBody body) := by
    have htokens := h.layout.2
    have hmem := List.mem_map_of_mem (f := unlinked) ht
    rw [htokens] at hmem
    simpa [State.initial, State.kinds] using hmem
  obtain ⟨before, l, after, hsplit, hpos, hlen, _⟩ := mem_layout hlayout
  have hbody := Lexeme.flatMap_text_ofBody body
  rw [hsplit, List.flatMap_append, List.flatMap_cons, ← List.append_assoc] at hbody
  refine ⟨_, _, _, hbody.symm, ?_, by simpa [unlinked] using hpos, hlen⟩
  exact text_ne_nil_of_mem_ofBody (by rw [hsplit]; simp)

theorem pairwise_of_reads (h : Reads limit .initial (Lexeme.ofBody body) s) :
    s.tokens.toList.Pairwise fun a b => a.stop ≤ b.pos := by
  have hlayout := pairwise_layout 0 [] (Lexeme.ofBody body)
  have htokens := h.layout.2
  simp only [State.initial, State.kinds, List.map_nil, List.nil_append] at htokens
  rw [← htokens, List.pairwise_map] at hlayout
  exact hlayout

theorem linked_of_reads {ls : List Lexeme} (h : Reads limit .initial ls s) : Linked limit s :=
  h.invariant (fun _ _ _ hs hmove => hs.moves hmove) linked_initial

end Finished

/-- A byte lies in the groups around the last token that does not start behind it. -/
theorem covers_of_encloses {s : State} {offset i k : Nat} {last : Token}
    (hordered : s.tokens.toList.Pairwise fun a b => a.stop ≤ b.pos)
    (hk : s.tokens.toList[k]? = some last) (hpos : last.pos ≤ offset)
    (hlast : ∀ j t, s.tokens.toList[j]? = some t → t.pos ≤ offset → j ≤ k)
    (h : encloses s.tokens.toList offset i = true) : s.Covers i k := by
  obtain ⟨start, opener, e, stop, hstart, hitem, hstop, hstartpos, hoffset⟩ := encloses_iff.1 h
  refine ⟨hlast i start hstart hstartpos, opener, e, ?_, Or.inr ?_⟩
  · rw [State.itemAt?, ← Array.getElem?_toList, hstart, Option.map_some, hitem]
  · -- an end before the token would also lie before the byte
    by_contra hlt
    obtain ⟨hksize, hkget⟩ := List.getElem?_eq_some_iff.1 hk
    obtain ⟨hesize, heget⟩ := List.getElem?_eq_some_iff.1 hstop
    have hbefore := List.pairwise_iff_getElem.1 hordered e k hesize hksize (by omega)
    rw [heget, hkget] at hbefore
    omega

/-- The nesting limit bounds the groups around any byte. -/
theorem card_enclosing_le {limit : Nat} {s : State} (hlinked : Linked limit s)
    (hordered : s.tokens.toList.Pairwise fun a b => a.stop ≤ b.pos) (offset : Nat) :
    (enclosing s.tokens.toList offset).card ≤ limit := by
  classical
  let isStarted (k : Nat) : Prop := ∃ t, s.tokens.toList[k]? = some t ∧ t.pos ≤ offset
  have hbound : ∀ {k}, isStarted k → k ≤ s.tokens.size := by
    rintro k ⟨t, ht, _⟩
    have := (List.getElem?_eq_some_iff.1 ht).1
    simp only [Array.length_toList] at this
    omega
  have hstarted : ∀ i ∈ enclosing s.tokens.toList offset, isStarted i := by
    intro i hi
    obtain ⟨start, _, _, _, hstart, _, _, hpos, _⟩ := encloses_iff.1 (Finset.mem_filter.1 hi).2
    exact ⟨start, hstart, hpos⟩
  rcases (enclosing s.tokens.toList offset).eq_empty_or_nonempty with hnone | ⟨i₀, hi₀⟩
  · rw [hnone, Finset.card_empty]
    exact Nat.zero_le _
  · -- the last token that does not start behind the byte
    obtain ⟨last, hlast, hpos⟩ : isStarted (Nat.findGreatest isStarted s.tokens.size) :=
      Nat.findGreatest_spec (hbound (hstarted i₀ hi₀)) (hstarted i₀ hi₀)
    have hsize := (List.getElem?_eq_some_iff.1 hlast).1
    rw [Array.length_toList] at hsize
    apply hlinked.depth _ hsize
    intro i hi
    apply covers_of_encloses hordered hlast hpos _ (Finset.mem_filter.1 hi).2
    intro j t ht htpos
    exact Nat.le_findGreatest (hbound ⟨t, ht, htpos⟩) ⟨t, ht, htpos⟩

/-- **The tokens of every body that can be cut into tokens are well formed.** -/
theorem wellFormed_of_tokenize {limit : Nat} {body : List Char} {tokens : List Token}
    (h : (tokenize limit body).outcome = .ok tokens) : WellFormed limit body tokens := by
  obtain ⟨s, hreads, hclosed, rfl⟩ := tokenize_eq_ok_iff.1 h
  have hlinked := linked_of_reads hreads
  have hordered := pairwise_of_reads hreads
  have hplace : ∀ t ∈ s.tokens.toList, ∃ before text after, body = before ++ text ++ after ∧
      text ≠ [] ∧ t.pos = byteLength before ∧ t.len = byteLength text :=
    fun t ht => exists_lexeme_of_mem hreads ht
  have hitem : ∀ i, (s.tokens.toList[i]?).map Token.item = s.itemAt? i := by
    intro i
    rw [State.itemAt?, Array.getElem?_toList]
  have hstarts : ∀ i, i ∉ s.openStarts := by
    intro i
    simp [State.openStarts, hclosed]
  have hnonempty : ∀ t ∈ s.tokens.toList, 0 < t.len := by
    intro t ht
    obtain ⟨_, text, _, _, hne, _, hlen⟩ := hplace t ht
    rw [hlen]
    exact byteLength_pos hne
  refine ⟨hnonempty, hordered, ?_, ?_, ?_, ?_, ?_, ?_, card_enclosing_le hlinked hordered⟩
  · apply hordered.imp_of_mem
    intro a b ha _ hab
    have := hnonempty a ha
    simp only [Token.stop] at hab
    omega
  · intro t ht
    obtain ⟨before, text, after, rfl, _, hpos, hlen⟩ := hplace t ht
    simp only [Token.stop, byteLength_append]
    omega
  · intro t ht
    obtain ⟨before, text, after, rfl, _, hpos, hlen⟩ := hplace t ht
    refine ⟨⟨before, text ++ after, by simp, hpos.symm⟩, before ++ text, after, rfl, ?_⟩
    rw [byteLength_append, Token.stop, hpos, hlen]
  · intro i opener e hi
    rw [hitem] at hi
    obtain ⟨hlt, q, he⟩ := hlinked.ended_of_start i opener e hi (hstarts i)
    refine ⟨hlt, ?_, q, by rw [hitem, he]⟩
    rw [Array.length_toList]
    exact State.lt_size_of_itemAt? he
  · intro e kind i q he
    rw [hitem] at he
    obtain ⟨_, _, opener, hi, hkind⟩ := hlinked.start_of_end e kind i q he
    exact ⟨opener, by rw [hitem, hi], hkind⟩
  · intro i opener e j opener' f hi hj hij
    rw [hitem] at hi hj
    obtain ⟨_, q, he⟩ := hlinked.ended_of_start i opener e hi (hstarts i)
    obtain ⟨_, q', hf⟩ := hlinked.ended_of_start j opener' f hj (hstarts j)
    exact hlinked.nested i e j f ⟨_, q, he⟩ ⟨_, q', hf⟩ hij

/-- A lookahead behind a quantified group that holds a bracket expression and a named group. -/
theorem wellFormed_of_tokenize_named_group :
    ∃ tokens, (tokenize 2 "é(?:a[)]+(?<n>\\()b)*(?=c)".toList).outcome = .ok tokens ∧
      tokens.length = 7 ∧ WellFormed 2 "é(?:a[)]+(?<n>\\()b)*(?=c)".toList tokens := by
  have hevaluated : ∃ tokens, (tokenize 2 "é(?:a[)]+(?<n>\\()b)*(?=c)".toList).outcome =
      .ok tokens ∧ tokens.length = 7 := by
    refine ⟨[⟨2, 3, .groupStart (.nonCapturing "") 4⟩, ⟨6, 4, .characterClass ")" "+"⟩,
      ⟨10, 5, .groupStart (.capturing (some "n")) 3⟩, ⟨17, 1, .groupEnd .capturing 2 ""⟩,
      ⟨19, 2, .groupEnd .nonCapturing 0 "*"⟩, ⟨21, 3, .groupStart (.assertion .ahead false) 6⟩,
      ⟨25, 1, .groupEnd (.assertion .ahead false) 5 ""⟩], by decide +kernel, rfl⟩
  obtain ⟨tokens, houtcome, hlength⟩ := hevaluated
  exact ⟨tokens, houtcome, hlength, wellFormed_of_tokenize houtcome⟩

end TokenStream

end RegexText
