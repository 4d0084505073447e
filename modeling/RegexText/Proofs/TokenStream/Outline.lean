/-
  RegexText/Proofs/TokenStream/Outline.lean
  =========================================
  **The groups of a body, without what stands between them.**

  Two bodies have the same groups when their capturing groups and their
  assertions about what follows begin and end in the same order, and the ends
  that belong together in one body belong together in the other.  The indices of
  the tokens do not say this, since bracket expressions and plain groups lie
  between.  A *landmark* is therefore an end of a group that matters, and its
  partner is counted in landmarks.

  The landmarks of a body are found without its tokens: a machine that sees
  nothing but opening and closing parentheses notes a landmark when it passes
  one, and knows the place of each open group by the number of landmarks in
  front of it.  `outline_of_reads` and `exists_reads_of_run` say that the reader
  and this machine go together, whichever of the two is known to succeed.
-/
import RegexText.Proofs.TokenStream.WellFormed

namespace RegexText

open Text

/-! ### Landmarks -/

/-- Is a group numbered, or does it look ahead? -/
def GroupKind.isLandmark : GroupKind → Bool
  | .capturing | .assertion .ahead _ => true
  | .nonCapturing | .assertion .behind _ => false

/-- An end of a capturing group or of an assertion about what follows; `partner` is the number
    of such ends before the other end of the group. -/
structure Landmark where
  kind : GroupKind
  isStart : Bool
  partner : Nat
deriving DecidableEq, Repr

namespace TokenItem

def isLandmark : TokenItem → Bool
  | .groupStart opener _ => opener.kind.isLandmark
  | .groupEnd kind _ _ => kind.isLandmark
  | .characterClass _ _ | .optionGroup _ => false

/-- The landmark that an item is, if its link is counted by `place`. -/
def landmark? (place : Nat → Nat) : TokenItem → Option Landmark
  | .groupStart opener e =>
    if opener.kind.isLandmark then some ⟨opener.kind, true, place e⟩ else none
  | .groupEnd kind i _ => if kind.isLandmark then some ⟨kind, false, place i⟩ else none
  | .characterClass _ _ | .optionGroup _ => none

/-- The name of a capturing group, or that it has none; `none` for other items. -/
def captureName? : TokenItem → Option (Option String)
  | .groupStart (.capturing name) _ => some name
  | _ => none

def link? : TokenItem → Option Nat
  | .groupStart _ e => some e
  | .groupEnd _ i _ => some i
  | .characterClass _ _ | .optionGroup _ => none

theorem isSome_landmark? (place : Nat → Nat) (item : TokenItem) :
    (item.landmark? place).isSome = item.isLandmark := by
  cases item <;> simp only [landmark?, isLandmark] <;> first | rfl | (split <;> simp_all)

theorem landmark?_congr {f g : Nat → Nat} {item : TokenItem}
    (h : ∀ i ∈ item.link?, f i = g i) : item.landmark? f = item.landmark? g := by
  cases item <;> simp only [landmark?]
  · rw [h _ rfl]
  · rw [h _ rfl]

end TokenItem

namespace TokenStream

/-- The number of landmarks before an index. -/
def rank (items : List TokenItem) (i : Nat) : Nat :=
  (items.take i).countP TokenItem.isLandmark

def landmarks (items : List TokenItem) : List Landmark :=
  items.filterMap (TokenItem.landmark? (rank items))

/-- The names of the capturing groups, in the order in which they open. -/
def captureNames (items : List TokenItem) : List (Option String) :=
  items.filterMap TokenItem.captureName?

theorem length_filterMap_landmark? (place : Nat → Nat) (items : List TokenItem) :
    (items.filterMap (TokenItem.landmark? place)).length =
      items.countP TokenItem.isLandmark := by
  rw [List.length_filterMap_eq_countP]
  exact List.countP_congr fun item _ => by rw [TokenItem.isSome_landmark?]

theorem rank_length (items : List TokenItem) :
    rank items items.length = (landmarks items).length := by
  rw [landmarks, length_filterMap_landmark?, rank, List.take_length]

theorem rank_concat {items : List TokenItem} {i : Nat} (h : i ≤ items.length) (item : TokenItem) :
    rank (items ++ [item]) i = rank items i := by
  rw [rank, rank, List.take_append_of_le_length h]

theorem landmarks_concat {items : List TokenItem} {item : TokenItem}
    (h : ∀ x ∈ items ++ [item], ∀ i ∈ x.link?, i ≤ items.length) :
    landmarks (items ++ [item]) =
      landmarks items ++ (item.landmark? (rank items)).toList := by
  have hsame : ∀ x ∈ items ++ [item],
      x.landmark? (rank (items ++ [item])) = x.landmark? (rank items) := by
    intro x hx
    exact TokenItem.landmark?_congr fun i hi => rank_concat (h x hx i hi) item
  rw [landmarks, List.filterMap_congr hsame, List.filterMap_append]
  cases hitem : item.landmark? (rank items) <;> simp [landmarks, hitem]

/-- As many groups capture as landmarks say so. -/
theorem length_captureNames (items : List TokenItem) :
    (captureNames items).length =
      (landmarks items).countP fun m => m.kind = .capturing ∧ m.isStart := by
  rw [captureNames, List.length_filterMap_eq_countP, landmarks, List.countP_filterMap]
  apply List.countP_congr
  intro item _
  rcases item with _ | _ | ⟨opener, e⟩ | ⟨kind, i, q⟩
  · simp [TokenItem.captureName?, TokenItem.landmark?]
  · simp [TokenItem.captureName?, TokenItem.landmark?]
  · rcases opener with name | options | _ | ⟨_ | _, negated⟩ <;>
      simp [TokenItem.captureName?, TokenItem.landmark?, Opener.kind, GroupKind.isLandmark]
  · rcases kind with _ | _ | ⟨_ | _, negated⟩ <;>
      simp [TokenItem.captureName?, TokenItem.landmark?, GroupKind.isLandmark]

/-! ### Linking the ends of a group -/

section Linking

variable {items : List TokenItem} {k e : Nat}

theorem isLandmark_linkedItem (e : Nat) (item : TokenItem) :
    (State.linkedItem e item).isLandmark = item.isLandmark := by
  cases item <;> rfl

theorem map_modify {α β : Type} {f : α → α} {g : α → β} {h : β → β}
    (hcomm : ∀ a, g (f a) = h (g a)) (as : List α) (k : Nat) :
    (as.modify k f).map g = (as.map g).modify k h := by
  apply List.ext_getElem?
  intro j
  cases hget : as[j]? with
  | none => simp [List.getElem?_modify, hget]
  | some a => by_cases hj : k = j <;> simp [hget, hj, hcomm]

theorem rank_modify (items : List TokenItem) (k e i : Nat) :
    rank (items.modify k (State.linkedItem e)) i = rank items i := by
  have hcount : ∀ items, rank items i = ((items.map TokenItem.isLandmark).take i).countP id := by
    intro items
    rw [rank, ← List.map_take, List.countP_map]
    rfl
  rw [hcount, hcount, map_modify (h := id) (isLandmark_linkedItem e), List.modify_id]

/-- A group that ends makes its start known to the landmarks. -/
theorem landmarks_modify {opener : Opener} {old : Nat}
    (hstart : items[k]? = some (.groupStart opener old)) :
    landmarks (items.modify k (State.linkedItem e)) =
      if opener.kind.isLandmark then
        (landmarks items).modify (rank items k) ({ · with partner := rank items e })
      else landmarks items := by
  obtain ⟨hlt, hget⟩ := List.getElem?_eq_some_iff.1 hstart
  have hsplit : items = items.take k ++ .groupStart opener old :: items.drop (k + 1) := by
    rw [← hget, List.getElem_cons_drop, List.take_append_drop]
  have hmodify : items.modify k (State.linkedItem e) =
      items.take k ++ .groupStart opener e :: items.drop (k + 1) := by
    rw [List.modify_eq_take_cons_drop hlt, hget]
    rfl
  have hplace : rank (items.modify k (State.linkedItem e)) = rank items :=
    funext (rank_modify items k e)
  have hfront := length_filterMap_landmark? (rank items) (items.take k)
  have hold : landmarks items =
      (items.take k).filterMap (TokenItem.landmark? (rank items)) ++
        (.groupStart opener old :: items.drop (k + 1)).filterMap
          (TokenItem.landmark? (rank items)) := by
    rw [← List.filterMap_append, ← hsplit, landmarks]
  rw [landmarks, hplace, hmodify, hold, List.filterMap_append]
  by_cases hkind : opener.kind.isLandmark = true
  · simp only [List.filterMap_cons, TokenItem.landmark?, hkind, if_true]
    rw [← rank] at hfront
    rw [← hfront, List.modify, ← Nat.add_zero (List.length _), List.modifyTailIdx_add]
    rfl
  · simp only [List.filterMap_cons, TokenItem.landmark?, hkind]
    rfl

end Linking

end TokenStream

/-! ### Parentheses -/

/-- What a lexeme means for the groups around it. -/
inductive Parenthesis where
  | opens (opener : Opener)
  | closes
  /-- An option setting, or something that is no lexeme of a readable body. -/
  | other
deriving DecidableEq, Repr

namespace Lexeme

def parenthesis? : Lexeme → Option Parenthesis
  | .plain _ | .escaped _ | .loneBackslash | .bracket _ _ => none
  | .opener o _ => some (.opens o)
  | .closer _ => some .closes
  | .optionSetting _ | .unclosedBracket _ | .unknownGroup _ => some .other

def parentheses (ls : List Lexeme) : List Parenthesis := ls.filterMap parenthesis?

theorem parentheses_cons (l : Lexeme) (ls : List Lexeme) :
    parentheses (l :: ls) = l.parenthesis?.toList ++ parentheses ls := by
  cases h : l.parenthesis? <;> simp [parentheses, h]

theorem parentheses_append (ls ms : List Lexeme) :
    parentheses (ls ++ ms) = parentheses ls ++ parentheses ms := List.filterMap_append

theorem parentheses_of_literal {ls : List Lexeme} (h : ∀ l ∈ ls, l.isLiteral = true) :
    parentheses ls = [] := by
  apply List.filterMap_eq_nil_iff.2
  intro l hl
  have hliteral := h l hl
  cases l <;> first | rfl | cases hliteral

theorem mem_parentheses {l : Lexeme} {ls : List Lexeme} (hl : l ∈ ls) {p : Parenthesis}
    (hp : l.parenthesis? = some p) : p ∈ parentheses ls :=
  List.mem_filterMap.2 ⟨l, hl, hp⟩

end Lexeme

/-! ### The machine -/

namespace TokenStream

/-- The landmarks so far, and the open groups, innermost first: their kinds, and the numbers
    of landmarks before them. -/
structure Outline where
  marks : List Landmark
  stack : List (GroupKind × Nat)
deriving DecidableEq, Repr

namespace Outline

def initial : Outline := ⟨[], []⟩

def opened (o : Outline) (kind : GroupKind) : Outline :=
  ⟨o.marks ++ if kind.isLandmark then [⟨kind, true, 0⟩] else [],
    (kind, o.marks.length) :: o.stack⟩

/-- The outline after the end of a group that started at `place`, inside the groups
    `enclosing`. -/
def closed (o : Outline) (kind : GroupKind) (place : Nat) (enclosing : List (GroupKind × Nat)) :
    Outline :=
  ⟨if kind.isLandmark then
      o.marks.modify place ({ · with partner := o.marks.length }) ++ [⟨kind, false, place⟩]
    else o.marks,
    enclosing⟩

def step (limit : Nat) (o : Outline) : Parenthesis → Option Outline
  | .opens opener => if o.stack.length < limit then some (o.opened opener.kind) else none
  | .closes =>
    match o.stack with
    | [] => none
    | (kind, place) :: enclosing => some (o.closed kind place enclosing)
  | .other => none

theorem step_opens_eq_some {limit : Nat} {o o' : Outline} {opener : Opener} :
    o.step limit (.opens opener) = some o' ↔
      o.stack.length < limit ∧ o' = o.opened opener.kind := by
  by_cases h : o.stack.length < limit <;> simp [step, h, eq_comm]

theorem step_closes_eq_some {limit : Nat} {o o' : Outline} :
    o.step limit .closes = some o' ↔
      ∃ kind place enclosing, o.stack = (kind, place) :: enclosing ∧
        o' = o.closed kind place enclosing := by
  cases h : o.stack with
  | nil => simp [step, h]
  | cons entry enclosing =>
    obtain ⟨kind, place⟩ := entry
    simp only [step, h, Option.some.injEq, List.cons.injEq, Prod.mk.injEq]
    constructor
    · rintro rfl
      exact ⟨kind, place, enclosing, ⟨⟨rfl, rfl⟩, rfl⟩, rfl⟩
    · rintro ⟨_, _, _, ⟨⟨rfl, rfl⟩, rfl⟩, rfl⟩
      rfl

def run (limit : Nat) (o : Outline) (ps : List Parenthesis) : Option Outline :=
  ps.foldlM (step limit) o

@[simp] theorem run_nil (limit : Nat) (o : Outline) : run limit o [] = some o := rfl

theorem run_cons (limit : Nat) (o : Outline) (p : Parenthesis) (ps : List Parenthesis) :
    run limit o (p :: ps) = (step limit o p).bind fun mid => run limit mid ps := rfl

theorem run_append (limit : Nat) (o : Outline) (ps qs : List Parenthesis) :
    run limit o (ps ++ qs) = (run limit o ps).bind fun mid => run limit mid qs :=
  List.foldlM_append

end Outline

/-! ### The reader and the machine -/

namespace State

def items (s : State) : List TokenItem := s.tokens.toList.map Token.item

def outline (s : State) : Outline :=
  ⟨landmarks s.items, s.openGroups.map fun group => (group.kind, rank s.items group.startToken)⟩

/-- Does no item name an index behind the tokens? -/
def Bounded (s : State) : Prop := ∀ item ∈ s.items, ∀ i ∈ item.link?, i ≤ s.tokens.size

@[simp] theorem length_items (s : State) : s.items.length = s.tokens.size := by
  simp [items]

theorem items_emit (s : State) (l : Lexeme) (item : TokenItem) :
    (s.emit l item).items = s.items ++ [item] := by
  simp [items, emit]

theorem items_closed (s : State) (group : OpenGroup) (enclosing : List OpenGroup)
    (quantifiers : List Char) :
    (s.closed group enclosing quantifiers).items =
      s.items.modify group.startToken (linkedItem s.tokens.size) ++
        [.groupEnd group.kind group.startToken (String.ofList quantifiers)] := by
  rw [closed, items_emit]
  simp only [items, Array.toList_modify, map_modify (item_link s.tokens.size)]

theorem getElem?_items (s : State) (i : Nat) : s.items[i]? = s.itemAt? i := by
  simp [items, itemAt?]

end State

variable {limit : Nat} {s s' : State} {l : Lexeme}

theorem bounded_initial : State.initial.Bounded := by
  simp [State.Bounded, State.items, State.initial]

theorem le_of_mem_modify {items : List TokenItem} {k e size : Nat} (he : e ≤ size)
    (h : ∀ x ∈ items, ∀ i ∈ x.link?, i ≤ size) :
    ∀ x ∈ items.modify k (State.linkedItem e), ∀ i ∈ x.link?, i ≤ size := by
  intro x hx i hi
  obtain ⟨j, hj⟩ := List.mem_iff_getElem?.1 hx
  rw [List.getElem?_modify] at hj
  obtain ⟨old, hold, rfl⟩ := Option.map_eq_some_iff.1 hj
  have hmem := List.mem_of_getElem? hold
  split at hi
  · rcases old with _ | _ | ⟨opener, _⟩ | ⟨kind, start, q⟩
    · cases hi
    · cases hi
    · cases hi
      exact he
    · exact h _ hmem i hi
  · exact h old hmem i hi

/-- Behind the items of a state, a new item names an index among them or the next one. -/
theorem State.Bounded.concat (h : s.Bounded) {item : TokenItem}
    (hitem : ∀ i ∈ item.link?, i ≤ s.tokens.size) :
    ∀ x ∈ s.items ++ [item], ∀ i ∈ x.link?, i ≤ s.items.length := by
  rw [State.length_items]
  exact List.forall_mem_append.2 ⟨h, List.forall_mem_singleton.2 hitem⟩

theorem bounded_emit (h : s.Bounded) {item : TokenItem}
    (hitem : ∀ i ∈ item.link?, i ≤ s.tokens.size) : (s.emit l item).Bounded := by
  intro x hx i hi
  rw [State.items_emit] at hx
  have hle := h.concat hitem x hx i hi
  rw [State.length_items] at hle
  rw [State.emit_size]
  omega

/-- An item behind all others leaves the places of the open groups. -/
theorem stack_concat (hlinked : Linked limit s) {groups : List OpenGroup}
    (hgroups : ∀ group ∈ groups, group ∈ s.openGroups) {items : List TokenItem}
    (hlength : items.length = s.tokens.size) (hrank : ∀ i, rank items i = rank s.items i)
    (item : TokenItem) :
    (groups.map fun group => (group.kind, rank (items ++ [item]) group.startToken)) =
      groups.map fun group => (group.kind, rank s.items group.startToken) := by
  apply List.map_congr_left
  intro group hgroup
  have hlt := hlinked.openStart_lt (List.mem_map_of_mem (hgroups group hgroup))
  rw [rank_concat (by omega), hrank]

theorem outline_emit (hlinked : Linked limit s) (h : s.Bounded) {item : TokenItem}
    (hitem : ∀ i ∈ item.link?, i ≤ s.tokens.size) :
    (s.emit l item).outline =
      ⟨s.outline.marks ++ (item.landmark? (rank s.items)).toList, s.outline.stack⟩ := by
  have hstack := stack_concat hlinked (fun _ => id) s.length_items (fun _ => rfl) item
  rw [State.outline, State.items_emit, landmarks_concat (h.concat hitem)]
  exact congrArg (Outline.mk _) hstack

theorem outline_opened (hlinked : Linked limit s) (h : s.Bounded) (opener : Opener)
    (text : List Char) : (s.opened opener text).outline = s.outline.opened opener.kind := by
  have hlink : ∀ i ∈ (TokenItem.groupStart opener 0).link?, i ≤ s.tokens.size := by
    rintro i ⟨rfl⟩
    exact Nat.zero_le _
  have hitems : (s.opened opener text).items = s.items ++ [.groupStart opener 0] :=
    State.items_emit s _ _
  have hstack := stack_concat hlinked (fun _ => id) s.length_items (fun _ => rfl)
    (.groupStart opener 0)
  have hplace : rank (s.items ++ [.groupStart opener 0]) s.tokens.size =
      (landmarks s.items).length := by
    rw [rank_concat (by simp), ← s.length_items, rank_length]
  rw [State.outline, hitems, landmarks_concat (h.concat hlink), State.opened_openGroups,
    List.map_cons, hstack, hplace]
  by_cases hkind : opener.kind.isLandmark = true
  · simp [TokenItem.landmark?, Outline.opened, State.outline, hkind, rank]
  · simp [TokenItem.landmark?, Outline.opened, State.outline, hkind]

theorem bounded_closed (hlinked : Linked limit s) (h : s.Bounded) {group : OpenGroup}
    {enclosing : List OpenGroup} (hopen : s.openGroups = group :: enclosing)
    (quantifiers : List Char) : (s.closed group enclosing quantifiers).Bounded := by
  have hlt := hlinked.openStart_lt (List.mem_map_of_mem (hopen ▸ List.mem_cons_self ..))
  intro x hx i hi
  rw [State.items_closed] at hx
  rw [State.closed_size]
  rcases List.mem_append.1 hx with hold | hnew
  · have := le_of_mem_modify (Nat.le_refl _) h x hold i hi
    omega
  · rw [List.mem_singleton.1 hnew] at hi
    cases hi
    omega

theorem outline_closed (hlinked : Linked limit s) (h : s.Bounded) {group : OpenGroup}
    {enclosing : List OpenGroup} (hopen : s.openGroups = group :: enclosing)
    (quantifiers : List Char) :
    (s.closed group enclosing quantifiers).outline =
      s.outline.closed group.kind (rank s.items group.startToken)
        (enclosing.map fun group => (group.kind, rank s.items group.startToken)) := by
  have hmem : group ∈ s.openGroups := hopen ▸ List.mem_cons_self ..
  obtain ⟨opener, old, hstart, hkind⟩ := hlinked.start_of_open group hmem
  have hlt := State.lt_size_of_itemAt? hstart
  have hlength : (s.items.modify group.startToken (State.linkedItem s.tokens.size)).length =
      s.tokens.size := by
    rw [List.length_modify, s.length_items]
  have hbound := le_of_mem_modify (k := group.startToken) (Nat.le_refl _) h
  have hstack := stack_concat hlinked
    (fun other hother => hopen ▸ List.mem_cons_of_mem _ hother) hlength (rank_modify _ _ _)
    (.groupEnd group.kind group.startToken (String.ofList quantifiers))
  rw [State.outline, State.items_closed, landmarks_concat, State.closed_openGroups, hstack,
    landmarks_modify ((s.getElem?_items _).trans hstart), hkind]
  · have hplace : rank s.items s.tokens.size = (landmarks s.items).length := by
      rw [← s.length_items, rank_length]
    by_cases hmark : group.kind.isLandmark = true
    · simp [TokenItem.landmark?, Outline.closed, State.outline, hmark, rank_modify, hplace]
    · simp [TokenItem.landmark?, Outline.closed, State.outline, hmark]
  · rw [hlength]
    refine List.forall_mem_append.2 ⟨hbound, List.forall_mem_singleton.2 ?_⟩
    rintro i ⟨rfl⟩
    exact Nat.le_of_lt hlt

/-- What the machine relies on, at any time of a reading. -/
structure Tracked (limit : Nat) (s : State) : Prop where
  linked : Linked limit s
  bounded : s.Bounded

theorem tracked_initial : Tracked limit .initial := ⟨linked_initial, bounded_initial⟩

namespace Tracked

theorem moves (h : Tracked limit s) (hmove : Moves limit s l s') : Tracked limit s' := by
  refine ⟨h.linked.moves hmove, ?_⟩
  rcases hmove with hliteral | hitem | hroom | hopen
  · exact h.bounded
  · apply bounded_emit h.bounded
    rintro i hi
    cases l <;> cases hitem <;> cases hi
  · apply bounded_emit h.bounded
    rintro i ⟨rfl⟩
    exact Nat.zero_le _
  · exact bounded_closed h.linked h.bounded hopen _

/-- **A transition of the reader is one of the machine.** -/
theorem run_of_moves (h : Tracked limit s) (hmove : Moves limit s l s')
    (hother : l.parenthesis? ≠ some .other) :
    s.outline.run limit l.parenthesis?.toList = some s'.outline := by
  rcases hmove with hliteral | ⟨hitem⟩ | hroom | @⟨group, enclosing, quantifiers, hopen⟩
  · cases l <;> first | rfl | cases hliteral
  · cases l with
    | bracket content quantifiers =>
      cases hitem
      have hlink : ∀ i ∈ (TokenItem.characterClass (String.ofList content)
          (String.ofList quantifiers)).link?, i ≤ s.tokens.size := by simp [TokenItem.link?]
      have hemit := outline_emit (l := .bracket content quantifiers) h.linked h.bounded hlink
      rw [hemit]
      simp [Lexeme.parenthesis?, TokenItem.landmark?]
    | optionSetting options => exact absurd rfl hother
    | _ => cases hitem
  · have hlt : s.outline.stack.length < limit := by simpa [State.outline] using hroom
    rw [outline_opened h.linked h.bounded]
    simp [Lexeme.parenthesis?, Outline.run, Outline.step, hlt]
  · rw [outline_closed h.linked h.bounded hopen]
    simp [Lexeme.parenthesis?, Outline.run, Outline.step, State.outline, hopen]

/-- A transition of the machine is one of the reader. -/
theorem exists_moves_of_run (h : Tracked limit s) {o : Outline}
    (hrun : s.outline.run limit l.parenthesis?.toList = some o) :
    ∃ s', Moves limit s l s' ∧ s'.outline = o := by
  have hother : l.parenthesis? ≠ some .other := by
    intro heq
    rw [heq] at hrun
    cases hrun
  obtain ⟨s', hmove⟩ : ∃ s', Moves limit s l s' := by
    cases l with
    | plain c => exact ⟨_, .skip rfl⟩
    | escaped c => exact ⟨_, .skip rfl⟩
    | loneBackslash => exact ⟨_, .skip rfl⟩
    | bracket content quantifiers => exact ⟨_, .emit rfl⟩
    | opener o text =>
      by_cases hroom : s.openGroups.length < limit
      · exact ⟨_, .opened hroom⟩
      · simp [Lexeme.parenthesis?, Outline.run, Outline.step, State.outline, hroom] at hrun
    | closer quantifiers =>
      cases hopen : s.openGroups with
      | nil => simp [Lexeme.parenthesis?, Outline.run, Outline.step, State.outline, hopen] at hrun
      | cons group enclosing => exact ⟨_, .closed hopen⟩
    | optionSetting options => exact absurd rfl hother
    | unclosedBracket after => exact absurd rfl hother
    | unknownGroup after => exact absurd rfl hother
  exact ⟨s', hmove, Option.some.inj ((h.run_of_moves hmove hother).symm.trans hrun)⟩

theorem run_of_reads (h : Tracked limit s) {ls : List Lexeme} (hreads : Reads limit s ls s')
    (hother : .other ∉ Lexeme.parentheses ls) :
    s.outline.run limit (Lexeme.parentheses ls) = some s'.outline := by
  induction ls generalizing s with
  | nil =>
    rw [reads_nil.1 hreads]
    rfl
  | cons l ls ih =>
    obtain ⟨mid, hmove, hrest⟩ := reads_cons.1 hreads
    rw [Lexeme.parentheses_cons] at hother ⊢
    obtain ⟨hl, hls⟩ := not_or.1 (mt List.mem_append.2 hother)
    have hfirst := h.run_of_moves hmove fun heq => hl (by rw [heq]; exact List.mem_singleton.2 rfl)
    rw [Outline.run_append, hfirst]
    exact ih (h.moves hmove) hrest hls

theorem exists_reads_of_run (h : Tracked limit s) {ls : List Lexeme} {o : Outline}
    (hrun : s.outline.run limit (Lexeme.parentheses ls) = some o) :
    ∃ s', Reads limit s ls s' ∧ s'.outline = o := by
  induction ls generalizing s with
  | nil => exact ⟨s, reads_nil.2 rfl, Option.some.inj hrun⟩
  | cons l ls ih =>
    rw [Lexeme.parentheses_cons, Outline.run_append] at hrun
    obtain ⟨first, hfirst, hrest⟩ := Option.bind_eq_some_iff.1 hrun
    obtain ⟨mid, hmove, rfl⟩ := h.exists_moves_of_run hfirst
    obtain ⟨s', hreads, hout⟩ := ih (h.moves hmove) hrest
    exact ⟨s', reads_cons.2 ⟨mid, hmove, hreads⟩, hout⟩

end Tracked

/-- **The landmarks of a body are those that the machine finds**, and the machine succeeds when
    the body has tokens. -/
theorem run_of_tokenize {limit : Nat} {body : List Char} {tokens : List Token}
    (h : (tokenize limit body).outcome = .ok tokens)
    (hother : .other ∉ Lexeme.parentheses (Lexeme.ofBody body)) :
    Outline.run limit .initial (Lexeme.parentheses (Lexeme.ofBody body)) =
      some ⟨landmarks (tokens.map Token.item), []⟩ := by
  obtain ⟨s, hreads, hclosed, rfl⟩ := tokenize_eq_ok_iff.1 h
  have hout : s.outline = ⟨landmarks s.items, []⟩ := by
    rw [State.outline, hclosed, List.map_nil]
  exact hout ▸ tracked_initial.run_of_reads hreads hother

/-- A body has tokens when the machine succeeds, and the machine finds their landmarks. -/
theorem exists_tokenize_of_run {limit : Nat} {body : List Char} {marks : List Landmark}
    (h : Outline.run limit .initial (Lexeme.parentheses (Lexeme.ofBody body)) = some ⟨marks, []⟩) :
    ∃ tokens, (tokenize limit body).outcome = .ok tokens ∧
      landmarks (tokens.map Token.item) = marks := by
  obtain ⟨s, hreads, hout⟩ := tracked_initial.exists_reads_of_run (s := .initial) h
  obtain ⟨hmarks, hstack⟩ := Outline.mk.inj hout
  exact ⟨_, tokenize_eq_ok_iff.2 ⟨s, hreads, List.map_eq_nil_iff.1 hstack, rfl⟩, hmarks⟩

end TokenStream

end RegexText
