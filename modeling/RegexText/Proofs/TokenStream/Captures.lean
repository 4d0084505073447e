/-
  RegexText/Proofs/TokenStream/Captures.lean
  ==========================================
  **The capturing groups of a body, read off its text.**

  A capturing group opens where a parenthesis stands outside of escapes and of
  bracket expressions, and behind it neither a question mark nor anything but a
  name in one of its three spellings.  `CapturingGroups` says so of the text alone.
  `capturingGroups_of_tokenize` says that the tokens of a body name these groups
  and no others, whatever lies between and around them.
-/
import RegexText.Proofs.Lexeme.Outside
import RegexText.Proofs.Source.Spelling
import RegexText.Proofs.TokenStream.Outline

namespace RegexText

open Text

/-! ### Openings in a text -/

/-- Does an opening parenthesis open a capturing group, named or not, if `after` comes
    behind it? -/
inductive OpensCapture : List Char → Option String → Prop where
  | unnamed {after : List Char} (h : after.head? ≠ some '?') : OpensCapture after none
  | letter {name rest : List Char} (h : Source.isIdentifier name = true) :
      OpensCapture ('?' :: 'P' :: '<' :: name ++ '>' :: rest) (some (String.ofList name))
  | angle {name rest : List Char} (h : Source.isIdentifier name = true) :
      OpensCapture ('?' :: '<' :: name ++ '>' :: rest) (some (String.ofList name))
  | quote {name rest : List Char} (h : Source.isIdentifier name = true) :
      OpensCapture ('?' :: '\'' :: name ++ '\'' :: rest) (some (String.ofList name))

/-- Does a capturing group of a body open at a byte offset? -/
def CapturesAt (body : List Char) (pos : Nat) (name : Option String) : Prop :=
  ∃ before after, body = before ++ '(' :: after ∧ byteLength before = pos ∧
    Lexeme.Outside before ∧ OpensCapture after name

/-- Are these the capturing groups of a body, in the order in which they open, each with the
    offset of its parenthesis and with its name if it has one? -/
structure CapturingGroups (body : List Char) (groups : List (Nat × Option String)) : Prop where
  ordered : groups.Pairwise fun a b => a.1 < b.1
  mem_iff : ∀ pos name, (pos, name) ∈ groups ↔ CapturesAt body pos name

/-! ### Openings among the lexemes -/

namespace Lexeme

variable {c : Char} {cs : List Char} {name : Option String}

theorem opensCapture_of_special {text rest : List Char}
    (h : Special (.opener (.capturing name) text)) (hcs : '(' :: '?' :: cs = text ++ rest) :
    OpensCapture ('?' :: cs) name := by
  cases h with
  | @letter name hname =>
    obtain rfl : cs = 'P' :: '<' :: name ++ '>' :: rest := by simpa using hcs
    exact .letter hname
  | @angle name hname =>
    obtain rfl : cs = '<' :: name ++ '>' :: rest := by simpa using hcs
    exact .angle hname
  | @quote name hname =>
    obtain rfl : cs = '\'' :: name ++ '\'' :: rest := by simpa using hcs
    exact .quote hname

theorem opensCapture_of_readGroup {text : List Char}
    (h : (readGroup cs).1 = .opener (.capturing name) text) : OpensCapture cs name := by
  unfold readGroup at h
  split at h
  · rename_i inner
    cases hread : readSpecial inner with
    | none =>
      rw [hread] at h
      cases h
    | some r =>
      obtain ⟨l, rest⟩ := r
      rw [hread, Option.getD_some] at h
      subst h
      exact opensCapture_of_special (special_of_readSpecial hread) (eq_of_readSpecial hread)
  · rename_i hquestion
    cases h
    refine .unnamed fun hhead => ?_
    obtain ⟨inner, rfl⟩ := List.head?_eq_some_iff.1 hhead
    exact hquestion inner rfl

theorem readGroup_of_opensCapture (h : OpensCapture cs name) :
    ∃ text, (readGroup cs).1 = .opener (.capturing name) text := by
  cases h with
  | unnamed hhead =>
    unfold readGroup
    split
    · exact absurd rfl hhead
    · exact ⟨_, rfl⟩
  | @letter found rest hname =>
    have hsplit : '(' :: '?' :: 'P' :: '<' :: found ++ '>' :: rest =
        ('(' :: '?' :: 'P' :: '<' :: found ++ ['>']) ++ rest := by
      simp
    exact ⟨_, congrArg Prod.fst (readGroup_of_special (.letter hname) hsplit)⟩
  | @angle found rest hname =>
    have hsplit : '(' :: '?' :: '<' :: found ++ '>' :: rest =
        ('(' :: '?' :: '<' :: found ++ ['>']) ++ rest := by
      simp
    exact ⟨_, congrArg Prod.fst (readGroup_of_special (.angle hname) hsplit)⟩
  | @quote found rest hname =>
    have hsplit : '(' :: '?' :: '\'' :: found ++ '\'' :: rest =
        ('(' :: '?' :: '\'' :: found ++ ['\'']) ++ rest := by
      simp
    exact ⟨_, congrArg Prod.fst (readGroup_of_special (.quote hname) hsplit)⟩

/-- Only a parenthesis opens a group. -/
theorem readGroup_of_next {opener : Opener} {text : List Char}
    (h : (next c cs).1 = .opener opener text) :
    c = '(' ∧ (readGroup cs).1 = .opener opener text := by
  unfold next at h
  split_ifs at h with hbackslash hbracket hgroup hcloser
  · cases cs <;> cases h
  · unfold readBracket at h
    split at h <;> cases h
  · exact ⟨hgroup, h⟩

/-- The name of the capturing group that a lexeme opens, or that it has none; `none` for other
    lexemes. -/
def captureName? : Lexeme → Option (Option String)
  | .opener (.capturing name) _ => some name
  | _ => none

theorem eq_opener_of_captureName? {l : Lexeme} (h : l.captureName? = some name) :
    ∃ text, l = .opener (.capturing name) text := by
  unfold captureName? at h
  split at h
  · cases h
    exact ⟨_, rfl⟩
  · cases h

/-- **A capturing group opens where a lexeme says so.** -/
theorem capturesAt_iff {body : List Char} {pos : Nat}
    (hclosed : ∀ l ∈ ofBody body, l.isClosed = true) :
    CapturesAt body pos name ↔ ∃ before text after,
      ofBody body = before ++ .opener (.capturing name) text :: after ∧
        byteLength (before.flatMap Lexeme.text) = pos := by
  constructor
  · rintro ⟨before, after, hbody, rfl, houtside, hopens⟩
    obtain ⟨ls, hls, rfl⟩ := exists_ofBody_of_outside hclosed (.inr rfl) houtside hbody
    obtain ⟨text, hread⟩ := readGroup_of_opensCapture hopens
    rw [ofBody, next_group, hread] at hls
    exact ⟨ls, text, _, hls, rfl⟩
  · rintro ⟨before, text, after, hls, rfl⟩
    have hbody := flatMap_text_ofBody body
    have hbehind := ofBody_flatMap_text hls
    rw [hls, List.flatMap_append] at hbody
    cases hrest : (Lexeme.opener (.capturing name) text :: after).flatMap Lexeme.text with
    | nil =>
      rw [hrest] at hbehind
      simp [ofBody] at hbehind
    | cons c cs =>
      rw [hrest] at hbehind hbody
      rw [ofBody] at hbehind
      obtain ⟨rfl, hread⟩ := readGroup_of_next (List.cons.inj hbehind).1
      have houtside := outside_of_ofBody hls fun m hm => hclosed m (by simp [hls, hm])
      exact ⟨_, cs, hbody.symm, rfl, houtside, opensCapture_of_readGroup hread⟩

end Lexeme

/-! ### Openings among the tokens -/

namespace TokenStream

theorem isClosed_of_reads {limit : Nat} {s s' : State} {ls : List Lexeme}
    (h : Reads limit s ls s') : ∀ l ∈ ls, l.isClosed = true := by
  induction ls generalizing s with
  | nil => simp
  | cons l ls ih =>
    obtain ⟨mid, hmove, hrest⟩ := reads_cons.1 h
    refine List.forall_mem_cons.2 ⟨?_, ih hrest⟩
    cases hmove with
    | skip hliteral => cases l <;> first | rfl | cases hliteral
    | emit hitem => cases l <;> first | rfl | cases hitem
    | opened => rfl
    | closed => rfl

theorem bind_itemFor? (kinds : List GroupKind) (l : Lexeme) :
    (itemFor? kinds l).bind TokenItem.captureName? = l.captureName? := by
  cases l with
  | opener opener text => cases opener <;> rfl
  | closer quantifiers => cases kinds <;> rfl
  | _ => rfl

/-- The capturing groups that some tokens open, with the offsets of the tokens. -/
def groupsOf (tokens : List Token) : List (Nat × Option String) :=
  tokens.filterMap fun t => t.item.captureName?.map fun name => (t.pos, name)

theorem map_groupsOf (tokens : List Token) :
    (groupsOf tokens).map Prod.snd = captureNames (tokens.map Token.item) := by
  rw [groupsOf, List.map_filterMap, captureNames, List.filterMap_map]
  congr 1
  funext t
  simp [Function.comp_def]

theorem groupsOf_unlinked (tokens : List Token) :
    groupsOf (tokens.map unlinked) = groupsOf tokens := by
  rw [groupsOf, List.filterMap_map, groupsOf]
  congr 1
  funext t
  obtain ⟨pos, len, item⟩ := t
  rcases item with _ | _ | ⟨_ | _ | _ | _, e⟩ | _ <;> rfl

theorem mem_groupsOf_layout {ls : List Lexeme} {pos : Nat} {name : Option String} :
    (pos, name) ∈ groupsOf (layout 0 [] ls) ↔ ∃ before text after,
      ls = before ++ .opener (.capturing name) text :: after ∧
        byteLength (before.flatMap Lexeme.text) = pos := by
  rw [groupsOf, List.mem_filterMap]
  constructor
  · rintro ⟨t, ht, hname⟩
    obtain ⟨found, hfound, heq⟩ := Option.map_eq_some_iff.1 hname
    cases heq
    obtain ⟨before, l, after, rfl, hpos, _, kinds, hitem⟩ := mem_layout ht
    have hcapture : l.captureName? = some name := by
      rw [← bind_itemFor? kinds l, hitem, Option.bind_some, hfound]
    obtain ⟨text, rfl⟩ := Lexeme.eq_opener_of_captureName? hcapture
    exact ⟨before, text, after, rfl, by rw [hpos, Nat.zero_add]⟩
  · rintro ⟨before, text, after, rfl, rfl⟩
    refine ⟨_, mem_layout_opener 0 [] before (.capturing name) text after, ?_⟩
    rw [Nat.zero_add]
    rfl

/-- **The tokens of a body open the capturing groups of its text.** -/
theorem capturingGroups_of_tokenize {limit : Nat} {body : List Char} {tokens : List Token}
    (h : (tokenize limit body).outcome = .ok tokens) :
    CapturingGroups body (groupsOf tokens) := by
  obtain ⟨s, hreads, _, rfl⟩ := tokenize_eq_ok_iff.1 h
  have hclosed := isClosed_of_reads hreads
  constructor
  · rw [groupsOf, List.pairwise_filterMap]
    apply (pairwise_of_reads hreads).imp_of_mem
    intro a b ha _ hab x hx y hy
    obtain ⟨_, _, rfl⟩ := Option.map_eq_some_iff.1 hx
    obtain ⟨_, _, rfl⟩ := Option.map_eq_some_iff.1 hy
    obtain ⟨_, text, _, _, hne, _, hlen⟩ := exists_lexeme_of_mem hreads ha
    have hpositive := byteLength_pos hne
    rw [Token.stop, hlen] at hab
    change a.pos < b.pos
    omega
  · intro pos name
    rw [Lexeme.capturesAt_iff hclosed, ← mem_groupsOf_layout, ← map_unlinked_of_tokenize h,
      groupsOf_unlinked]

end TokenStream

end RegexText
