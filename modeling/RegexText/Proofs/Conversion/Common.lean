/-
  RegexText/Proofs/Conversion/Common.lean
  =======================================
  **Patterns that belong to no dialect alone are left as they are.**

  A pattern between slashes is *common* if nothing in it belongs to the source
  dialect only: its groups have no names and no options and do not look behind, its
  quantifiers are not possessive, and it holds no category escapes and no references
  in the spellings that the target does not know.  The literal text in between may
  be anything else, and so may the text between brackets.

  The condition speaks of tokens and of places in the body.  The converter goes
  through lexemes, so the condition is first brought down to each lexeme of the body.
  A common lexeme is written as it was read, be it a token or literal text.
-/
import RegexText.Proofs.Conversion.Backreferences
import RegexText.Proofs.Lexeme.Grammar
import RegexText.Proofs.Pattern.Delimiters

namespace RegexText

open Text TokenStream

/-! ### Common patterns -/

/-- Does a group open in the same way in the target? -/
def Opener.IsCommon : Opener → Prop
  | .capturing name => name = none
  | .nonCapturing options => options = ""
  | .atomic => False
  | .assertion direction _ => direction = .ahead

/-- Can a token be copied?  At most one quantifier character is kept, and none behind an
    assertion. -/
def TokenItem.IsCommon : TokenItem → Prop
  | .characterClass _ quantifiers => quantifiers.length ≤ 1
  | .optionGroup _ => False
  | .groupStart opener _ => opener.IsCommon
  | .groupEnd kind _ quantifiers =>
    if kind.isAssertion then quantifiers = "" else quantifiers.length ≤ 1

/-- Does a text hold no category escape? -/
def Source.NoCategories (cs : List Char) : Prop :=
  ∀ letter after, letter = 'p' ∨ letter = 'P' → ¬ PairAt cs letter after

/-- Does a pattern mean the same in the target, as it is spelled? -/
structure Pattern.IsCommon (p : Pattern) : Prop where
  delimiter : p.delimiter = '/'
  modifiers : p.modifiers.toList.Nodup ∧ ∀ m ∈ p.modifiers.toList, m ∈ ['i', 'm']
  tokens : ∀ t ∈ p.tokens, t.item.IsCommon
  categories : Source.NoCategories p.body.toList
  /-- No reference stands outside of the brackets. -/
  references : ∀ before letter after, p.body.toList = before ++ '\\' :: letter :: after →
    Lexeme.Outside before → ¬ (letter = 'k' ∨ letter = 'g')

instance (opener : Opener) : Decidable opener.IsCommon := by
  cases opener <;> unfold Opener.IsCommon <;> infer_instance

instance (item : TokenItem) : Decidable item.IsCommon := by
  cases item <;> unfold TokenItem.IsCommon <;> infer_instance

theorem TokenItem.isCommon_unlinkedItem {item : TokenItem} :
    (unlinkedItem item).IsCommon ↔ item.IsCommon := by
  cases item <;> rfl

/-! ### Category escapes -/

namespace Source

variable {inClass : Bool} {cs : List Char} {c : Char}

theorem noCategories_pair_iff :
    NoCategories ('\\' :: c :: cs) ↔ ¬ (c = 'p' ∨ c = 'P') ∧ NoCategories cs := by
  constructor
  · intro h
    exact ⟨fun hc => h c cs hc (pairAt_pair_iff.2 (.inl ⟨rfl, rfl⟩)),
      fun letter after hletter hpair => h letter after hletter (pairAt_pair_iff.2 (.inr hpair))⟩
  · rintro ⟨hc, hcs⟩ letter after hletter hpair
    rcases pairAt_pair_iff.1 hpair with ⟨rfl, rfl⟩ | hpair
    · exact hc hletter
    · exact hcs letter after hletter hpair

theorem noCategories_single_iff (hc : c ≠ '\\') : NoCategories (c :: cs) ↔ NoCategories cs := by
  simp only [NoCategories, pairAt_single_iff hc]

instance decidableNoCategories : (cs : List Char) → Decidable (NoCategories cs)
  | [] => isTrue fun _ _ _ => not_pairAt_nil
  | [c] =>
    if hc : c = '\\' then isTrue fun _ _ _ => hc ▸ not_pairAt_lone
    else isTrue ((noCategories_single_iff hc).2 fun _ _ _ => not_pairAt_nil)
  | c :: d :: cs =>
    have := decidableNoCategories cs
    have := decidableNoCategories (d :: cs)
    if hc : c = '\\' then
      decidable_of_iff (¬ (d = 'p' ∨ d = 'P') ∧ NoCategories cs) (hc ▸ noCategories_pair_iff.symm)
    else decidable_of_iff (NoCategories (d :: cs)) (noCategories_single_iff hc).symm

/-- The parts of a text that is cut between pairs hold no category escapes if the whole does not. -/
theorem NoCategories.of_append {as bs : List Char} (has : Complete as)
    (h : NoCategories (as ++ bs)) : NoCategories as ∧ NoCategories bs :=
  ⟨fun letter _ hletter hpair =>
      h letter _ hletter ((pairAt_append_iff has).2 (.inl ⟨_, hpair, rfl⟩)),
    fun letter after hletter hpair =>
      h letter after hletter ((pairAt_append_iff has).2 (.inr hpair))⟩

/-- A text without category escapes is expanded to itself, if dots match no line breaks. -/
theorem NoCategories.expands (h : NoCategories cs) (hcs : Complete cs) :
    Expands inClass false cs cs := by
  induction hcs with
  | nil => exact .nil
  | pair c _ ih =>
    obtain ⟨hc, hrest⟩ := noCategories_pair_iff.1 h
    exact (Expands.pair hc).append (ih hrest)
  | @single c _ hc _ _ ih =>
    have hsingle : Expands inClass false [c] _ := Expands.single hc
    have hdot : (if c = '.' then CategoryEscape.dotText false else [c]) = [c] := by
      split
      · rename_i heq
        rw [heq]
        rfl
      · rfl
    rw [hdot] at hsingle
    exact hsingle.append (ih ((noCategories_single_iff hc).1 h))

end Source

/-! ### Lexemes -/

namespace Lexeme

variable {l : Lexeme} {ls : List Lexeme} {body rest : List Char}

theorem exists_precedes_of_mem_ofBody (h : l ∈ ofBody body) : ∃ rest, l.Precedes rest := by
  have hcut := cut_ofBody body
  generalize ofBody body = ls at h hcut
  induction hcut with
  | nil => cases h
  | cons hfirst _ ih =>
    rcases List.mem_cons.1 h with rfl | hlater
    · exact ⟨_, hfirst⟩
    · exact ih hlater

/-- No lexeme but a lone backslash ends inside a pair. -/
theorem complete_text_of_precedes (h : l.Precedes rest) (hclosed : l.isClosed = true)
    (hlone : l ≠ .loneBackslash) : Complete l.text := by
  cases h with
  | plain hc => exact .single (fun heq => hc (by simp [heq])) id .nil
  | escaped c => exact .pair c .nil
  | loneBackslash => exact absurd rfl hlone
  | @bracket content quantifiers _ hcomplete _ hquantifiers =>
    have hplain : ∀ c ∈ ']' :: quantifiers, c ≠ '\\' := by
      rcases List.mem_cons.1 hquantifiers with rfl | hquantifiers
      · simp
      · simp only [List.mem_cons, List.not_mem_nil, or_false] at hquantifiers
        rcases hquantifiers with rfl | rfl | rfl | rfl <;> simp
    exact .single (by decide) id (hcomplete.append (complete_of_forall hplain))
  | special h => exact complete_of_forall (ne_backslash_of_special h)
  | group => exact complete_of_forall (by simp [text])
  | closer h =>
    exact complete_of_forall
      (List.forall_mem_cons.2 ⟨by decide, fun c hc => ne_backslash_of_isRepeat (h c hc)⟩)
  | unclosedBracket => cases hclosed
  | unknownGroup => cases hclosed

/-- A group that opens in the same way in the target is spelled in the same way. -/
theorem convertOpener_of_precedes {opener : Opener} {text : List Char}
    (h : (Lexeme.opener opener text).Precedes rest) (hopener : opener.IsCommon) (pos : Nat) :
    Conversion.convertOpener pos opener = .ok text := by
  cases h with
  | group => rfl
  | special h =>
    cases h with
    | letter => cases hopener
    | angle => cases hopener
    | quote => cases hopener
    | nonCapturing =>
      obtain rfl := String.ofList_eq_empty_iff.1 hopener
      rfl
    | atomic => exact hopener.elim
    | ahead negated => cases negated <;> rfl
    | behind negated => cases hopener

/-- No reference stands outside of the brackets exactly if no lexeme begins one. -/
theorem forall_not_reference_iff (hclosed : ∀ l ∈ ofBody body, l.isClosed = true) :
    (∀ before letter after, body = before ++ '\\' :: letter :: after → Outside before →
      ¬ (letter = 'k' ∨ letter = 'g')) ↔
    ∀ l ∈ ofBody body, l ≠ .escaped 'k' ∧ l ≠ .escaped 'g' := by
  rw [forall_escaped_iff (P := fun _ letter _ => ¬ (letter = 'k' ∨ letter = 'g')) hclosed]
  constructor
  · intro h l hl
    obtain ⟨ls, ms, hls⟩ := List.append_of_mem hl
    constructor
    · rintro rfl
      exact h ls 'k' ms hls (.inl rfl)
    · rintro rfl
      exact h ls 'g' ms hls (.inr rfl)
  · intro h ls letter ms hls
    obtain ⟨hk, hg⟩ := h (.escaped letter) (by rw [hls]; simp)
    rintro (rfl | rfl)
    · exact hk rfl
    · exact hg rfl

/-- Is a lexeme written as it was read, if its token can be copied? -/
def IsCommon : Lexeme → Prop
  | .plain c => c ≠ '\\'
  | .escaped c => ¬ (c = 'k' ∨ c = 'g') ∧ ¬ (c = 'p' ∨ c = 'P')
  | .loneBackslash => False
  | .bracket content _ => Source.Expands true false content content
  | .opener start text => start.IsCommon → ∀ pos, Conversion.convertOpener pos start = .ok text
  | .optionSetting _ | .closer _ | .unclosedBracket _ | .unknownGroup _ => True

theorem isCommon_of_precedes (h : l.Precedes rest) (hlone : l ≠ .loneBackslash)
    (hcategories : Source.NoCategories l.text)
    (hreferences : l ≠ .escaped 'k' ∧ l ≠ .escaped 'g') : l.IsCommon := by
  cases l with
  | plain c =>
    cases h with
    | plain hc => exact fun heq => hc (by simp [heq])
    | special h => cases h
  | escaped c =>
    refine ⟨?_, (Source.noCategories_pair_iff.1 hcategories).1⟩
    rintro (rfl | rfl)
    · exact hreferences.1 rfl
    · exact hreferences.2 rfl
  | loneBackslash => exact absurd rfl hlone
  | bracket content quantifiers =>
    cases h with
    | bracket hcomplete =>
      have hinner := (Source.noCategories_single_iff (by decide)).1 hcategories
      exact (Source.NoCategories.of_append hcomplete hinner).1.expands hcomplete
    | special h => cases h
  | opener opener text => exact convertOpener_of_precedes h
  | optionSetting options => trivial
  | closer quantifiers => trivial
  | unclosedBracket after => trivial
  | unknownGroup after => trivial

/-- A text is made up of common lexemes if it holds neither category escapes nor references. -/
theorem isCommon_of_forall (hprecedes : ∀ l ∈ ls, ∃ rest, l.Precedes rest)
    (hclosed : ∀ l ∈ ls, l.isClosed = true) (hlone : .loneBackslash ∉ ls)
    (hcategories : Source.NoCategories (ls.flatMap text))
    (hreferences : ∀ l ∈ ls, l ≠ .escaped 'k' ∧ l ≠ .escaped 'g') :
    ∀ l ∈ ls, l.IsCommon := by
  induction ls with
  | nil => simp
  | cons l ls ih =>
    obtain ⟨⟨rest, hfirst⟩, hprecedes⟩ := List.forall_mem_cons.1 hprecedes
    obtain ⟨hclosedfirst, hclosed⟩ := List.forall_mem_cons.1 hclosed
    obtain ⟨hne, hlone⟩ := not_or.1 (mt List.mem_cons.2 hlone)
    obtain ⟨hown, hlater⟩ := Source.NoCategories.of_append
      (complete_text_of_precedes hfirst hclosedfirst (Ne.symm hne)) hcategories
    obtain ⟨hreference, hreferences⟩ := List.forall_mem_cons.1 hreferences
    exact List.forall_mem_cons.2 ⟨isCommon_of_precedes hfirst (Ne.symm hne) hown hreference,
      ih hprecedes hclosed hlone hlater hreferences⟩

end Lexeme

/-! ### Conversion -/

namespace Source

open Conversion

variable {limit : Nat} {groups : Groups} {kinds : List GroupKind} {s s' : State} {l : Lexeme}
  {ls : List Lexeme} {item : TokenItem}

theorem take_one {quantifiers : String} (h : quantifiers.length ≤ 1) :
    quantifiers.toList.take 1 = quantifiers.toList :=
  List.take_of_length_le (by rwa [String.length_toList])

/-- A token that can be copied is copied. -/
theorem convertToken_common (hitem : itemFor? kinds l = some item) (hcommon : item.IsCommon)
    (hl : l.IsCommon) (pos : Nat) :
    (convertToken ⟨pos, byteLength l.text, item⟩).outcome = .ok l.text := by
  cases l with
  | bracket content quantifiers =>
    cases hitem
    have hinner : (CategoryEscape.expand true false (String.ofList content).toList).outcome =
        .ok content := by
      rw [String.toList_ofList]
      exact Expands.outcome hl
    refine Traced.outcome_bind_eq_ok_iff.2 ⟨content, hinner, ?_⟩
    rw [take_one hcommon, String.toList_ofList]
    rfl
  | opener opener text =>
    cases hitem
    simp only [convertToken, hl hcommon pos]
    rfl
  | closer quantifiers =>
    obtain ⟨kind, _, rfl⟩ := Option.map_eq_some_iff.1 hitem
    simp only [TokenItem.IsCommon] at hcommon
    simp only [convertToken, Traced.outcome_pure, Lexeme.text]
    split at hcommon
    · rename_i hassertion
      rw [if_pos hassertion, String.ofList_eq_empty_iff.1 hcommon]
    · rename_i hassertion
      rw [if_neg hassertion, take_one hcommon, String.toList_ofList]
  | optionSetting options =>
    cases hitem
    exact hcommon.elim
  | plain c => cases hitem
  | escaped c => cases hitem
  | loneBackslash => cases hitem
  | unclosedBracket after => cases hitem
  | unknownGroup after => cases hitem

/-- Literal text is rewritten to itself. -/
theorem rewrites_common (hliteral : l.isLiteral = true) (hl : l.IsCommon) (digitBehind : Bool) :
    Rewrites false groups digitBehind l.text l.text := by
  cases l with
  | plain c =>
    have hnone : NoCategories [c] :=
      (noCategories_single_iff hl).2 fun _ _ _ => not_pairAt_nil
    exact .of_passes (Passes.single hl) (hnone.expands (.single hl id .nil))
  | escaped c => exact .of_passes (Passes.pair hl.1) (Expands.pair hl.2)
  | loneBackslash => exact hl.elim
  | bracket content quantifiers => cases hliteral
  | optionSetting options => cases hliteral
  | opener opener text => cases hliteral
  | closer quantifiers => cases hliteral
  | unclosedBracket after => cases hliteral
  | unknownGroup after => cases hliteral

/-- A lexeme that the reader steps over without a token is literal text. -/
theorem isLiteral_of_moves (h : Moves limit s l s') (hitem : itemFor? s.kinds l = none) :
    l.isLiteral = true := by
  cases h with
  | skip hliteral => exact hliteral
  | emit hflat => cases l <;> cases hflat <;> cases hitem
  | opened => cases hitem
  | closed hopen => simp [itemFor?, State.kinds, hopen] at hitem

theorem forall_groupsAfter (hgroups : ∀ name ∈ groups, name = none) (hcommon : item.IsCommon) :
    ∀ name ∈ groupsAfter groups item, name = none := by
  refine List.forall_mem_append.2 ⟨?_, hgroups⟩
  intro name hname
  rw [Option.mem_toList] at hname
  rcases item with _ | _ | ⟨_ | _ | _ | _, _⟩ | _ <;> cases hname
  exact hcommon

/-- **Common lexemes are carried over as they are**, and no group gets a name. -/
theorem Carries.common (hgroups : ∀ name ∈ groups, name = none) (hreads : Reads limit s ls s')
    (htokens : ∀ t ∈ layout s.pos s.kinds ls, t.item.IsCommon) (hls : ∀ l ∈ ls, l.IsCommon) :
    ∃ final : Groups, (∀ name ∈ final, name = none) ∧
      Carries false groups s.kinds ls (ls.flatMap Lexeme.text) (capturesOf final) := by
  induction ls generalizing s groups with
  | nil => exact ⟨groups, hgroups, .nil⟩
  | cons l ls ih =>
    obtain ⟨mid, hmove, hrest⟩ := reads_cons.1 hreads
    obtain ⟨hpos, hkinds, _⟩ := hmove.layout
    obtain ⟨hl, hls⟩ := List.forall_mem_cons.1 hls
    rw [List.flatMap_cons]
    cases hitem : itemFor? s.kinds l with
    | none =>
      have hliteral := isLiteral_of_moves hmove hitem
      rw [kindsAfter_of_itemFor? hitem] at hkinds
      rw [layout_of_none hitem, ← hpos, ← hkinds] at htokens
      obtain ⟨final, hfinal, hcarries⟩ := ih hgroups hrest htokens hls
      rw [hkinds] at hcarries
      have hlits : ∀ l' ∈ [l], l'.isLiteral = true := by simpa using hliteral
      refine ⟨final, hfinal, Carries.literal hlits ?_ hcarries⟩
      rw [List.flatMap_singleton]
      exact rewrites_common hliteral hl _
    | some item =>
      rw [layout_of_some hitem, ← hpos, ← hkinds] at htokens
      obtain ⟨hcommon, htokens⟩ := List.forall_mem_cons.1 htokens
      obtain ⟨final, hfinal, hcarries⟩ := ih (forall_groupsAfter hgroups hcommon) hrest htokens hls
      rw [hkinds] at hcarries
      exact ⟨final, hfinal, Carries.token hitem (convertToken_common hitem hcommon hl)
        (opened_eq_groupsAfter groups item) hcarries⟩

theorem namedGroups_of_forall (h : ∀ name ∈ groups, name = none) : namedGroups groups = .empty := by
  have hnames : groups.reverse.filterMap id = [] :=
    List.filterMap_eq_nil_iff.2 fun name hname => h name (List.mem_reverse.1 hname)
  rw [namedGroups, hnames]
  rfl

/-- Modifiers that the target knows are kept in their order, if each of them comes once. -/
theorem convertModifiers_of_nodup {found mods : List Char} (hnodup : (found ++ mods).Nodup)
    (hmods : ∀ m ∈ mods, m ∈ keptModifiers) :
    convertModifiers found mods = .ok (found ++ mods) := by
  induction mods generalizing found with
  | nil => rw [convertModifiers, List.append_nil]
  | cons m mods ih =>
    obtain ⟨hm, hmods⟩ := List.forall_mem_cons.1 hmods
    have hnew : m ∉ found := fun hfound =>
      (List.nodup_append.1 hnodup).2.2 m hfound m (List.mem_cons_self ..) rfl
    rw [List.append_cons] at hnodup ⊢
    rw [convertModifiers, if_pos hm, if_neg hnew, ih hnodup hmods]

end Source

namespace Pattern

open Source Conversion

variable {limit : Nat} {pattern : String} {p : Pattern}

/-- Without the modifier that drops white space, a pattern is its parts put together. -/
theorem toList_of_parse (h : (parse limit pattern).outcome = .ok p)
    (hextended : 'x' ∉ p.modifiers.toList) :
    pattern.toList = p.delimiter :: p.body.toList ++ p.delimiter :: p.modifiers.toList := by
  obtain ⟨raw, mods, body, tokens, hsplit, hbody, _, hp⟩ := parse_eq_ok_iff.1 h
  have hmodifiers : p.modifiers.toList = mods := by
    rw [hp]
    exact String.toList_ofList
  have hraw : p.body.toList = raw := by
    rw [hmodifiers] at hextended
    rw [if_neg (mt List.contains_iff_mem.1 hextended)] at hbody
    rw [hp, hbody]
    exact String.toList_ofList
  rw [hmodifiers, hraw]
  exact (splitDelimiters_eq_ok_iff.1 hsplit).text

theorem isCommon_of_mem_ofBody (hparse : (parse limit pattern).outcome = .ok p)
    (hcommon : p.IsCommon) : ∀ l ∈ Lexeme.ofBody p.body.toList, l.IsCommon := by
  have hreadable := readable_of_parse hparse
  have hclosed : ∀ l ∈ Lexeme.ofBody p.body.toList, l.isClosed = true :=
    fun l hl => (hreadable l hl).closed
  refine Lexeme.isCommon_of_forall (fun l => Lexeme.exists_precedes_of_mem_ofBody) hclosed
    (fun hlone => (hreadable _ hlone).safe) ?_ ?_
  · rw [Lexeme.flatMap_text_ofBody]
    exact hcommon.categories
  · exact (Lexeme.forall_not_reference_iff hclosed).1 hcommon.references

/-- **A common pattern is converted to itself**, and no group has a name. -/
theorem convertPattern_common (hparse : (parse limit pattern).outcome = .ok p)
    (hcommon : p.IsCommon) :
    (convertPattern limit pattern).outcome = .ok ⟨pattern, .empty⟩ := by
  obtain ⟨hnodup, hmods⟩ := hcommon.modifiers
  have htokens := tokenize_of_parse hparse
  obtain ⟨s, hreads, _⟩ := tokenize_eq_ok_iff.1 htokens
  have hitems : ∀ t ∈ layout 0 [] (Lexeme.ofBody p.body.toList), t.item.IsCommon := by
    rw [← map_unlinked_of_tokenize htokens]
    rintro _ hmem
    obtain ⟨t, ht, rfl⟩ := List.mem_map.1 hmem
    exact TokenItem.isCommon_unlinkedItem.2 (hcommon.tokens t ht)
  have hnone : ∀ name ∈ ([] : Groups), name = none := by simp
  obtain ⟨final, hfinal, hcarries⟩ :=
    Carries.common hnone hreads hitems (isCommon_of_mem_ofBody hparse hcommon)
  have hconvert : (convertTokens (p.hasModifier 's') .none 0 p.body.toList p.tokens).outcome =
      .ok (p.body.toList, capturesOf final) := by
    have hdot : p.hasModifier 's' = false := by
      simpa [hasModifier] using mt (hmods 's') (by decide)
    have hwhole := hcarries 0
    rw [Lexeme.flatMap_text_ofBody] at hwhole
    rw [hdot, ← convertTokens_unlinked, map_unlinked_of_tokenize htokens]
    exact hwhole
  refine Traced.outcome_bind_eq_ok_iff.2 ⟨p, hparse, ?_⟩
  rw [convert, convertModifiers_of_nodup hnodup hmods, List.nil_append]
  refine Traced.outcome_bind_eq_ok_iff.2 ⟨_, hconvert, ?_⟩
  have hpattern := toList_of_parse hparse (mt (hmods 'x') (by decide))
  rw [hcommon.delimiter] at hpattern
  simp only [hcommon.delimiter, if_true, ← hpattern, String.ofList_toList, names_capturesOf,
    namedGroups_of_forall hfinal]
  rfl

/-- Groups of the four kinds, two bracket expressions, and what needs care in between: an escaped
    slash, a reference between brackets and one whose backslash is escaped, a closing bracket
    between brackets, and a character of two bytes. -/
def fourGroups : Pattern :=
  ⟨'/', "mi", "^(a|\\.é)+(?:[^\\]\\k.]*b\\/)?(?=c\\\\k)(?!\\d[x-z])$",
    [⟨1, 1, .groupStart (.capturing none) 1⟩, ⟨8, 2, .groupEnd .capturing 0 "+"⟩,
      ⟨10, 3, .groupStart (.nonCapturing "") 4⟩, ⟨13, 9, .characterClass "^\\]\\k." "*"⟩,
      ⟨25, 1, .groupEnd .nonCapturing 2 ""⟩,
      ⟨27, 3, .groupStart (.assertion .ahead false) 6⟩,
      ⟨34, 1, .groupEnd (.assertion .ahead false) 5 ""⟩,
      ⟨35, 3, .groupStart (.assertion .ahead true) 9⟩, ⟨40, 5, .characterClass "x-z" ""⟩,
      ⟨45, 1, .groupEnd (.assertion .ahead true) 7 ""⟩]⟩

theorem convertPattern_common_fourGroups :
    (parse 256 ("/" ++ fourGroups.body ++ "/mi")).outcome = .ok fourGroups ∧
      fourGroups.IsCommon ∧
      (convertPattern 256 ("/" ++ fourGroups.body ++ "/mi")).outcome =
        .ok ⟨"/" ++ fourGroups.body ++ "/mi", .empty⟩ := by
  have hparse : (parse 256 ("/" ++ fourGroups.body ++ "/mi")).outcome = .ok fourGroups := by
    decide +kernel
  have hclosed := fun l hl => (readable_of_parse hparse l hl).closed
  have hcommon : fourGroups.IsCommon := {
    delimiter := rfl
    modifiers := ⟨by decide +kernel, forall_mem_of_all (by decide +kernel)⟩
    tokens := by decide +kernel
    categories := by decide +kernel
    references := (Lexeme.forall_not_reference_iff hclosed).2 (by decide +kernel) }
  exact ⟨hparse, hcommon, convertPattern_common hparse hcommon⟩

end Pattern

end RegexText
