/-
  RegexText/Proofs/Chain/Branches.lean
  ====================================
  **Alternations of chains that are told apart by their heads.**

  Branches are told apart by their first characters if the heads of the chains are:
  each head matches single characters only, and no two heads match the same.  A
  chain that is just a class-safe symbol becomes a member of the one class in front,
  so no two branches are symbols or classes unless a chain is just a class and
  another one just a symbol or a class.
-/
import RegexText.Proofs.Chain.Apart
import RegexText.Proofs.Regular.Branches

namespace RegexText.Chain

open Text Regular Traced

variable {F : Fragment} {D : Dialect}

/-! ### Orderly expressions -/

/-- Are some branches told apart by their first characters, and folded? -/
def Proper (D : Dialect) (rs : List Expression) : Prop := Deterministic D rs ∧ Folded rs

/-- An expression with a single alternative, all of whose alternations are proper. -/
structure IsOrderly (F : Fragment) (D : Dialect) (r : Expression) : Prop where
  within : Within F r
  sequence : r.IsSequence
  alternations : r.EachAlternation (Proper D)

theorem IsOrderly.done : IsOrderly F D .done := ⟨trivial, trivial, trivial⟩

theorem IsOrderly.append {r s : Expression} (hr : IsOrderly F D r) (hs : IsOrderly F D s) :
    IsOrderly F D (r.append s) :=
  ⟨hr.within.append hs.within, hr.sequence.append hs.sequence,
    hr.alternations.append hs.alternations⟩

/-- Is a text a proper expression, and not the empty one? -/
def Orderly (F : Fragment) (D : Dialect) (a : String) : Prop :=
  ∃ r, IsOrderly F D r ∧ r ≠ .done ∧ r.text = a.toList

def AllOrderly (F : Fragment) (D : Dialect) (chain : Chain) : Prop := ∀ a ∈ chain, Orderly F D a

theorem Orderly.isPiece {a : String} (h : Orderly F D a) : IsPiece F a := by
  obtain ⟨r, hr, _, htext⟩ := h
  exact ⟨r, hr.within, hr.sequence, htext⟩

theorem AllOrderly.allPieces {chain : Chain} (h : AllOrderly F D chain) : AllPieces F chain :=
  fun a ha => (h a ha).isPiece

theorem exists_tree_join {chain : Chain} (h : AllOrderly F D chain) :
    ∃ r, IsOrderly F D r ∧ r.text = (join chain).toList ∧ (chain ≠ [] → r ≠ .done) := by
  induction chain with
  | nil => exact ⟨.done, .done, rfl, fun hne => absurd rfl hne⟩
  | cons a chain ih =>
    obtain ⟨⟨r, hr, hne, htext⟩, hchain⟩ := List.forall_mem_cons.1 h
    obtain ⟨s, hs, htext', _⟩ := ih hchain
    refine ⟨r.append s, hr.append hs, ?_, fun _ hdone => hne (Regex.append_eq_done_iff.1 hdone).1⟩
    rw [Regex.text_append, htext, htext', join_cons, String.toList_append]

theorem orderly_join {chain : Chain} (h : AllOrderly F D chain) (hne : chain ≠ []) :
    Orderly F D (join chain) := by
  obtain ⟨r, hr, htext, hdone⟩ := exists_tree_join h
  exact ⟨r, hr, hdone hne, htext⟩

theorem orderly_makeOptional (hF : F.Closed) {e e' : String} (he : Orderly F D e)
    (h : (makeOptional e).outcome = .ok e') : Orderly F D e' := by
  obtain ⟨r, hr, _, htext⟩ := he
  obtain ⟨s, e'', houtcome, hoptional, htext'⟩ :=
    exists_makesOptional (hr.within.wellFormed hF).sound (ne_bar_of_isSequence hr.sequence) htext
  cases houtcome.symm.trans h
  refine ⟨s, ⟨hoptional.within hF hr.within, hoptional.isSequence,
    hoptional.eachAlternation hr.sequence hr.alternations⟩, ?_, htext'⟩
  cases hoptional <;> exact nofun

theorem orderly_characterClass (hF : F.Closed) {symbols : List String}
    (hsafe : ∀ x ∈ symbols, Symbol.isClassSafe x = true ∧ Orderly F D x) {a b : String}
    (ha : a ∈ symbols) (hb : b ∈ symbols) (hab : a ≠ b) :
    Orderly F D (Symbol.characterClass symbols) := by
  obtain ⟨content, _, hwithin, htext, _⟩ :=
    exists_classTree hF (fun x hx => ⟨(hsafe x hx).1, (hsafe x hx).2.isPiece⟩) ha hb hab
  exact ⟨_, ⟨hwithin, trivial, trivial⟩, nofun, htext⟩

/-! ### Symbols and classes -/

/-- Is a text just a class-safe symbol, or just a bracket expression? -/
def SymbolOrClass (a : String) : Prop := ∃ r, read a.toList = some r ∧ IsSymbolOrClass r

theorem symbolOrClass_iff (hF : F.Closed) {r : Expression} (hr : Within F r) {a : String}
    (htext : r.text = a.toList) : SymbolOrClass a ↔ IsSymbolOrClass r := by
  have hread : read a.toList = some r := read_eq_some_iff.2 ⟨hr.wellFormed hF, htext⟩
  simp only [SymbolOrClass, hread, Option.some.injEq, exists_eq_left']

/-- A symbol or a class is one unit. -/
theorem exists_unit_of_isSymbolOrClass {r : Expression} (hr : WellFormed r)
    (hseq : r.IsSequence) (h : IsSymbolOrClass r) : ∃ u, r = .unit u none .done := by
  rcases h with hsafe | ⟨content, rfl⟩
  · obtain ⟨u, _, hu, _⟩ := Symbol.exists_member?_of_isClassSafe hsafe hr
      (ne_bar_of_isSequence hseq) String.toList_ofList.symm
    exact ⟨u, hu⟩
  · exact ⟨_, rfl⟩

theorem Orderly.symbolOrClass (hF : F.Closed) {a : String} (h : Orderly F D a)
    (hsafe : Symbol.isClassSafe a = true) : SymbolOrClass a := by
  obtain ⟨r, hr, _, htext⟩ := h
  refine (symbolOrClass_iff hF hr.within htext).2 (.inl ?_)
  rwa [htext, String.ofList_toList]

/-- Several atoms are more than a symbol or a class. -/
theorem exists_eq_singleton_of_symbolOrClass (hF : F.Closed) {chain : Chain}
    (h : AllOrderly F D chain) (hne : chain ≠ []) (hjoin : SymbolOrClass (join chain)) :
    ∃ x, chain = [x] ∧ SymbolOrClass x := by
  match chain with
  | [] => exact absurd rfl hne
  | [x] => exact ⟨x, rfl, by simpa [join] using hjoin⟩
  | a :: b :: later =>
    obtain ⟨⟨r, hr, hrdone, htext⟩, hlater⟩ := List.forall_mem_cons.1 h
    obtain ⟨s, hs, htext', hsdone⟩ := exists_tree_join hlater
    have hboth : (r.append s).text = (join (a :: b :: later)).toList := by
      rw [Regex.text_append, htext, htext', join_cons a, String.toList_append]
    have happend := hr.append hs
    obtain ⟨u, hu⟩ := exists_unit_of_isSymbolOrClass (happend.within.wellFormed hF)
      happend.sequence ((symbolOrClass_iff hF happend.within hboth).1 hjoin)
    have hsdone := hsdone (List.cons_ne_nil _ _)
    cases r with
    | done => exact absurd rfl hrdone
    | unit u' q next =>
      simp only [Regex.append, Regex.unit.injEq, Regex.append_eq_done_iff] at hu
      exact absurd hu.2.2.2 hsdone
    | group g body q next => cases hu
    | bar next => cases hu

/-! ### Branches -/

/-- Does the first character of a text tell whether it is the one or the other, and is one of
    them more than a symbol or a class? -/
def Discerned (D : Dialect) (a b : String) : Prop :=
  (∀ c w w', c :: w ∈ atomLanguage D a → c :: w' ∉ atomLanguage D b) ∧
    ¬ (SymbolOrClass a ∧ SymbolOrClass b)

/-- Non-empty chains whose heads match single characters, each of them different ones.  If a
    chain is just a class, no other one is just a symbol or a class. -/
structure Ready (F : Fragment) (D : Dialect) (chains : List Chain) : Prop where
  nodup : chains.Nodup
  nonempty : ∀ chain ∈ chains, chain ≠ []
  orderly : ∀ chain ∈ chains, AllOrderly F D chain
  single : ∀ chain ∈ chains, ∀ w ∈ headLanguage D chain, ∃ c, w = [c]
  apart : ∀ a ∈ chains, ∀ b ∈ chains, a ≠ b → HeadsApart D a b
  folded : ∀ x y, [x] ∈ chains → [y] ∈ chains → x ≠ y → SymbolOrClass x → SymbolOrClass y →
    Symbol.isClassSafe x = true

theorem cases_of_mem_classBranch {symbols : List String} {b : String}
    (h : b ∈ classBranch symbols) : b ∈ symbols ∨ ∃ x ∈ symbols, ∃ y ∈ symbols, x ≠ y ∧
      b = Symbol.characterClass (sortDistinct symbols) := by
  have hmem : ∀ {x}, x ∈ sortDistinct symbols → x ∈ symbols := fun hx => mem_sortDistinct.1 hx
  have hnodup := nodup_sortDistinct symbols
  unfold classBranch at h
  split at h
  · cases h
  · rename_i x hx
    rw [hx] at hmem
    rw [List.mem_singleton.1 h]
    exact .inl (hmem (List.mem_singleton_self x))
  · rename_i members hnil hsingle
    rw [List.mem_singleton.1 h]
    clear h
    cases hmembers : sortDistinct symbols with
    | nil => exact absurd hmembers hnil
    | cons a later =>
      cases later with
      | nil => exact absurd hmembers (hsingle a)
      | cons c later =>
        rw [hmembers] at hmem hnodup
        refine .inr ⟨a, hmem (List.mem_cons_self ..), c,
          hmem (List.mem_cons_of_mem _ (List.mem_cons_self ..)), ?_, rfl⟩
        rintro rfl
        exact (List.nodup_cons.1 hnodup).1 (List.mem_cons_self ..)

namespace Ready

variable {chains : List Chain}

theorem orderly_symbols (h : Ready F D chains) :
    ∀ x ∈ classSymbols chains, Symbol.isClassSafe x = true ∧ Orderly F D x := by
  intro x hx
  obtain ⟨hchain, hsafe⟩ := mem_classSymbols.1 hx
  exact ⟨hsafe, h.orderly [x] hchain x (List.mem_singleton_self x)⟩

theorem orderly_branches (hF : F.Closed) (h : Ready F D chains) :
    ∀ b ∈ branches chains, Orderly F D b := by
  intro b hb
  rcases List.mem_append.1 hb with hclass | hplain
  · rcases cases_of_mem_classBranch hclass with hx | ⟨x, hx, y, hy, hxy, rfl⟩
    · exact (h.orderly_symbols b hx).2
    · exact orderly_characterClass hF (fun z hz => h.orderly_symbols z (mem_sortDistinct.1 hz))
        (mem_sortDistinct.2 hx) (mem_sortDistinct.2 hy) hxy
  · obtain ⟨chain, hchain, hne, _, rfl⟩ := mem_plainBranches.1 hplain
    exact orderly_join (h.orderly chain hchain) hne

/-- Each branch comes from chains: the class from those that are just a symbol, any other one
    from a chain that is not. -/
theorem mem_language_of_mem_classBranch (hF : F.Closed) (h : Ready F D chains) {b : String}
    (hb : b ∈ classBranch (classSymbols chains)) {w : List Char} (hw : w ∈ atomLanguage D b) :
    ∃ x, [x] ∈ chains ∧ Symbol.isClassSafe x = true ∧ w ∈ language D [x] := by
  have hpieces : ∀ x ∈ classSymbols chains, Symbol.isClassSafe x = true ∧ IsPiece F x :=
    fun x hx => ⟨(h.orderly_symbols x hx).1, (h.orderly_symbols x hx).2.isPiece⟩
  obtain ⟨x, hx, hwx⟩ := ((classBranch_spec (D := D) hF hpieces).2 w).1 ⟨b, hb, hw⟩
  obtain ⟨hchain, hsafe⟩ := mem_classSymbols.1 hx
  exact ⟨x, hchain, hsafe, by simpa using hwx⟩

/-- What a chain matches begins with the character that its head matches. -/
theorem exists_eq_cons (h : Ready F D chains) {chain : Chain} (hchain : chain ∈ chains)
    {w : List Char} (hw : w ∈ language D chain) :
    ∃ c later, w = c :: later ∧ [c] ∈ headLanguage D chain := by
  obtain ⟨head, rest, rfl⟩ := List.exists_cons_of_ne_nil (h.nonempty chain hchain)
  rw [language_cons] at hw
  obtain ⟨a, ha, b, _, rfl⟩ := Language.mem_mul.1 hw
  obtain ⟨c, rfl⟩ := h.single _ hchain a (mem_headLanguage_cons.2 ha)
  exact ⟨c, b, rfl, mem_headLanguage_cons.2 ha⟩

/-- Two chains match no texts that begin alike. -/
theorem notMem_language (h : Ready F D chains) {a b : Chain} (ha : a ∈ chains) (hb : b ∈ chains)
    (hab : a ≠ b) {c : Char} {w w' : List Char} (hw : c :: w ∈ language D a) :
    c :: w' ∉ language D b := by
  intro hw'
  obtain ⟨d, _, heq, hd⟩ := h.exists_eq_cons ha hw
  obtain ⟨d', _, heq', hd'⟩ := h.exists_eq_cons hb hw'
  cases heq
  cases heq'
  exact h.apart a ha b hb hab _ hd hd'

theorem nil_notMem_branch (hF : F.Closed) (h : Ready F D chains) :
    ∀ b ∈ branches chains, [] ∉ atomLanguage D b := by
  have hpieces : ∀ chain ∈ chains, AllPieces F chain :=
    fun chain hchain => (h.orderly chain hchain).allPieces
  intro b hb hnil
  obtain ⟨chain, hchain, _, hw⟩ := ((branches_spec (D := D) hF hpieces).2 []).1 ⟨b, hb, hnil⟩
  obtain ⟨c, later, heq, _⟩ := h.exists_eq_cons hchain hw
  cases heq

theorem discerned_plain (hF : F.Closed) (h : Ready F D chains) {a b : Chain} (ha : a ∈ chains)
    (hb : b ∈ chains) (hab : a ≠ b) (hsymbol : ¬ IsSymbol a) :
    Discerned D (join a) (join b) := by
  refine ⟨fun c w w' hw hw' => ?_, ?_⟩
  · rw [(join_spec hF (h.orderly a ha).allPieces).2] at hw
    rw [(join_spec hF (h.orderly b hb).allPieces).2] at hw'
    exact h.notMem_language ha hb hab hw hw'
  · rintro ⟨hja, hjb⟩
    obtain ⟨x, rfl, hx⟩ :=
      exists_eq_singleton_of_symbolOrClass hF (h.orderly a ha) (h.nonempty a ha) hja
    obtain ⟨y, rfl, hy⟩ :=
      exists_eq_singleton_of_symbolOrClass hF (h.orderly b hb) (h.nonempty b hb) hjb
    have hxy : x ≠ y := fun heq => hab (by rw [heq])
    exact hsymbol ⟨x, rfl, h.folded x y ha hb hxy hx hy⟩

theorem discerned_classBranch (hF : F.Closed) (h : Ready F D chains) {a : String}
    (ha : a ∈ classBranch (classSymbols chains)) {b : Chain} (hb : b ∈ chains)
    (hsymbol : ¬ IsSymbol b) : Discerned D a (join b) := by
  refine ⟨fun c w w' hw hw' => ?_, ?_⟩
  · obtain ⟨x, hx, hsafe, hwx⟩ := h.mem_language_of_mem_classBranch hF ha hw
    rw [(join_spec hF (h.orderly b hb).allPieces).2] at hw'
    refine h.notMem_language hx hb ?_ hwx hw'
    rintro rfl
    exact hsymbol ⟨x, rfl, hsafe⟩
  · rintro ⟨_, hjb⟩
    obtain ⟨y, rfl, hy⟩ :=
      exists_eq_singleton_of_symbolOrClass hF (h.orderly b hb) (h.nonempty b hb) hjb
    obtain ⟨x, hx⟩ : ∃ x, x ∈ classSymbols chains := by
      rcases cases_of_mem_classBranch ha with hx | ⟨x, hx, _⟩
      · exact ⟨a, hx⟩
      · exact ⟨x, hx⟩
    obtain ⟨hchain, hsafe⟩ := mem_classSymbols.1 hx
    have hyx : y ≠ x := by
      rintro rfl
      exact hsymbol ⟨y, rfl, hsafe⟩
    have hx' := (h.orderly_symbols x hx).2.symbolOrClass hF hsafe
    exact hsymbol ⟨y, rfl, h.folded y x hb hchain hyx hy hx'⟩

theorem pairwise_branches (hF : F.Closed) (h : Ready F D chains) :
    (branches chains).Pairwise (Discerned D) := by
  have hclass : (classBranch (classSymbols chains)).Pairwise (Discerned D) := by
    unfold classBranch
    split
    · exact .nil
    · exact List.pairwise_singleton _ _
    · exact List.pairwise_singleton _ _
  have hplain : (plainBranches chains).Pairwise (Discerned D) := by
    refine (List.Pairwise.and_mem.1 h.nodup).filterMap _ ?_
    rintro a a' ⟨ha, ha', hne⟩ b hb b' hb'
    have hbranch : ∀ {chain : Chain} {b : String}, b ∈ plainBranches [chain] →
        ¬ IsSymbol chain ∧ join chain = b := by
      intro chain b hb
      obtain ⟨_, hchain, _, hsymbol, hjoin⟩ := mem_plainBranches.1 hb
      rw [List.mem_singleton.1 hchain] at hsymbol hjoin
      exact ⟨hsymbol, hjoin⟩
    obtain ⟨hsymbol, rfl⟩ := hbranch (List.mem_filterMap.2 ⟨a, List.mem_singleton_self a, hb⟩)
    obtain ⟨_, rfl⟩ := hbranch (List.mem_filterMap.2 ⟨a', List.mem_singleton_self a', hb'⟩)
    exact h.discerned_plain hF ha ha' hne hsymbol
  refine List.pairwise_append.2 ⟨hclass, hplain, fun a ha b hb => ?_⟩
  obtain ⟨chain, hchain, _, hsymbol, rfl⟩ := mem_plainBranches.1 hb
  exact h.discerned_classBranch hF ha hchain hsymbol

end Ready

/-- One chain needs no alternation. -/
theorem outcome_alternation_singleton (chain : Chain) :
    (alternation [chain] false).outcome = .ok (join chain) := by
  match chain with
  | [] => rfl
  | [x] =>
    have hone : sortDistinct [x].eraseDups = [x] := rfl
    have hnone : sortDistinct [] = [] := rfl
    by_cases hsafe : Symbol.isClassSafe x = true
    · simp [alternation, branches, classSymbols, plainBranches, classBranch, hsafe, hone, join]
    · simp [alternation, branches, classSymbols, plainBranches, classBranch, hsafe, hnone, join]
  | a :: b :: later => rfl

/-- The trees of texts that are discerned are proper branches. -/
theorem proper_of_pairwise (hF : F.Closed) {rs : List Expression} {texts : List String}
    (htexts : rs.map Regex.text = texts.map String.toList) (hrs : ∀ r ∈ rs, Within F r)
    (hnil : ∀ b ∈ texts, [] ∉ atomLanguage D b) (h : texts.Pairwise (Discerned D)) :
    Proper D rs := by
  have htree : ∀ r ∈ rs, atomLanguage D (String.ofList r.text) = Regular.language D r ∧
      (SymbolOrClass (String.ofList r.text) ↔ IsSymbolOrClass r) := fun r hr =>
    ⟨atomLanguage_eq hF (hrs r hr) String.toList_ofList.symm,
      symbolOrClass_iff hF (hrs r hr) String.toList_ofList.symm⟩
  have hpairwise : rs.Pairwise fun r s =>
      (∀ c w w', c :: w ∈ Regular.language D r → c :: w' ∉ Regular.language D s) ∧
        ¬ (IsSymbolOrClass r ∧ IsSymbolOrClass s) := by
    have hlists : (rs.map Regex.text).Pairwise fun cs ds =>
        Discerned D (String.ofList cs) (String.ofList ds) := by
      rw [htexts]
      exact List.pairwise_map.2 (by simpa only [String.ofList_toList] using h)
    refine (List.Pairwise.and_mem.1 (List.pairwise_map.1 hlists)).imp ?_
    rintro r s ⟨hr, hs, hdiscerned⟩
    simpa only [Discerned, htree r hr, htree s hs] using hdiscerned
  refine ⟨⟨fun r hr => ?_, hpairwise.imp And.left⟩, hpairwise.imp And.right⟩
  obtain ⟨b, hb, hbtext⟩ := List.mem_map.1 (htexts ▸ List.mem_map_of_mem hr :
    r.text ∈ texts.map String.toList)
  rw [← atomLanguage_eq hF (hrs r hr) hbtext.symm]
  exact hnil b hb

/-- **An alternation of such chains is orderly**, and so are all those inside it. -/
theorem orderly_alternation (hF : F.Closed) {chains : List Chain} (h : Ready F D chains)
    (hne : chains ≠ []) {optional : Bool} {e : String}
    (he : (alternation chains optional).outcome = .ok e) : Orderly F D e := by
  have hbranches := h.orderly_branches hF
  have hfinished : ∀ {branch}, Orderly F D branch →
      (if optional || chains.any List.isEmpty then makeOptional branch
        else (pure branch : Traced String)).outcome = .ok e → Orderly F D e := by
    intro branch hbranch he
    split at he
    · exact orderly_makeOptional hF hbranch he
    · cases he
      exact hbranch
  unfold alternation at he
  split at he
  · rename_i hnil
    obtain ⟨chain, hchain⟩ := List.exists_mem_of_ne_nil chains hne
    exact absurd hnil (branches_ne_nil hchain (h.nonempty chain hchain))
  · rename_i branch hbranch
    exact hfinished (hbranches branch (hbranch ▸ List.mem_singleton_self branch)) he
  · rename_i several hnil hsingle
    refine hfinished ?_ he
    obtain ⟨rs, htexts, hrs⟩ := exists_trees_of fun b hb => by
      obtain ⟨r, hr, _, htext⟩ := hbranches b hb
      exact ⟨r, hr, htext⟩
    have hrsne : rs ≠ [] := by
      rintro rfl
      exact hnil (List.map_eq_nil_iff.1 htexts.symm)
    have hbody := Regex.branches_alternatives hrsne fun r hr => (hrs r hr).sequence
    refine ⟨.group .nonCapturing (Regex.alternatives rs) none .done, ⟨?_, trivial, ?_⟩, nofun, ?_⟩
    · exact ⟨hF.wrap, Regex.all_alternatives fun r hr => (hrs r hr).within, trivial⟩
    · refine ⟨fun _ => ?_, .alternatives fun r hr => (hrs r hr).alternations, trivial⟩
      rw [hbody]
      exact proper_of_pairwise hF htexts (fun r hr => (hrs r hr).within)
        (h.nil_notMem_branch hF) (h.pairwise_branches hF)
    · simp [Regex.text, Marks.opening, Mark.opening, Regex.text_alternatives, htexts,
        Quantifier.text]

end RegexText.Chain
