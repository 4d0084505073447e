/-
  RegexText/Proofs/Regular/Symbols.lean
  =====================================
  **A class of symbols matches what one of its symbols matches.**

  The members of a class are the symbols as they are, apart from those of the
  list `literalInClass`, which lose their backslash and go to the end.  What is
  left to show is that none of them is misread there: no caret comes first, no
  hyphen between two others, and no opening bracket before a character that would
  make it the opening of a POSIX class.
-/
import Mathlib.Data.List.Permutation
import RegexText.Proofs.Regular.Optional
import RegexText.Proofs.Text.Distinct
import RegexText.Symbol

namespace RegexText

open Text

namespace Symbol

open Regular

/-- The member of a bracket expression that a text is, if it is one. -/
def member? (symbol : String) : Option Member :=
  match symbol.toList with
  | [c] => if c = '\\' ∨ c = ']' then none else some (.ofChar c)
  | ['\\', c] => Member.ofEscape? c
  | _ => none

/-- The symbol `\c`. -/
def escaped (c : Char) : String := String.ofList ['\\', c]

/-! ### The members of a class -/

theorem escaped_inj {c d : Char} : escaped c = escaped d ↔ c = d := by
  simp [escaped]

theorem escaped_ne_singleton (c d : Char) : escaped c ≠ String.singleton d := by
  intro h
  have hlist := congrArg String.toList h
  simp [escaped] at hlist

theorem perm_hyphenFirst (members : List String) : (hyphenFirst members).Perm members := by
  unfold hyphenFirst
  split
  · rename_i hhyphen
    exact (List.perm_cons_erase hhyphen).symm
  · rfl

theorem mem_hyphenFirst {x : String} {members : List String} :
    x ∈ hyphenFirst members ↔ x ∈ members :=
  (perm_hyphenFirst members).mem_iff

theorem nodup_hyphenFirst {members : List String} (h : members.Nodup) :
    (hyphenFirst members).Nodup :=
  (perm_hyphenFirst members).nodup_iff.2 h

/-- What occurs once at most is erased as it is filtered out. -/
theorem erase_eq_filter_of_count_le {x : String} {members : List String}
    (h : members.count x ≤ 1) : members.erase x = members.filter (· != x) := by
  induction members with
  | nil => rfl
  | cons y members ih =>
    by_cases hy : y = x
    · subst hy
      have hnone : y ∉ members := by
        rw [List.count_cons_self] at h
        exact List.count_eq_zero.1 (by omega)
      rw [List.erase_cons_head, List.filter_cons_of_neg (by simp), eq_comm, List.filter_eq_self]
      intro z hz
      simpa using ne_of_mem_of_not_mem hz hnone
    · rw [List.count_cons_of_ne hy] at h
      rw [List.erase_cons_tail (by simpa using hy), List.filter_cons_of_pos (by simpa using hy),
        ih h]

/-- Taking backslashes away moves the members that have them to the end, in the order of
    their characters. -/
theorem foldl_unescapeMember {cs : List Char} (hcs : cs.Nodup) {members : List String}
    (h : ∀ c ∈ cs, members.count (escaped c) ≤ 1) :
    cs.foldl unescapeMember members =
      members.filter (fun x => x ∉ cs.map escaped) ++
        (cs.filter fun c => escaped c ∈ members).map String.singleton := by
  induction cs generalizing members with
  | nil => simp
  | cons c cs ih =>
    obtain ⟨hc, hcs⟩ := List.nodup_cons.1 hcs
    obtain ⟨hcount, h⟩ := List.forall_mem_cons.1 h
    rw [List.foldl_cons]
    by_cases hmem : escaped c ∈ members
    · have hstep : unescapeMember members c =
          members.filter (· != escaped c) ++ [String.singleton c] := by
        rw [← erase_eq_filter_of_count_le hcount]
        exact if_pos hmem
      have hfront : (unescapeMember members c).filter (fun x => x ∉ cs.map escaped) =
          members.filter (fun x => x ∉ (c :: cs).map escaped) ++ [String.singleton c] := by
        have hkeep : String.singleton c ∉ cs.map escaped := by
          intro hin
          obtain ⟨d, _, hd⟩ := List.mem_map.1 hin
          exact escaped_ne_singleton d c hd
        rw [hstep, List.filter_append, List.filter_filter,
          List.filter_cons_of_pos (by simpa using hkeep), List.filter_nil]
        congr 1
        apply List.filter_congr
        intro x _
        by_cases hx : x = escaped c
        · simp [hx]
        · simp [hx]
      have hback : (cs.filter fun d => escaped d ∈ unescapeMember members c) =
          cs.filter fun d => escaped d ∈ members := by
        apply List.filter_congr
        intro d hd
        have hne : d ≠ c := fun hdc => hc (hdc ▸ hd)
        simp [hstep, escaped_inj, hne, escaped_ne_singleton]
      rw [ih hcs]
      · rw [hfront, hback, List.filter_cons_of_pos (a := c) (by simpa using hmem)]
        simp
      · intro d hd
        have hlast : [String.singleton c].count (escaped d) = 0 := by
          rw [List.count_eq_zero, List.mem_singleton]
          exact escaped_ne_singleton d c
        rw [hstep, List.count_append, hlast]
        exact (List.filter_sublist.count_le _).trans (h d hd)
    · have hstep : unescapeMember members c = members := if_neg hmem
      rw [hstep, ih hcs h, List.filter_cons_of_neg (by simpa using hmem)]
      congr 1
      apply List.filter_congr
      intro x hx
      have hne : x ≠ escaped c := fun hxc => hmem (hxc ▸ hx)
      simp [hne]

theorem nodup_literalInClass : literalInClass.Nodup := by decide

/-- The members of a class that keep their spelling. -/
def keptMembers (symbols : List String) : List String :=
  (hyphenFirst symbols.eraseDups).filter fun x => x ∉ literalInClass.map escaped

/-- The characters of the members of a class that lose their backslash. -/
def bareMembers (symbols : List String) : List Char :=
  literalInClass.filter fun c => escaped c ∈ symbols

theorem classMembers_eq (symbols : List String) :
    classMembers symbols = keptMembers symbols ++ (bareMembers symbols).map String.singleton := by
  have hmem : ∀ x, x ∈ hyphenFirst symbols.eraseDups ↔ x ∈ symbols := by
    intro x
    rw [mem_hyphenFirst, List.mem_eraseDups]
  rw [classMembers, foldl_unescapeMember nodup_literalInClass fun c _ =>
    List.nodup_iff_count_le_one.1 (nodup_hyphenFirst (nodup_eraseDups symbols)) _]
  simp only [hmem]
  rfl

theorem mem_keptMembers {symbols : List String} {x : String} :
    x ∈ keptMembers symbols ↔ x ∈ symbols ∧ x ∉ literalInClass.map escaped := by
  simp [keptMembers, mem_hyphenFirst, List.mem_eraseDups]

theorem mem_bareMembers {symbols : List String} {c : Char} :
    c ∈ bareMembers symbols ↔ c ∈ literalInClass ∧ escaped c ∈ symbols := by
  simp [bareMembers]

/-- No member that keeps its spelling is a hyphen, apart from the first one. -/
theorem ne_hyphen_of_mem_tail {symbols : List String} {x : String}
    (h : x ∈ (keptMembers symbols).tail) : x ≠ "-" := by
  unfold keptMembers hyphenFirst at h
  split at h
  · rw [List.filter_cons_of_pos (by decide), List.tail_cons] at h
    exact ((nodup_eraseDups symbols).mem_erase_iff.1 (List.mem_filter.1 h).1).1
  · rename_i hhyphen
    rintro rfl
    exact hhyphen (List.mem_filter.1 (List.mem_of_mem_tail h)).1

/-! ### Classes of two symbols -/

/-- What a symbol is as a member of a class: those of the list lose their backslash. -/
def bare (x : String) : String :=
  if x ∈ literalInClass.map escaped then String.ofList x.toList.tail else x

theorem bare_escaped {c : Char} (hc : c ∈ literalInClass) :
    bare (escaped c) = String.singleton c := by
  rw [bare, if_pos (List.mem_map_of_mem hc)]
  exact String.toList_injective (by simp [escaped])

theorem bare_of_not_mem {x : String} (hx : x ∉ literalInClass.map escaped) : bare x = x := if_neg hx

theorem bare_eq_singleton {x : String} {c : Char} :
    bare x = String.singleton c ↔ x = String.singleton c ∨ x = escaped c ∧ c ∈ literalInClass := by
  by_cases hx : x ∈ literalInClass.map escaped
  · obtain ⟨d, hd, rfl⟩ := List.mem_map.1 hx
    rw [bare_escaped hd, String.singleton_inj, or_iff_right (escaped_ne_singleton d c), escaped_inj]
    exact ⟨fun h => ⟨h, h ▸ hd⟩, fun h => h.1⟩
  · rw [bare_of_not_mem hx, or_iff_left]
    rintro ⟨rfl, hc⟩
    exact hx (List.mem_map_of_mem hc)

theorem bare_eq_escaped {x : String} {c : Char} :
    bare x = escaped c ↔ x = escaped c ∧ c ∉ literalInClass := by
  by_cases hx : x ∈ literalInClass.map escaped
  · obtain ⟨d, hd, rfl⟩ := List.mem_map.1 hx
    rw [bare_escaped hd, escaped_inj]
    refine iff_of_false (escaped_ne_singleton c d).symm ?_
    rintro ⟨rfl, hc⟩
    exact hc hd
  · rw [bare_of_not_mem hx]
    refine ⟨?_, fun h => h.1⟩
    rintro rfl
    exact ⟨rfl, fun hc => hx (List.mem_map_of_mem hc)⟩

/-- The members of a class are its symbols, each once. -/
theorem perm_classMembers (symbols : List String) :
    (classMembers symbols).Perm (symbols.eraseDups.map bare) := by
  have hkept : (keptMembers symbols).Perm
      ((symbols.eraseDups.filter fun x => x ∉ literalInClass.map escaped).map bare) := by
    have hsame : (symbols.eraseDups.filter fun x => x ∉ literalInClass.map escaped).map bare =
        symbols.eraseDups.filter fun x => x ∉ literalInClass.map escaped :=
      (List.map_congr_left fun x hx =>
        bare_of_not_mem (by simpa using (List.mem_filter.1 hx).2)).trans (List.map_id _)
    rw [hsame]
    exact (perm_hyphenFirst _).filter _
  have hbare : ((bareMembers symbols).map escaped).Perm
      (symbols.eraseDups.filter fun x => !decide (x ∉ literalInClass.map escaped)) := by
    have hnodup : ((bareMembers symbols).map escaped).Nodup :=
      (nodup_literalInClass.filter _).map fun _ _ => escaped_inj.1
    refine (List.perm_ext_iff_of_nodup hnodup ((nodup_eraseDups symbols).filter _)).2 fun x => ?_
    simp only [List.mem_map, mem_bareMembers, List.mem_filter, List.mem_eraseDups,
      Bool.not_eq_true', decide_eq_false_iff_not, not_not]
    constructor
    · rintro ⟨c, ⟨hc, hmem⟩, rfl⟩
      exact ⟨hmem, c, hc, rfl⟩
    · rintro ⟨hmem, c, hc, rfl⟩
      exact ⟨c, ⟨hc, hmem⟩, rfl⟩
  have hsingle : (bareMembers symbols).map String.singleton =
      ((bareMembers symbols).map escaped).map bare := by
    rw [List.map_map]
    exact List.map_congr_left fun c hc => (bare_escaped (mem_bareMembers.1 hc).1).symm
  rw [classMembers_eq, hsingle]
  refine (hkept.append (hbare.map bare)).trans ?_
  rw [← List.map_append]
  exact (List.filter_append_perm _ _).map bare

/-- Two symbols change places in their class only if a hyphen has to come to the front or one
    without its backslash to the end. -/
theorem classMembers_pair {s t : String} (hst : s ≠ t) :
    classMembers [s, t] = [bare s, bare t] ∨
      classMembers [s, t] = [bare t, bare s] ∧ (t = "-" ∨ s ∈ literalInClass.map escaped) := by
  have hdups : [s, t].eraseDups = [s, t] := by simp [List.eraseDups_cons, hst.symm]
  have hperm := perm_classMembers [s, t]
  rw [hdups, List.map_cons, List.map_singleton] at hperm
  by_cases hlast : t = "-" ∨ s ∈ literalInClass.map escaped
  · exact (List.perm_pair.1 hperm).imp_right fun h => ⟨h, hlast⟩
  · obtain ⟨hhyphen, hs⟩ := not_or.1 hlast
    have hfirst : hyphenFirst [s, t] = [s, t] := by
      unfold hyphenFirst
      split
      · rename_i hmem
        obtain rfl : "-" = s := by simpa [Ne.symm hhyphen] using hmem
        rfl
      · rfl
    refine .inl ?_
    rw [bare_of_not_mem hs] at hperm ⊢
    rw [classMembers_eq, keptMembers, hdups, hfirst, List.filter_cons_of_pos (by simpa using hs),
      List.cons_append] at hperm ⊢
    rw [List.perm_singleton.1 hperm.cons_inv]

/-! ### Reading the members -/

theorem cases_of_member? {x : String} {m : Member} (h : member? x = some m) :
    (∃ c, x = String.singleton c ∧ c ≠ '\\' ∧ c ≠ ']' ∧ m = .ofChar c) ∨
      ∃ c, x = escaped c ∧ Member.ofEscape? c = some m := by
  unfold member? at h
  split at h
  · rename_i c hx
    split_ifs at h with hc
    cases h
    simp only [not_or] at hc
    exact .inl ⟨c, String.toList_injective (by simp [hx]), hc.1, hc.2, rfl⟩
  · rename_i c hx
    exact .inr ⟨c, String.toList_injective (by simp [hx, escaped]), h⟩
  · cases h

theorem eq_hyphen_of_member? {x : String} (h : member? x = some .hyphen) : x = "-" := by
  rcases cases_of_member? h with ⟨c, rfl, _, _, hm⟩ | ⟨c, _, hm⟩
  · have hc : c = '-' := by
      by_contra hne
      simp [Member.ofChar, hne] at hm
    rw [hc]
    rfl
  · unfold Member.ofEscape? at hm
    split_ifs at hm
    · cases hm
    · simp at hm

/-- Texts of members make up a text of members, if no bracket among them opens a POSIX
    class. -/
theorem members?_flatMap {texts : List String} (h : ∀ x ∈ texts, (member? x).isSome = true)
    (hposix : texts.Pairwise fun x y => x = "[" → y ≠ ":" ∧ y ≠ "." ∧ y ≠ "=") :
    members? (texts.flatMap String.toList) = some (texts.filterMap member?) := by
  induction texts with
  | nil => rfl
  | cons x texts ih =>
    obtain ⟨hx, htexts⟩ := List.forall_mem_cons.1 h
    obtain ⟨hfirst, hrest⟩ := List.pairwise_cons.1 hposix
    obtain ⟨m, hm⟩ := Option.isSome_iff_exists.1 hx
    have hlater := ih htexts hrest
    rw [List.flatMap_cons, List.filterMap_cons_some hm]
    rcases cases_of_member? hm with ⟨c, rfl, hslash, hclose, rfl⟩ | ⟨c, rfl, hescape⟩
    · rw [String.toList_singleton, List.cons_append, List.nil_append,
        members?_char ⟨hslash, hclose⟩, hlater]
      · rfl
      · -- what comes next is a symbol of its own, and not a sign of a POSIX class
        rintro rfl
        cases texts with
        | nil => rfl
        | cons y later =>
          obtain ⟨n, hn⟩ := Option.isSome_iff_exists.1 (htexts y (List.mem_cons_self ..))
          obtain ⟨hcolon, hdot, hequals⟩ := hfirst y (List.mem_cons_self ..) rfl
          rcases cases_of_member? hn with ⟨d, rfl, _, _, _⟩ | ⟨d, rfl, _⟩
          · have hd : d ≠ ':' ∧ d ≠ '.' ∧ d ≠ '=' := by
              refine ⟨?_, ?_, ?_⟩
              · rintro rfl
                exact hcolon rfl
              · rintro rfl
                exact hdot rfl
              · rintro rfl
                exact hequals rfl
            simp [opensPosix, hd]
          · simp [opensPosix, escaped]
    · rw [escaped, String.toList_ofList, List.cons_append, List.cons_append, List.nil_append,
        members?_escape hescape, hlater]
      rfl

/-! ### The set that a class denotes -/

section Read

variable {α : Type} {read : String → Option α} {symbols : List String}

/-- The members of a class can be read if the symbols can. -/
theorem isSome_of_mem_classMembers
    (hsame : ∀ c ∈ literalInClass, read (escaped c) = read (String.singleton c))
    (h : ∀ x ∈ symbols, (read x).isSome = true) :
    ∀ x ∈ classMembers symbols, (read x).isSome = true := by
  intro x hx
  rw [classMembers_eq] at hx
  rcases List.mem_append.1 hx with hkept | hin
  · exact h x (mem_keptMembers.1 hkept).1
  · obtain ⟨c, hc, rfl⟩ := List.mem_map.1 hin
    obtain ⟨hliteral, hescaped⟩ := mem_bareMembers.1 hc
    rw [← hsame c hliteral]
    exact h _ hescaped

/-- The members of a class stand for what the symbols stand for. -/
theorem mem_filterMap_classMembers
    (hsame : ∀ c ∈ literalInClass, read (escaped c) = read (String.singleton c)) {m : α} :
    m ∈ (classMembers symbols).filterMap read ↔ ∃ x ∈ symbols, read x = some m := by
  rw [List.mem_filterMap, classMembers_eq]
  constructor
  · rintro ⟨x, hx, hm⟩
    rcases List.mem_append.1 hx with hkept | hin
    · exact ⟨x, (mem_keptMembers.1 hkept).1, hm⟩
    · obtain ⟨c, hc, rfl⟩ := List.mem_map.1 hin
      obtain ⟨hliteral, hescaped⟩ := mem_bareMembers.1 hc
      exact ⟨escaped c, hescaped, (hsame c hliteral).trans hm⟩
  · rintro ⟨x, hx, hm⟩
    by_cases hliteral : x ∈ literalInClass.map escaped
    · obtain ⟨c, hc, rfl⟩ := List.mem_map.1 hliteral
      exact ⟨String.singleton c, List.mem_append_right _
        (List.mem_map_of_mem (mem_bareMembers.2 ⟨hc, hx⟩)), (hsame c hc).symm.trans hm⟩
    · exact ⟨x, List.mem_append_left _ (mem_keptMembers.2 ⟨hx, hliteral⟩), hm⟩

end Read

theorem member?_escaped :
    ∀ c ∈ literalInClass, member? (escaped c) = member? (String.singleton c) :=
  forall_mem_of_all (by decide)

theorem pairwise_classMembers {symbols : List String} (hbracket : "[" ∉ symbols) :
    (classMembers symbols).Pairwise fun x y => x = "[" → y ≠ ":" ∧ y ≠ "." ∧ y ≠ "=" := by
  have hliteral : literalInClass.Pairwise fun c d => String.singleton c = "[" →
      String.singleton d ≠ ":" ∧ String.singleton d ≠ "." ∧ String.singleton d ≠ "=" := by decide
  have hkept : ∀ x ∈ keptMembers symbols, x ≠ "[" := by
    rintro x hx rfl
    exact hbracket (mem_keptMembers.1 hx).1
  rw [classMembers_eq, List.pairwise_append]
  refine ⟨?_, List.pairwise_map.2 (hliteral.filter _), ?_⟩
  · exact List.pairwise_of_forall_mem_list fun x hx _ _ hxb => absurd hxb (hkept x hx)
  · intro x hx _ _ hxb
    exact absurd hxb (hkept x hx)

theorem ne_hyphen_of_mem_tail_classMembers {symbols : List String} {x : String}
    (h : x ∈ (classMembers symbols).tail) : x ≠ "-" := by
  have hliteral : ∀ c ∈ literalInClass, String.singleton c ≠ "-" :=
    forall_mem_of_all (by decide)
  have hin : x ∈ (keptMembers symbols).tail ∨
      x ∈ (bareMembers symbols).map String.singleton := by
    rw [classMembers_eq] at h
    cases hkept : keptMembers symbols with
    | nil =>
      rw [hkept] at h
      exact .inr (List.mem_of_mem_tail h)
    | cons y ys =>
      rw [hkept, List.cons_append, List.tail_cons] at h
      exact List.mem_append.1 h
  rcases hin with hkept | hbareMember
  · exact ne_hyphen_of_mem_tail hkept
  · obtain ⟨c, hc, rfl⟩ := List.mem_map.1 hbareMember
    exact hliteral c (mem_bareMembers.1 hc).1

/-- A caret comes first only if it is the only member. -/
theorem eq_caret_of_head {symbols : List String} (hcaret : "^" ∉ symbols)
    (h : (classMembers symbols).head? = some "^") : ∀ x ∈ symbols, x = escaped '^' := by
  have hlast : literalInClass.Pairwise fun c _ => c ≠ '^' := by decide
  rw [classMembers_eq] at h
  cases hkept : keptMembers symbols with
  | cons x xs =>
    rw [hkept, List.cons_append, List.head?_cons, Option.some.injEq] at h
    have hx : x ∈ keptMembers symbols := by rw [hkept]; exact List.mem_cons_self ..
    exact absurd (h ▸ (mem_keptMembers.1 hx).1) hcaret
  | nil =>
    cases hcs : bareMembers symbols with
    | nil =>
      rw [hkept, hcs] at h
      cases h
    | cons c cs =>
      rw [hkept, hcs] at h
      have hc : c = '^' := String.singleton_inj.1 (Option.some.inj h)
      have hpairwise : (bareMembers symbols).Pairwise fun c _ => c ≠ '^' := hlast.filter _
      rw [hcs, hc] at hpairwise
      intro x hx
      by_cases hliteral : x ∈ literalInClass.map escaped
      · obtain ⟨d, hd, rfl⟩ := List.mem_map.1 hliteral
        have hdmem : d ∈ bareMembers symbols := mem_bareMembers.2 ⟨hd, hx⟩
        rw [hcs, hc] at hdmem
        rcases List.mem_cons.1 hdmem with rfl | hlater
        · rfl
        · exact absurd rfl ((List.pairwise_cons.1 hpairwise).1 d hlater)
      · have hin := mem_keptMembers.2 ⟨hx, hliteral⟩
        rw [hkept] at hin
        cases hin

/-- No caret comes first in a class of at least two symbols. -/
theorem head?_classMembers_ne {symbols : List String} (hcaret : "^" ∉ symbols) {a b : String}
    (ha : a ∈ symbols) (hb : b ∈ symbols) (hab : a ≠ b) :
    (classMembers symbols).head? ≠ some "^" := fun h =>
  hab ((eq_caret_of_head hcaret h a ha).trans (eq_caret_of_head hcaret h b hb).symm)

theorem classMembers_ne_nil {symbols : List String} {a : String} (ha : a ∈ symbols) :
    classMembers symbols ≠ [] := by
  intro hnil
  have hin : () ∈ (classMembers symbols).filterMap fun _ => some () :=
    (mem_filterMap_classMembers fun _ _ => rfl).2 ⟨a, ha, rfl⟩
  rw [hnil] at hin
  cases hin

theorem toList_characterClass (symbols : List String) :
    (characterClass symbols).toList =
      '[' :: (classMembers symbols).flatMap String.toList ++ [']'] := by
  simp [characterClass]

section Class

variable {symbols : List String} (hmember : ∀ x ∈ symbols, (member? x).isSome = true)
  (hbare : ∀ c ∈ literalInClass, String.singleton c ∉ symbols) {a b : String} (ha : a ∈ symbols)
  (hb : b ∈ symbols) (hab : a ≠ b)

include hmember hbare ha hb hab

/-- The members of a class of at least two symbols are read one by one: none of them negates the
    class, and none is part of a range. -/
theorem read?_classMembers :
    Bracket.read? ((classMembers symbols).flatMap String.toList) =
      some ⟨false, ((classMembers symbols).filterMap member?).map .member⟩ := by
  have hmembers := isSome_of_mem_classMembers member?_escaped hmember
  have hread := members?_flatMap hmembers (pairwise_classMembers (hbare '[' (by decide)))
  have hhead := head?_classMembers_ne (hbare '^' (by decide)) ha hb hab
  have htail : ∀ y ∈ (classMembers symbols).tail, y ≠ "-" :=
    fun y => ne_hyphen_of_mem_tail_classMembers
  obtain ⟨x, xs, hcons⟩ := List.exists_cons_of_ne_nil (classMembers_ne_nil ha)
  rw [hcons] at hmembers hread hhead htail ⊢
  obtain ⟨m, hm⟩ := Option.isSome_iff_exists.1 (hmembers x (List.mem_cons_self ..))
  -- only the first member may be a hyphen, so there are no ranges
  have hhyphen : ∀ n ∈ xs.filterMap member?, n ≠ .hyphen := by
    rintro n hn rfl
    obtain ⟨y, hy, hyphen⟩ := List.mem_filterMap.1 hn
    exact htail y hy (eq_hyphen_of_member? hyphen)
  have hitems := items?_of_forall_ne_hyphen (a := m) hhyphen
  have hcontent : (x :: xs).flatMap String.toList ≠ [] ∧
      ((x :: xs).flatMap String.toList).head? ≠ some '^' := by
    rcases cases_of_member? hm with ⟨c, rfl, _, _, _⟩ | ⟨c, rfl, _⟩
    · refine ⟨by simp, ?_⟩
      intro hcaret
      have hc : c = '^' := by simpa using hcaret
      exact hhead (by rw [hc]; rfl)
    · simp [escaped]
  rw [List.filterMap_cons_some hm] at hread ⊢
  rw [Bracket.read?_of_head_ne hcontent.2, Bracket.readItems?, if_neg (by simpa using hcontent.1),
    hread, Option.bind_some, hitems, Option.map_some]

/-- **A class of at least two symbols matches what one of them matches.** -/
theorem characterClass_spec :
    ∃ content bracket, (characterClass symbols).toList = '[' :: content ++ [']'] ∧
      Bracket.read? content = some bracket ∧ ∀ D c, bracket.Matches D c ↔
        ∃ x ∈ symbols, ∃ m, member? x = some m ∧ m.Matches D c := by
  refine ⟨_, _, toList_characterClass symbols, read?_classMembers hmember hbare ha hb hab, ?_⟩
  intro D c
  simp only [Bracket.Matches, Bool.false_eq_true, if_false, List.mem_map]
  constructor
  · rintro ⟨_, ⟨n, hn, rfl⟩, hmatch⟩
    obtain ⟨y, hy, hyn⟩ := (mem_filterMap_classMembers member?_escaped).1 hn
    exact ⟨y, hy, n, hyn, hmatch⟩
  · rintro ⟨y, hy, n, hyn, hmatch⟩
    exact ⟨_, ⟨n, (mem_filterMap_classMembers member?_escaped).2 ⟨y, hy, hyn⟩, rfl⟩, hmatch⟩

end Class

/-! ### Symbols as expressions -/

/-- A class-safe text that is an expression is one unit, and it matches the same inside a
    bracket expression as outside. -/
theorem exists_member?_of_isClassSafe {symbol : String} (h : isClassSafe symbol = true)
    {r : Expression} (hr : WellFormed r) (hbar : r ≠ .bar .done)
    (htext : r.text = symbol.toList) :
    ∃ u m, r = .unit u none .done ∧ member? symbol = some m ∧
      ∀ D c, u.Matches D c ↔ m.Matches D c := by
  unfold isClassSafe at h
  split at h
  · rename_i c hc
    simp only [Bool.and_eq_true, bne_iff_ne, ne_eq] at h
    rw [hc] at htext
    cases isItem_of_text_single hr.sound hbar htext with
    | group g body => cases g <;> simp [Regex.text, Marks.opening, Mark.opening] at htext
    | unit u =>
      cases u with
      | char d =>
        simp only [Regex.text, Written.spelling, Matcher.spelling, Spelling.text,
          Quantifier.text, List.append_nil, List.cons.injEq, and_true] at htext
        subst htext
        have hclose : d ≠ ']' := Matcher.ne_of_isValid_char hr.1.1 _ (by decide)
        refine ⟨_, .ofChar d, rfl, ?_, ?_⟩
        · simp [member?, hc, h.2, hclose]
        · intro D c
          by_cases hd : d = '-'
          · simp [Matcher.Matches, Member.ofChar, Member.Matches, hd]
          · simp [Matcher.Matches, Member.ofChar, Member.Matches, hd]
      | dot =>
        have hdot : c = '.' := (List.cons.inj htext).1.symm
        exact absurd hdot h.1
      | _ => simp [Regex.text, Written.spelling, Matcher.spelling, Spelling.text] at htext
  · rename_i b c hc
    rw [beq_iff_eq] at h
    rw [hc, h] at htext
    cases isItem_of_text_escape hr.sound htext with
    | group g body => cases g <;> cases htext
    | unit u =>
      have hmember : member? symbol = Member.ofEscape? c := by simp [member?, hc, h]
      cases u with
      | escaped d =>
        have hd : d = c := by simpa [Regex.text, Written.spelling, Matcher.spelling,
          Spelling.text, Quantifier.text] using htext
        subst hd
        have hvalid : isPunctuation d = true := hr.1.1
        exact ⟨_, .single d, rfl, by simp [hmember, Member.ofEscape?, hvalid], fun D c => Iff.rfl⟩
      | shorthand s negated =>
        have hletter : s.letter negated = c := by simpa [Regex.text, Written.spelling,
          Matcher.spelling, Spelling.text, Quantifier.text] using htext
        subst hletter
        refine ⟨_, .shorthand s negated, rfl, ?_, fun D c => Iff.rfl⟩
        rw [hmember]
        cases s <;> cases negated <;> decide
      | char d =>
        have hd : d = '\\' := (List.cons.inj htext).1
        exact absurd hd (Matcher.ne_of_isValid_char hr.1.1 _ (by decide))
      | _ => simp [Regex.text, Written.spelling, Matcher.spelling, Spelling.text] at htext
  · cases h

/-- A class-safe text that is an expression has its backslash if it needs one outside of
    brackets. -/
theorem ne_singleton_of_isClassSafe {symbol : String} (h : isClassSafe symbol = true)
    {r : Expression} (hr : WellFormed r) (hbar : r ≠ .bar .done)
    (htext : r.text = symbol.toList) : ∀ c ∈ literalInClass, symbol ≠ String.singleton c := by
  rintro c hc rfl
  obtain ⟨u, m, rfl, _, _⟩ := exists_member?_of_isClassSafe h hr hbar htext
  have hmeta : ∀ c ∈ literalInClass, c ∈ metacharacters := forall_mem_of_all (by decide)
  cases u with
  | char d =>
    have hd : d = c := by simpa [Regex.text, Written.spelling, Matcher.spelling, Spelling.text,
      Quantifier.text] using htext
    exact Matcher.ne_of_isValid_char hr.1.1 c (hmeta c hc) hd
  | dot =>
    have hdot : c = '.' := by simpa [Regex.text, Written.spelling, Matcher.spelling,
      Spelling.text, Quantifier.text, eq_comm] using htext
    rw [hdot] at h
    exact absurd h (by decide)
  | _ => simp [Regex.text, Written.spelling, Matcher.spelling, Spelling.text] at htext

end Symbol

end RegexText
