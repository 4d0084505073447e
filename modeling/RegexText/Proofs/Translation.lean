/-
  RegexText/Proofs/Translation.lean
  =================================
  **The translation of a source expression, along its tree.**

  Every part of a tree is translated by itself.  A part must know two things about
  its surroundings, and both concern backreferences: which groups have been opened
  before it, and whether a digit comes right behind it.

  Nothing here scans a text.  Slashes are escaped where they are written, as
  literals; that escaping them in the finished text comes to the same is a
  theorem.
-/
import RegexText.CategoryEscape
import RegexText.Proofs.Source.Spelling

namespace RegexText.Source

open Text

/-! ### Parts -/

/-- A literal character.  Only a slash has to be escaped, and not always. -/
def literalText (escapeSlash : Bool) (c : Char) : List Char :=
  if escapeSlash && c == '/' then ['\\', '/'] else [c]

/-- The ranges of a category escape or, if `negated`, of all other categories. -/
def CategorySpelling.ranges (spelling : CategorySpelling) (negated : Bool) : List Char :=
  CategoryEscape.rangesText
    (CategoryEscape.unitRanges (spelling.categories?.getD []) negated)

def Item.translation (escapeSlash : Bool) : Item → List Char
  | .literal c => literalText escapeSlash c
  | .escaped c => ['\\', c]
  | .shorthand s negated => ['\\', s.letter negated]
  | .range first last => literalText escapeSlash first ++ '-' :: literalText escapeSlash last
  | .category spelling => spelling.ranges spelling.negated

/-- A reference by number.  A digit behind it must not become part of the number. -/
def Reference.translation (groups : Groups) (digitBehind : Bool) (r : Reference) : List Char :=
  let plain := '\\' :: Nat.toDigits 10 ((r.target? groups).getD 0)
  if digitBehind then ['(', '?', ':'] ++ plain ++ [')'] else plain

namespace Element

def bracketed (negated : Bool) (inner : List Char) : List Char :=
  '[' :: ((if negated then ['^'] else []) ++ inner) ++ [']']

def translation (dotAll escapeSlash : Bool) (groups : Groups) (digitBehind : Bool) :
    Element → List Char
  | .literal c => literalText escapeSlash c
  | .escaped c => ['\\', c]
  | .shorthand s negated => ['\\', s.letter negated]
  | .start => ['^']
  | .stop => ['$']
  | .dot => CategoryEscape.dotText dotAll
  | .category spelling => bracketed spelling.negated (spelling.ranges false)
  | .bracket negated items =>
    bracketed negated (items.flatMap (Item.translation escapeSlash))
  | .reference r => r.translation groups digitBehind

end Element

def Mark.translation : Mark → List Char
  | .capturing => ['(']
  | .named _ _ => ['(']
  | .nonCapturing => ['(', '?', ':']
  | .atomic => ['(', '?', ':']
  | .ahead false => ['(', '?', '=']
  | .ahead true => ['(', '?', '!']

/-- A possessive quantifier matches no other texts than a greedy one. -/
def withoutPossession : Option Quantifier → Option Quantifier
  | some ⟨r, .possessive⟩ => some ⟨r, .greedy⟩
  | q => q

/-- **The translation**, when some groups have been opened before. -/
def translation (dotAll escapeSlash : Bool) (groups : Groups) : Expression → List Char
  | .done => []
  | .unit e q next =>
    e.translation dotAll escapeSlash groups (digitFollows q next) ++
      Quantifier.text (withoutPossession q) ++ translation dotAll escapeSlash groups next
  | .group g body q next =>
    g.translation ++ translation dotAll escapeSlash (g.opens groups) body ++
      ')' :: Quantifier.text (withoutPossession q) ++
      translation dotAll escapeSlash (opened (g.opens groups) body) next
  | .bar next => '|' :: translation dotAll escapeSlash groups next

/-! ### Texts without slashes -/

theorem exists_of_mem_hexDigits {c : Char} (n : Nat) (h : c ∈ hexDigits n) :
    ∃ k < 16, c = Nat.digitChar k := by
  induction n using Nat.strongRecOn with
  | ind n ih =>
    by_cases hn : n < 16
    · rw [hexDigits, Nat.toDigits_of_lt_base hn] at h
      exact ⟨n, hn, List.mem_singleton.1 h⟩
    · rw [hexDigits, Nat.toDigits_of_base_le (by decide) (by omega)] at h
      rcases List.mem_append.1 h with hmem | hmem
      · exact ih (n / 16) (by omega) hmem
      · exact ⟨n % 16, by omega, List.mem_singleton.1 hmem⟩

theorem exists_of_mem_paddedUpperHex {c : Char} {width n : Nat}
    (h : c ∈ paddedUpperHex width n) : ∃ k < 16, c = (Nat.digitChar k).toUpper := by
  obtain ⟨d, hd, rfl⟩ := List.mem_map.1 h
  have hdigit : ∃ k < 16, d = Nat.digitChar k := by
    rcases List.mem_append.1 hd with hmem | hmem
    · exact ⟨0, by decide, List.eq_of_mem_replicate hmem⟩
    · exact exists_of_mem_hexDigits n hmem
  obtain ⟨k, hk, rfl⟩ := hdigit
  exact ⟨k, hk, rfl⟩

theorem isAlphanum_of_mem_paddedUpperHex {c : Char} {width n : Nat}
    (h : c ∈ paddedUpperHex width n) : c.isAlphanum = true := by
  obtain ⟨k, hk, rfl⟩ := exists_of_mem_paddedUpperHex h
  have hall : ∀ k < 16, (Nat.digitChar k).toUpper.isAlphanum = true := by decide
  exact hall k hk

/-! What is written out for a category holds no slash, and no bracket that would end the class
around it. -/

section WrittenOut

variable {bad : Char → Prop}

theorem freeOf_alphanum (hbad : ∀ c, bad c → c = '/' ∨ c = ']') {cs : List Char}
    (h : ∀ c ∈ cs, c.isAlphanum = true) : FreeOf bad cs := by
  apply freeOf_of_forall_apply h (by decide)
  intro c hc hno
  rcases hbad c hno with rfl | rfl <;> cases hc

theorem freeOf_unitText (hbad : ∀ c, bad c → c = '/' ∨ c = ']') (unit : Nat) :
    FreeOf bad (CategoryEscape.unitText unit) := by
  unfold CategoryEscape.unitText
  simp only
  split
  · rename_i h
    apply freeOf_alphanum hbad
    intro c hc
    rw [List.mem_singleton.1 hc]
    exact h.2
  · exact .pair 'u' (freeOf_alphanum hbad fun c hc => isAlphanum_of_mem_paddedUpperHex hc)

theorem freeOf_rangesText (hbad : ∀ c, bad c → c = '/' ∨ c = ']')
    (ranges : List CategoryEscape.UnitRange) :
    FreeOf bad (CategoryEscape.rangesText ranges) := by
  have hunit := fun unit => freeOf_unitText hbad unit
  have hhyphen : ¬ bad '-' := by
    intro hno
    rcases hbad '-' hno with heq | heq <;> cases heq
  induction ranges with
  | nil => exact .nil
  | cons range ranges ih =>
    refine FreeOf.append ?_ ih
    unfold CategoryEscape.rangeText
    split
    · exact hunit _
    · split
      · exact (hunit _).append (hunit _)
      · exact (hunit _).append (.single (by decide) hhyphen (hunit _))

end WrittenOut

theorem freeOf_signs (cs : List Char) (h : '/' ∉ cs ∧ '\\' ∉ cs) : FreeOf (· = '/') cs := by
  apply FreeOf.of_forall
  intro c hc
  refine ⟨?_, ?_⟩
  · rintro rfl
    exact h.2 hc
  · rintro rfl
    exact h.1 hc

theorem freeOf_bracketed (negated : Bool) {inner : List Char} (h : FreeOf (· = '/') inner) :
    FreeOf (· = '/') (Element.bracketed negated inner) := by
  have hclose : FreeOf (· = '/') [']'] := freeOf_signs _ (by decide)
  have hinner : FreeOf (· = '/') ((if negated then ['^'] else []) ++ inner) := by
    cases negated with
    | true => exact .single (by decide) (by decide) h
    | false => exact h
  exact .single (by decide) (by decide) (hinner.append hclose)

theorem freeOf_quantifier (q : Option Quantifier) : FreeOf (· = '/') (Quantifier.text q) := by
  cases q with
  | none => exact .nil
  | some q =>
    obtain ⟨r, m⟩ := q
    cases r <;> cases m <;> exact freeOf_signs _ (by decide)

theorem freeOf_mark (g : Mark) : FreeOf (· = '/') g.translation := by
  cases g with
  | ahead negated => cases negated <;> exact freeOf_signs _ (by decide)
  | capturing => exact freeOf_signs _ (by decide)
  | named form name => exact freeOf_signs ['('] (by decide)
  | nonCapturing => exact freeOf_signs _ (by decide)
  | atomic => exact freeOf_signs _ (by decide)

theorem freeOf_dotText (dotAll : Bool) : FreeOf (· = '/') (CategoryEscape.dotText dotAll) := by
  cases dotAll with
  | true =>
    have hshorthands : FreeOf (· = '/') ['\\', 's', '\\', 'S', ']'] :=
      .pair 's' (.pair 'S' (freeOf_signs _ (by decide)))
    exact .single (by decide) (by decide) hshorthands
  | false => exact freeOf_signs _ (by decide)

theorem freeOf_referenceTranslation (groups : Groups) (digitBehind : Bool) (r : Reference) :
    FreeOf (· = '/') (r.translation groups digitBehind) := by
  have hplain : ∀ n, FreeOf (· = '/') ('\\' :: Nat.toDigits 10 n) := by
    intro n
    have hdigits : ∀ c ∈ Nat.toDigits 10 n, c.isAlphanum = true := by
      intro c hc
      simp [Char.isAlphanum, Nat.isDigit_of_mem_toDigits (by decide) (by decide) hc]
    cases hn : Nat.toDigits 10 n with
    | nil => exact absurd hn Nat.toDigits_ne_nil
    | cons d ds =>
      rw [hn] at hdigits
      have hrest : ∀ c ∈ ds, c.isAlphanum = true := fun c hc =>
        hdigits c (List.mem_cons_of_mem _ hc)
      exact .pair d (freeOf_alphanum (fun _ => Or.inl) hrest)
  cases digitBehind with
  | true =>
    have hopen : FreeOf (· = '/') ['(', '?', ':'] := freeOf_signs _ (by decide)
    exact (hopen.append (hplain _)).append (freeOf_signs _ (by decide))
  | false => exact hplain _

/-! ### Slashes are escaped as well afterwards -/

/-- Does a complete text become another one when its slashes are escaped? -/
def Protects (plain escaped : List Char) : Prop := Complete plain ∧ protect '/' plain = escaped

namespace Protects

theorem append {a b a' b' : List Char} (h : Protects a b) (h' : Protects a' b') :
    Protects (a ++ a') (b ++ b') :=
  ⟨h.1.append h'.1, by rw [protect_append h.1, h.2, h'.2]⟩

theorem of_freeOf {a : List Char} (h : FreeOf (· = '/') a) : Protects a a :=
  ⟨h.complete, protect_of_freeOf h⟩

theorem literal {c : Char} (hc : (!reserved.contains c) = true) :
    Protects (literalText false c) (literalText true c) := by
  have hne : c ≠ '\\' := ne_of_not_reserved hc (by decide)
  refine ⟨.single hne id .nil, ?_⟩
  change protect '/' [c] = _
  rw [protect_single hne]
  by_cases hslash : c = '/'
  · simp [literalText, hslash, protect]
  · simp [literalText, hslash, protect]

theorem item {item : Item} (h : item.isLegal = true) :
    Protects (item.translation false) (item.translation true) := by
  cases item with
  | literal c => exact literal h
  | escaped c => exact of_freeOf (.pair c .nil)
  | shorthand s negated => exact of_freeOf (.pair _ .nil)
  | range first last =>
    simp only [Item.isLegal, Bool.and_eq_true] at h
    exact (literal h.1).append ((of_freeOf (freeOf_signs ['-'] (by decide))).append (literal h.2))
  | category spelling => exact of_freeOf (freeOf_rangesText (fun _ => Or.inl) _)

theorem bracketed (negated : Bool) {inner escaped : List Char} (h : Protects inner escaped) :
    Protects (Element.bracketed negated inner) (Element.bracketed negated escaped) := by
  have hclose : Protects [']'] [']'] := of_freeOf (freeOf_signs _ (by decide))
  have hopen : Protects ('[' :: if negated then ['^'] else [])
      ('[' :: if negated then ['^'] else []) := by
    cases negated <;> exact of_freeOf (freeOf_signs _ (by decide))
  simpa [Element.bracketed] using hopen.append (h.append hclose)

theorem element {groups : Groups} {e : Element} (h : e.isLegal groups = true) (dotAll : Bool)
    (digitBehind : Bool) :
    Protects (e.translation dotAll false groups digitBehind)
      (e.translation dotAll true groups digitBehind) := by
  cases e with
  | literal c => exact literal h
  | escaped c => exact of_freeOf (.pair c .nil)
  | shorthand s negated => exact of_freeOf (.pair _ .nil)
  | start => exact of_freeOf (freeOf_signs ['^'] (by decide))
  | stop => exact of_freeOf (freeOf_signs ['$'] (by decide))
  | dot => exact of_freeOf (freeOf_dotText dotAll)
  | category spelling =>
    exact of_freeOf (freeOf_bracketed _ (freeOf_rangesText (fun _ => Or.inl) _))
  | bracket negated items =>
    apply bracketed
    induction items with
    | nil => exact of_freeOf .nil
    | cons first items ih =>
      simp only [Element.isLegal, List.all_cons, Bool.and_eq_true] at h
      exact (item h.1).append (ih h.2)
  | reference r => exact of_freeOf (freeOf_referenceTranslation groups digitBehind r)

end Protects

/-- Escaping the slashes of a translation comes to the same as translating with slashes
    escaped. -/
theorem protects_translation {groups : Groups} {r : Expression} (h : Legal groups r)
    (dotAll : Bool) :
    Protects (translation dotAll false groups r) (translation dotAll true groups r) := by
  induction r generalizing groups with
  | done => exact .of_freeOf .nil
  | unit e q next ih =>
    exact ((Protects.element h.1.1 dotAll _).append (.of_freeOf (freeOf_quantifier _))).append
      (ih h.2.2)
  | group g body q next ihb ihn =>
    have hclose : FreeOf (· = '/') (')' :: Quantifier.text (withoutPossession q)) :=
      .single (by decide) (by decide) (freeOf_quantifier _)
    exact (((Protects.of_freeOf (freeOf_mark g)).append (ihb h.2.1)).append
      (.of_freeOf hclose)).append (ihn h.2.2)
  | bar next ih =>
    have hbar : Protects ['|'] ['|'] := .of_freeOf (freeOf_signs _ (by decide))
    exact hbar.append (ih h)

theorem literalText_of_ne {c : Char} (h : c ≠ '/') (a b : Bool) :
    literalText a c = literalText b c := by
  simp [literalText, h]

theorem element_translation_of_not_mem {e : Element} (h : '/' ∉ e.spelling.text)
    (dotAll a b : Bool) (groups : Groups) (digitBehind : Bool) :
    e.translation dotAll a groups digitBehind = e.translation dotAll b groups digitBehind := by
  have hitem : ∀ item : Item, '/' ∉ item.text → item.translation a = item.translation b := by
    intro item hitem
    cases item with
    | literal c =>
      simp only [Item.text, List.mem_singleton] at hitem
      exact literalText_of_ne (Ne.symm hitem) a b
    | range first last =>
      simp only [Item.text, List.mem_cons, List.not_mem_nil, or_false, not_or] at hitem
      simp only [Item.translation, literalText_of_ne (Ne.symm hitem.1) a b,
        literalText_of_ne (Ne.symm hitem.2.2) a b]
    | escaped c => rfl
    | shorthand s negated => rfl
    | category spelling => rfl
  cases e with
  | literal c =>
    simp only [Element.spelling, Spelling.text, List.mem_singleton] at h
    exact literalText_of_ne (Ne.symm h) a b
  | bracket negated items =>
    simp only [Element.spelling, Spelling.text, Element.content, List.mem_append, List.mem_cons,
      List.mem_flatMap, not_or, not_exists, not_and] at h
    have hitems : items.flatMap (Item.translation a) = items.flatMap (Item.translation b) := by
      rw [List.flatMap_def, List.flatMap_def]
      congr 1
      apply List.map_congr_left
      intro item hmem
      exact hitem item (h.1.2.2 item hmem)
    rw [Element.translation, Element.translation, hitems]
  | escaped c => rfl
  | shorthand s negated => rfl
  | start => rfl
  | stop => rfl
  | dot => rfl
  | category spelling => rfl
  | reference r => rfl

/-- An expression without slashes has none to escape. -/
theorem translation_of_not_mem {r : Expression} (h : '/' ∉ r.text) (dotAll a b : Bool)
    (groups : Groups) : translation dotAll a groups r = translation dotAll b groups r := by
  induction r generalizing groups with
  | done => rfl
  | unit e q next ih =>
    simp only [Regex.text, List.mem_append, not_or] at h
    rw [translation, translation, element_translation_of_not_mem h.1.1 dotAll a b, ih h.2]
  | group g body q next ihb ihn =>
    simp only [Regex.text, List.mem_append, List.mem_cons, not_or] at h
    rw [translation, translation, ihb h.1.1.2, ihn h.2]
  | bar next ih =>
    simp only [Regex.text, List.mem_cons, not_or] at h
    rw [translation, translation, ih h.2]

end RegexText.Source
