/-
  RegexText/Proofs/Lexeme/Special.lean
  ====================================
  **What can begin with a parenthesis and a question mark.**

  Option settings, named groups, groups that capture nothing and assertions begin
  alike, and the reader tries them in an order of its own.  `Special` lists how
  each of them is spelled and knows no order.  None is needed: no text begins with
  two of the spellings, so a spelling is read as what it is, whatever else would
  have been tried before it (`readSpecial_of_special`).

  What holds of all these lexemes is proved spelling by spelling.
-/
import RegexText.Proofs.Source.Spelling

namespace RegexText.Lexeme

open Text

variable {c : Char} {cs options rest : List Char} {l : Lexeme}

/-! ### Spellings -/

/-- A lexeme that begins with a parenthesis and a question mark, and is spelled as one. -/
inductive Special : Lexeme → Prop where
  | setting {options : List Char} (h : ∀ c ∈ options, isOptionLetter c = true) :
      Special (.optionSetting options)
  | letter {name : List Char} (h : Source.isIdentifier name = true) :
      Special (.opener (.capturing (some (String.ofList name)))
        ('(' :: '?' :: 'P' :: '<' :: name ++ ['>']))
  | angle {name : List Char} (h : Source.isIdentifier name = true) :
      Special (.opener (.capturing (some (String.ofList name)))
        ('(' :: '?' :: '<' :: name ++ ['>']))
  | quote {name : List Char} (h : Source.isIdentifier name = true) :
      Special (.opener (.capturing (some (String.ofList name)))
        ('(' :: '?' :: '\'' :: name ++ ['\'']))
  | nonCapturing {options : List Char} (h : ∀ c ∈ options, isOptionLetter c = true) :
      Special (.opener (.nonCapturing (String.ofList options)) ('(' :: '?' :: options ++ [':']))
  | atomic : Special (.opener .atomic ['(', '?', '>'])
  | ahead (negated : Bool) :
      Special (.opener (.assertion .ahead negated) ['(', '?', if negated then '!' else '='])
  | behind (negated : Bool) :
      Special (.opener (.assertion .behind negated) ['(', '?', '<', if negated then '!' else '='])

/-! ### Reading -/

theorem isIdentifier_of_readIdentifier {close : Char} {name rest : List Char}
    (h : readIdentifier close cs = some (name, rest)) : Source.isIdentifier name = true := by
  unfold readIdentifier at h
  split at h
  · rename_i first more c after htake hdrop
    split at h
    · rename_i hfirst
      obtain ⟨rfl, _⟩ := Prod.mk.inj (Option.some.inj h)
      have hall : (first :: more).all isNameChar = true := htake ▸ List.all_takeWhile
      simp only [Bool.and_eq_true] at hfirst
      rw [Source.isIdentifier, hfirst.1, hall]
      rfl
    · cases h
  · cases h

theorem special_of_readName {name spelling : List Char}
    (h : readName cs = some (name, spelling, rest)) :
    Special (.opener (.capturing (some (String.ofList name))) ('(' :: '?' :: spelling)) := by
  have hspelling : ∀ {front cs : List Char} {close : Char},
      readSpelled front close cs = some (name, spelling, rest) →
        Source.isIdentifier name = true ∧ spelling = front ++ name ++ [close] := by
    intro front cs close hread
    obtain ⟨⟨found, behind⟩, hfound, heq⟩ := Option.map_eq_some_iff.1 hread
    cases heq
    exact ⟨isIdentifier_of_readIdentifier hfound, rfl⟩
  unfold readName at h
  split at h
  · obtain ⟨hname, rfl⟩ := hspelling h
    exact .letter hname
  · obtain ⟨hname, rfl⟩ := hspelling h
    exact .angle hname
  · obtain ⟨hname, rfl⟩ := hspelling h
    exact .quote hname
  · cases h

theorem special_of_readSpecial (h : readSpecial cs = some (l, rest)) : Special l := by
  have hletters : ∀ c ∈ cs.takeWhile isOptionLetter, isOptionLetter c = true := fun c hc =>
    List.all_eq_true.1 List.all_takeWhile c hc
  unfold readSpecial at h
  simp only at h
  split at h
  · cases h
    exact .setting hletters
  · split at h
    · rename_i hname
      cases h
      exact special_of_readName hname
    · split at h
      · cases h
        exact .nonCapturing hletters
      · unfold readMarked at h
        split at h
        · cases h; exact .atomic
        · cases h; exact .ahead false
        · cases h; exact .ahead true
        · cases h; exact .behind false
        · cases h; exact .behind true
        · cases h

/-- Letters before a sign that is none are all of the letters. -/
theorem letters_append {sign : Char} (h : ∀ c ∈ options, isOptionLetter c = true)
    (hsign : isOptionLetter sign = false) (rest : List Char) :
    (options ++ sign :: rest).takeWhile isOptionLetter = options ∧
      (options ++ sign :: rest).dropWhile isOptionLetter = sign :: rest :=
  takeWhile_append_of_stop h fun _ hc => Option.some.inj hc ▸ hsign

/-- Letters before a colon do not begin a name, even if the first of them is a `P`. -/
theorem readName_options (h : ∀ c ∈ options, isOptionLetter c = true) (rest : List Char) :
    readName (options ++ ':' :: rest) = none := by
  have hletters := (letters_append h (by decide : isOptionLetter ':' = false) rest).2
  unfold readName
  split
  · rename_i heq
    rw [heq] at hletters
    simp [isOptionLetter] at hletters
  · rename_i heq
    rw [heq] at hletters
    simp [isOptionLetter] at hletters
  · rename_i heq
    rw [heq] at hletters
    simp [isOptionLetter] at hletters
  · rfl

/-- A spelling is read as what it is, whatever else could have been tried before it. -/
theorem readSpecial_of_special (hspecial : Special l) (h : '(' :: '?' :: cs = l.text ++ rest) :
    readSpecial cs = some (l, rest) := by
  cases hspecial with
  | @setting options hoptions =>
    obtain ⟨htake, hdrop⟩ :=
      letters_append hoptions (by decide : isOptionLetter ')' = false) rest
    have hcs : cs = options ++ ')' :: rest := by simpa [text] using h
    subst hcs
    unfold readSpecial
    simp only [htake, hdrop]
  | @letter name hname =>
    have hcs : cs = ['P', '<'] ++ (name ++ '>' :: rest) := by simpa [text] using h
    rw [hcs]
    exact Source.readSpecial_named ['P', '<'] hname (by decide) (fun _ => rfl)
      (by simp [isOptionLetter]) rest
  | @angle name hname =>
    have hcs : cs = ['<'] ++ (name ++ '>' :: rest) := by simpa [text] using h
    rw [hcs]
    exact Source.readSpecial_named ['<'] hname (by decide) (fun _ => rfl)
      (by simp [isOptionLetter]) rest
  | @quote name hname =>
    have hcs : cs = ['\''] ++ (name ++ '\'' :: rest) := by simpa [text] using h
    rw [hcs]
    exact Source.readSpecial_named ['\''] hname (by decide) (fun _ => rfl)
      (by simp [isOptionLetter]) rest
  | @nonCapturing options hoptions =>
    obtain ⟨htake, hdrop⟩ :=
      letters_append hoptions (by decide : isOptionLetter ':' = false) rest
    have hcs : cs = options ++ ':' :: rest := by simpa [text] using h
    subst hcs
    unfold readSpecial
    simp only [htake, hdrop, readName_options hoptions rest]
    rfl
  | atomic =>
    cases h
    rfl
  | ahead negated => cases negated <;> (cases h; rfl)
  | behind negated => cases negated <;> (cases h; rfl)

theorem readGroup_of_special (hspecial : Special l) (h : '(' :: cs = l.text ++ rest) :
    readGroup cs = (l, rest) := by
  obtain ⟨inner, rfl⟩ : ∃ inner, cs = '?' :: inner := by
    cases hspecial <;> exact ⟨_, (List.cons.inj h).2⟩
  rw [readGroup, readSpecial_of_special hspecial h]
  rfl

end RegexText.Lexeme
