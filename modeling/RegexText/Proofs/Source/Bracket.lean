/-
  RegexText/Proofs/Source/Bracket.lean
  ====================================
  **A symbol by itself, and symbols between brackets, in the source dialect.**

  Most characters, and most escapes, mean the same in both places.  An anchor does
  not, and neither does an escape that stands for a place in a text, or for
  something longer than a character: between brackets there are only characters and
  sets of them.  `alone?` says what a symbol means by itself, and `members?` what a
  text means between brackets.

  The second reading is a cautious one.  Ranges, names of POSIX classes, numbers
  between braces and quoted text are not read at all, and a closing bracket is no
  member, not even in front.  A class that only looks like a name is an error, too:
  `[:\:]` is.

  Three escapes can go on.  `\0` and `\x` are numbers, also without a digit, and
  between brackets they take in digits that come behind them.  `\E`, where no text is
  quoted, is nothing, so that a caret behind it may well be the first thing in its
  class; the two together are not read.
-/
import RegexText.Proofs.Regular.Symbols
import RegexText.Proofs.Target.Escape

namespace RegexText.Source

open Text
open Regular (opensPosix)
open Target (hexDigit? isOctalDigit octalDigits number)

/-! ### Meanings -/

/-- What an escape of a letter can match that is no single character. -/
inductive CharType where
  | digit | word | space | horizontal | vertical
  | notNewline | newline | grapheme | codeUnit
deriving DecidableEq, Repr

namespace CharType

/-- The type of a letter, and whether the letter negates it. -/
def ofLetter? : Char → Option (CharType × Bool)
  | 'd' => some (.digit, false)
  | 'D' => some (.digit, true)
  | 'w' => some (.word, false)
  | 'W' => some (.word, true)
  | 's' => some (.space, false)
  | 'S' => some (.space, true)
  | 'h' => some (.horizontal, false)
  | 'H' => some (.horizontal, true)
  | 'v' => some (.vertical, false)
  | 'V' => some (.vertical, true)
  | 'N' => some (.notNewline, false)
  | 'R' => some (.newline, false)
  | 'X' => some (.grapheme, false)
  | 'C' => some (.codeUnit, false)
  | _ => none

/-- Can a type stand between brackets? -/
def isSet : CharType → Bool
  | .digit | .word | .space | .horizontal | .vertical => true
  | .notNewline | .newline | .grapheme | .codeUnit => false

end CharType

/-- Which characters the types match by themselves. -/
abbrev Types := CharType → Char → Prop

/-- What a symbol means. -/
inductive Meaning where
  | char (c : Char)
  | type (t : CharType) (negated : Bool)
  /-- A place in a text, or the empty text. -/
  | place
deriving DecidableEq, Repr

/-- Does a symbol of this meaning match a character, from end to end? -/
def Meaning.Matches (T : Types) (m : Meaning) (c : Char) : Prop :=
  match m with
  | .char d => c = d
  | .type t negated => if negated then ¬ T t c else T t c
  | .place => False

/-! ### Symbols by themselves -/

/-- The letters that stand for control characters in both places. -/
def controlLetter? : Char → Option Char
  | 'a' => some '\x07'
  | 'e' => some '\x1b'
  | 'f' => some '\x0c'
  | 'n' => some '\n'
  | 'r' => some '\r'
  | 't' => some '\t'
  | _ => none

/-- The letters whose escapes stand for places, and the one that begins quoted text, which by
    itself is the empty text. -/
def placeLetters : List Char := ['b', 'B', 'A', 'Z', 'z', 'G', 'K', 'Q']

/-- What a backslash and a character mean by themselves, if that is a pattern.  References have no
    group to refer to, and other letters need something behind them or mean nothing. -/
def escapeAlone? (c : Char) : Option Meaning :=
  if !c.isAlphanum then some (.char c)
  else if c = '0' ∨ c = 'x' then some (.char '\x00')
  else if c ∈ placeLetters ∨ c = 'E' then some .place
  else
    match CharType.ofLetter? c with
    | some (t, negated) => some (.type t negated)
    | none => (controlLetter? c).map .char

/-- The characters that are no pattern by themselves: they open something, close it, or repeat
    something that is not there. -/
def incomplete : List Char := ['\\', '(', ')', '[', '*', '+', '?']

/-- The characters that stand for places, or part two empty texts. -/
def anchors : List Char := ['^', '$', '|']

/-- What one character, or a backslash and one character, mean as a pattern; `none` if they are
    none. -/
def alone? (symbol : String) : Option Meaning :=
  match symbol.toList with
  | [c] =>
    if c ∈ incomplete then none
    else if c ∈ anchors then some .place
    else if c = '.' then some (.type .notNewline false)
    else some (.char c)
  | ['\\', c] => escapeAlone? c
  | _ => none

/-! ### Between brackets -/

/-- The hexadecimal digits in front of a text, two at most. -/
def leadingHex (cs : List Char) : List Char := (cs.take 2).takeWhile fun c => (hexDigit? c).isSome

/-- What the escape means between brackets that has `c` behind its backslash and `cs` behind that,
    and how many characters of `cs` belong to it. -/
def escapeInside? (c : Char) (cs : List Char) : Option (Meaning × Nat) :=
  if !c.isAlphanum then some (.char c, 0)
  else if c = '0' then
    let digits := octalDigits 2 cs
    some (.char (Char.ofNat (number 8 digits)), digits.length)
  else if c = 'x' then
    let digits := leadingHex cs
    if cs.head? = some '{' then none
    else some (.char (Char.ofNat (number 16 digits)), digits.length)
  else if c = 'b' then some (.char '\x08', 0)
  else if c = 'E' then if cs.head? = some '^' then none else some (.place, 0)
  else
    match CharType.ofLetter? c with
    | some (t, negated) => if t.isSet then some (.type t negated, 0) else none
    | none => (controlLetter? c).map fun d => (.char d, 0)

/-- Cut a text between brackets into members.  A hyphen with something behind it is not read. -/
def members? : List Char → Option (List Meaning)
  | [] => some []
  | c :: cs =>
    if c = '\\' then
      match cs with
      | [] => none
      | d :: rest =>
        match escapeInside? d rest with
        | none => none
        | some (m, used) => (members? (rest.drop used)).map (m :: ·)
    else if c = ']' ∨ (c = '-' ∧ cs ≠ []) ∨ (c = '[' ∧ opensPosix cs) then none
    else (members? cs).map (.char c :: ·)
termination_by cs => cs.length
decreasing_by
  · simp only [List.length_drop, List.length_cons]
    omega
  · simp

/-- A bracket expression without ranges: it matches what one of its members matches, or, negated,
    what none of them does. -/
structure Class where
  negated : Bool
  members : List Meaning
deriving DecidableEq, Repr

namespace Class

def Matches (T : Types) (b : Class) (c : Char) : Prop :=
  if b.negated then ∀ m ∈ b.members, ¬ m.Matches T c else ∃ m ∈ b.members, m.Matches T c

/-- Read some members, the first of which may be a hyphen. -/
def contents? : List Char → Option (List Meaning)
  | [] => none
  | '-' :: cs => (members? cs).map (.char '-' :: ·)
  | cs => members? cs

/-- Is a class written like the name of a POSIX class, as `[:alpha:]` is? -/
def looksNamed (cs : List Char) : Bool :=
  [':', '.', '='].any fun sign => cs.head? == some sign && cs.tail.getLast? == some sign

/-- Read what stands between brackets. -/
def read? (cs : List Char) : Option Class :=
  if looksNamed cs then none
  else
    match cs with
    | '^' :: cs => (contents? cs).map (⟨true, ·⟩)
    | cs => (contents? cs).map (⟨false, ·⟩)

end Class

/-! ### Reading member by member -/

/-- Does an escape that can go on take in what is written behind it, or is not read with it? -/
def TakesIn (x : String) (cs : List Char) : Prop :=
  (x = "\\0" ∧ ∃ c ∈ cs.head?, isOctalDigit c = true) ∨
    (x = "\\x" ∧ ∃ c ∈ cs.head?, (hexDigit? c).isSome = true ∨ c = '{') ∨
    x = "\\E" ∧ cs.head? = some '^'

section Members

variable {c d : Char} {cs : List Char} {m : Meaning}

@[simp] theorem members?_nil : members? [] = some [] := by rw [members?]

theorem members?_char (hc : c ≠ '\\' ∧ c ≠ ']') (hhyphen : c = '-' → cs = [])
    (hposix : c = '[' → opensPosix cs = false) :
    members? (c :: cs) = (members? cs).map (.char c :: ·) := by
  have hplain : ¬ (c = ']' ∨ (c = '-' ∧ cs ≠ []) ∨ (c = '[' ∧ opensPosix cs = true)) := by
    rintro (h | ⟨h, hne⟩ | ⟨h, hopens⟩)
    · exact hc.2 h
    · exact hne (hhyphen h)
    · rw [hposix h] at hopens
      cases hopens
  rw [members?.eq_def]
  simp only [if_neg hc.1, if_neg hplain]

theorem members?_escape {used : Nat} (h : escapeInside? c cs = some (m, used)) :
    members? ('\\' :: c :: cs) = (members? (cs.drop used)).map (m :: ·) := by
  rw [members?.eq_def]
  simp only [if_true, h]

theorem octalDigits_eq_nil {count : Nat} (h : ¬ ∃ c ∈ cs.head?, isOctalDigit c = true) :
    octalDigits count cs = [] := by
  cases count with
  | zero => cases cs <;> rfl
  | succ count =>
    cases cs with
    | nil => rfl
    | cons c cs =>
      rw [octalDigits, if_neg]
      exact fun hc => h ⟨c, rfl, hc⟩

theorem leadingHex_eq_nil (h : ¬ ∃ c ∈ cs.head?, (hexDigit? c).isSome = true) :
    leadingHex cs = [] := by
  cases cs with
  | nil => rfl
  | cons c cs =>
    rw [leadingHex, List.take_succ_cons, List.takeWhile_cons_of_neg]
    exact fun hc => h ⟨c, rfl, hc⟩

/-- An escape that takes in nothing means what it means at the end of a text. -/
theorem escapeInside?_eq (h : ¬ TakesIn (Symbol.escaped c) cs) :
    escapeInside? c cs = escapeInside? c [] := by
  unfold escapeInside?
  split
  · rfl
  · split
    · rename_i hc
      subst hc
      rw [octalDigits_eq_nil fun hdigit => h (.inl ⟨rfl, hdigit⟩)]
      rfl
    · split
      · rename_i hc
        subst hc
        have hhead : ∀ d ∈ cs.head?, ¬ ((hexDigit? d).isSome = true ∨ d = '{') := fun d hd htaken =>
          h (.inr (.inl ⟨rfl, d, hd, htaken⟩))
        have hbrace : cs.head? ≠ some '{' := fun hbrace => hhead '{' hbrace (.inr rfl)
        simp only [leadingHex_eq_nil fun ⟨d, hd, hdigit⟩ => hhead d hd (.inl hdigit), if_neg hbrace]
        rfl
      · split
        · rfl
        · split
          · rename_i hc
            subst hc
            rw [if_neg fun hcaret => h (.inr (.inr ⟨rfl, hcaret⟩))]
            rfl
          · rfl

/-- With nothing behind it, an escape takes in nothing. -/
theorem used_eq_zero {used : Nat} (h : escapeInside? c [] = some (m, used)) : used = 0 := by
  unfold escapeInside? at h
  split_ifs at h with halnum hzero hhex _ hbell hempty
  · cases h; rfl
  · cases h; rfl
  · cases h; rfl
  · cases h; rfl
  · cases h; rfl
  · split at h
    · split_ifs at h
      cases h
      rfl
    · obtain ⟨_, _, heq⟩ := Option.map_eq_some_iff.1 h
      cases heq
      rfl

/-- The member that a symbol is between brackets, if it is one. -/
def inside? (symbol : String) : Option Meaning :=
  match symbol.toList with
  | [c] => if c = '\\' ∨ c = ']' then none else some (.char c)
  | ['\\', c] => (escapeInside? c []).map Prod.fst
  | _ => none

theorem cases_of_inside? {x : String} (h : inside? x = some m) :
    (∃ c, x = String.singleton c ∧ c ≠ '\\' ∧ c ≠ ']' ∧ m = .char c) ∨
      ∃ c, x = Symbol.escaped c ∧ escapeInside? c [] = some (m, 0) := by
  unfold inside? at h
  split at h
  · rename_i c hx
    split_ifs at h with hc
    cases h
    simp only [not_or] at hc
    exact .inl ⟨c, String.toList_injective (by simp [hx]), hc.1, hc.2, rfl⟩
  · rename_i c hx
    obtain ⟨⟨m', used⟩, hescape, rfl⟩ := Option.map_eq_some_iff.1 h
    refine .inr ⟨c, String.toList_injective (by simp [hx, Symbol.escaped]), ?_⟩
    rw [hescape, used_eq_zero hescape]
  · cases h

/-- What can be a member is a character, or an escape. -/
theorem exists_of_isSome_inside? {x : String} (h : (inside? x).isSome = true) :
    (∃ c, x = String.singleton c) ∨ ∃ c, x = Symbol.escaped c := by
  obtain ⟨m, hm⟩ := Option.isSome_iff_exists.1 h
  exact (cases_of_inside? hm).imp (fun ⟨c, hx, _⟩ => ⟨c, hx⟩) fun ⟨c, hx, _⟩ => ⟨c, hx⟩

/-- **A symbol in front of other members is a member of its own**, if it is no hyphen, opens no
    POSIX class and takes in nothing of what is behind it. -/
theorem members?_append {x : String} (hx : inside? x = some m) (hhyphen : x = "-" → cs = [])
    (hposix : x = "[" → opensPosix cs = false) (htakes : ¬ TakesIn x cs) :
    members? (x.toList ++ cs) = (members? cs).map (m :: ·) := by
  rcases cases_of_inside? hx with ⟨c, rfl, hbackslash, hclose, rfl⟩ | ⟨c, rfl, hescape⟩
  · rw [String.toList_singleton, List.singleton_append]
    exact members?_char ⟨hbackslash, hclose⟩ (fun hc => hhyphen (hc ▸ rfl))
      fun hc => hposix (hc ▸ rfl)
  · rw [← escapeInside?_eq htakes] at hescape
    rw [Symbol.escaped, String.toList_ofList, List.cons_append, List.cons_append, List.nil_append,
      members?_escape hescape, List.drop_zero]

/-- A symbol holds no closing bracket that is not escaped. -/
theorem freeOf_of_inside? {x : String} (h : inside? x = some m) : FreeOf (· = ']') x.toList := by
  rcases cases_of_inside? h with ⟨c, rfl, hbackslash, hclose, _⟩ | ⟨c, rfl, _⟩
  · rw [String.toList_singleton]
    exact .single hbackslash hclose .nil
  · rw [Symbol.escaped, String.toList_ofList]
    exact .pair c .nil

end Members

end RegexText.Source
