/-
  RegexText/Text/Escape.lean
  ==========================
  **Reading a text as backslash pairs.**

  A backslash takes the character after it along, so a text is read from left
  to right as pairs and single characters; a backslash at the very end stands
  alone.  A character that is not the second half of a pair is *unescaped*.

  `splitUnescaped` cuts a text at the first unescaped occurrence of a closing
  character, and `protect` puts a backslash before every unescaped occurrence
  of a character.
-/

namespace RegexText.Text

/-- What stands before and after the first unescaped `stop`, or `none` when there
    is no such character. -/
def splitUnescaped (stop : Char) : List Char → Option (List Char × List Char)
  | [] => none
  | ['\\'] => none
  | '\\' :: c :: cs =>
    (splitUnescaped stop cs).map fun (before, after) => ('\\' :: c :: before, after)
  | c :: cs =>
    if c = stop then some ([], cs)
    else (splitUnescaped stop cs).map fun (before, after) => (c :: before, after)

/-- The two parts and the closing character between them make up the text. -/
theorem eq_append_of_splitUnescaped {stop : Char} {cs before after : List Char}
    (h : splitUnescaped stop cs = some (before, after)) : cs = before ++ stop :: after := by
  fun_induction splitUnescaped stop cs generalizing before after with
  | case1 => simp at h
  | case2 => simp at h
  | case3 c cs ih =>
    obtain ⟨⟨b, a⟩, hs, he⟩ := Option.map_eq_some_iff.1 h
    obtain ⟨rfl, rfl⟩ := Prod.mk.inj he
    rw [ih hs]
    rfl
  | case4 cs =>
    obtain ⟨rfl, rfl⟩ := Prod.mk.inj (Option.some.inj h)
    rfl
  | case5 c cs _ _ _ ih =>
    obtain ⟨⟨b, a⟩, hs, he⟩ := Option.map_eq_some_iff.1 h
    obtain ⟨rfl, rfl⟩ := Prod.mk.inj he
    rw [ih hs]
    rfl

/-- Put a backslash before every unescaped `target`. -/
def protect (target : Char) : List Char → List Char
  | [] => []
  | ['\\'] => ['\\']
  | '\\' :: c :: cs => '\\' :: c :: protect target cs
  | c :: cs => if c = target then '\\' :: c :: protect target cs else c :: protect target cs

end RegexText.Text
