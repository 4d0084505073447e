/-
  RegexText/Proofs/Conversion/Events.lean
  =======================================
  **A conversion tells what it does, but never warns.**

  The events of a conversion are those of its parts: of the lexemes that are read,
  of the tokens, and of the literal text between them.  Warning about a pattern
  that has no counterpart is left to whoever asked for the conversion.
-/
import RegexText.Conversion
import RegexText.Proofs.Traced

namespace RegexText

open Text

/-- Is an event not a warning? -/
def Event.IsQuiet (event : Event) : Prop := event.level ≠ .warning

/-! ### Parsing -/

theorem TokenStream.notesOnly_read (limit : Nat) (s : State) (ls : List Lexeme) :
    (read limit s ls).NotesOnly Event.IsQuiet := by
  induction ls generalizing s with
  | nil => exact .pure s
  | cons l ls ih =>
    have hquiet : ∀ event, eventFor? s.pos l = some event → event.IsQuiet := by
      intro event hevent
      cases l <;> cases hevent <;> nofun
    unfold read
    cases step limit s l with
    | error e =>
      split
      · exact .fail e
      · rename_i event hevent
        exact .bind (.note (hquiet event hevent)) fun _ => .fail e
    | ok next =>
      split
      · exact ih next
      · rename_i event hevent
        exact .bind (.note (hquiet event hevent)) fun _ => ih next

theorem notesOnly_tokenize (limit : Nat) (body : List Char) :
    (tokenize limit body).NotesOnly Event.IsQuiet := by
  apply Traced.NotesOnly.bind (TokenStream.notesOnly_read limit _ _)
  intro s
  cases TokenStream.finish s with
  | error e => exact .fail e
  | ok tokens => exact .pure tokens

theorem Pattern.notesOnly_parse (limit : Nat) (pattern : String) :
    (Pattern.parse limit pattern).NotesOnly Event.IsQuiet := by
  unfold Pattern.parse
  cases splitDelimiters pattern.toList with
  | error fault => exact .fail _
  | ok parts => exact .bind (notesOnly_tokenize limit _) fun tokens => .pure _

/-! ### Literal text and tokens -/

theorem CategoryEscape.notesOnly_expand (inClass dotAll : Bool) (cs : List Char) :
    (expand inClass dotAll cs).NotesOnly Event.IsQuiet := by
  fun_induction expand inClass dotAll cs with
  | case1 => exact .pure _
  | case2 => exact .pure _
  | case3 c cs hp feature hread => exact .fail _
  | case4 c cs hp escape rest hread ih =>
    refine .bind (.note nofun) fun _ => ?_
    refine .bind (.note nofun) fun _ => ?_
    exact .bind ih fun later => .pure _
  | case5 c cs hp ih => exact .bind ih fun later => .pure _
  | case6 c cs hlone hescape ih => exact .bind ih fun later => .pure _

namespace Conversion

theorem notesOnly_convertLiteral (dotAll : Bool) (captures : Captures) (text : List Char) :
    (convertLiteral dotAll captures text).NotesOnly Event.IsQuiet := by
  fun_induction convertLiteral dotAll captures text with
  | case1 => exact CategoryEscape.notesOnly_expand false dotAll _
  | case2 => exact .fail _
  | case3 => exact .fail _
  | case4 text before letter after hsplit reference spelling rest hread number hnumber ih =>
    refine .bind (.note nofun) fun _ => ?_
    apply Traced.NotesOnly.bind (CategoryEscape.notesOnly_expand false dotAll before)
    intro front
    exact .bind ih fun back => .pure _

theorem notesOnly_convertToken (t : Token) : (convertToken t).NotesOnly Event.IsQuiet := by
  unfold convertToken
  split
  · exact .fail _
  · exact .bind (CategoryEscape.notesOnly_expand true false _) fun inner => .pure _
  · split
    · exact .pure _
    · exact .fail _
  · exact .pure _

theorem notesOnly_convertTokens (dotAll : Bool) (captures : Captures) (pos : Nat)
    (rest : List Char) (ts : List Token) :
    (convertTokens dotAll captures pos rest ts).NotesOnly Event.IsQuiet := by
  induction ts generalizing captures pos rest with
  | nil => exact .bind (notesOnly_convertLiteral dotAll captures rest) fun text => .pure _
  | cons t ts ih =>
    apply Traced.NotesOnly.bind (notesOnly_convertLiteral dotAll captures _)
    intro before
    apply Traced.NotesOnly.bind (notesOnly_convertToken t)
    intro token
    exact .bind (ih _ _ _) fun later => .pure _

end Conversion

/-! ### Whole patterns -/

theorem Pattern.notesOnly_convert (p : Pattern) : p.convert.NotesOnly Event.IsQuiet := by
  unfold Pattern.convert
  split
  · exact .fail _
  · apply Traced.NotesOnly.bind (Conversion.notesOnly_convertTokens _ _ _ _ _)
    intro text
    exact .bind (.note nofun) fun _ => .pure _

/-- **No event of a conversion is a warning.** -/
theorem notesOnly_convertPattern (limit : Nat) (pattern : String) :
    (convertPattern limit pattern).NotesOnly Event.IsQuiet :=
  .bind (Pattern.notesOnly_parse limit pattern) Pattern.notesOnly_convert

end RegexText
