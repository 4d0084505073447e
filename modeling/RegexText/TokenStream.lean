/-
  RegexText/TokenStream.lean
  ==========================
  **The tokens of a pattern body.**

  The lexemes of a body are read once, from left to right, with the groups that
  are still open on a stack.  A closing parenthesis ends the innermost open
  group, and the two ends are then linked.  The first lexeme that does not fit
  ends the reading; only a body that fits as a whole can still leave groups
  open, and the outermost of them is the one reported.

  Option settings open no group and do not count against the nesting limit.
-/
import RegexText.Lexeme
import RegexText.Traced

namespace RegexText

open Text

/-- How deep groups may nest when nothing else is said. -/
def defaultGroupDepth : Nat := 256

namespace TokenStream

/-- A group whose end has not been seen: the index of its start token, its kind, and
    the offset of its parenthesis. -/
structure OpenGroup where
  startToken : Nat
  kind : GroupKind
  pos : Nat
deriving DecidableEq, Repr

/-- What has been read so far: the offset of the next lexeme, the tokens, and the open
    groups, innermost first. -/
structure State where
  pos : Nat
  tokens : Array Token
  openGroups : List OpenGroup
deriving Repr

namespace State

def initial : State := ⟨0, #[], []⟩

/-- Step over a lexeme that is no token. -/
def skip (s : State) (l : Lexeme) : State := { s with pos := s.pos + byteLength l.text }

/-- Step over a lexeme that is a token. -/
def emit (s : State) (l : Lexeme) (item : TokenItem) : State :=
  { s with
    pos := s.pos + byteLength l.text
    tokens := s.tokens.push ⟨s.pos, byteLength l.text, item⟩ }

end State

/-- Tell a start token where its group ends. -/
def link (endToken : Nat) (t : Token) : Token :=
  match t.item with
  | .groupStart opener _ => { t with item := .groupStart opener endToken }
  | _ => t

/-- Read one lexeme, with at most `limit` groups open at a time. -/
def step (limit : Nat) (s : State) (l : Lexeme) : Except PatternError State :=
  match l with
  | .plain _ => .ok (s.skip l)
  | .escaped _ => .ok (s.skip l)
  | .loneBackslash => .ok (s.skip l)
  | .bracket content quantifiers =>
    .ok (s.emit l (.characterClass (String.ofList content) (String.ofList quantifiers)))
  | .optionSetting options => .ok (s.emit l (.optionGroup (String.ofList options)))
  | .opener opener _ =>
    if limit ≤ s.openGroups.length then .error (.nestingTooDeep limit)
    else
      .ok { s.emit l (.groupStart opener 0) with
        openGroups := ⟨s.tokens.size, opener.kind, s.pos⟩ :: s.openGroups }
  | .closer quantifiers =>
    match s.openGroups with
    | [] => .error (.unbalancedGroup s.pos .closing)
    | group :: enclosing =>
      let linked := { s with
        tokens := s.tokens.modify group.startToken (link s.tokens.size)
        openGroups := enclosing }
      .ok (linked.emit l (.groupEnd group.kind group.startToken (String.ofList quantifiers)))
  | .unclosedBracket _ => .error (.malformedClass s.pos)
  | .unknownGroup _ => .error (.unsupportedGroup s.pos)

/-- What is noted about a lexeme at an offset. -/
def eventFor? (pos : Nat) : Lexeme → Option Event
  | .optionSetting options => some (.optionSetting (String.ofList options) pos)
  | .opener opener _ => some (.groupOpened opener pos)
  | _ => none

def read (limit : Nat) (s : State) : List Lexeme → Traced State
  | [] => pure s
  | l :: ls =>
    match eventFor? s.pos l with
    | none =>
      match step limit s l with
      | .ok s => read limit s ls
      | .error e => Traced.fail e
    | some event => do
      Traced.note event
      match step limit s l with
      | .ok s => read limit s ls
      | .error e => Traced.fail e

/-- The outcome of reading is that of the steps, one after the other. -/
theorem outcome_read (limit : Nat) (s : State) (ls : List Lexeme) :
    (read limit s ls).outcome = ls.foldlM (step limit) s := by
  induction ls generalizing s with
  | nil => rfl
  | cons l ls ih =>
    rw [List.foldlM_cons]
    unfold read
    split
    · cases step limit s l with
      | error e => rfl
      | ok s => exact ih s
    · rw [Traced.outcome_bind]
      cases step limit s l with
      | error e => rfl
      | ok s => exact ih s

/-- The tokens, once every group has ended. -/
def finish (s : State) : Except PatternError (List Token) :=
  match s.openGroups.getLast? with
  | some outermost => .error (.unbalancedGroup outermost.pos .opening)
  | none => .ok s.tokens.toList

end TokenStream

/-- The tokens of a body in which at most `limit` groups may be open at a time. -/
def tokenize (limit : Nat) (body : List Char) : Traced (List Token) := do
  let s ← TokenStream.read limit .initial (Lexeme.ofBody body)
  match TokenStream.finish s with
  | .ok tokens => pure tokens
  | .error e => Traced.fail e

/-- The outcome of cutting a body into tokens, without the events on the way. -/
theorem outcome_tokenize (limit : Nat) (body : List Char) :
    (tokenize limit body).outcome =
      ((Lexeme.ofBody body).foldlM (TokenStream.step limit) .initial >>= TokenStream.finish) := by
  unfold tokenize
  rw [Traced.outcome_bind, TokenStream.outcome_read]
  congr 1
  funext s
  cases TokenStream.finish s <;> rfl

end RegexText
