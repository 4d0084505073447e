/-
  RegexText/Traced.lean
  =====================
  **Computations that may fail and that leave a trail of events.**

  A traced computation has an outcome and the events that were noted on the way
  to it, in order; a failure keeps the events noted before it.  The outcome of a
  composite computation depends on the outcomes of its parts only, so reasoning
  about results never meets an event.
-/
import RegexText.Error
import RegexText.Token

namespace RegexText

open Text

/-! ### Events -/

/-- How important an event is, the most important first. -/
inductive Level where
  | error | warning | info | debug | trace
deriving DecidableEq, Repr

namespace Level

def verbosity : Level → Nat
  | .error => 1
  | .warning => 2
  | .info => 3
  | .debug => 4
  | .trace => 5

def label : Level → String
  | .error => "ERROR"
  | .warning => "WARN"
  | .info => "INFO"
  | .debug => "DEBUG"
  | .trace => "TRACE"

end Level

/-- Something worth telling while the library works. -/
inductive Event where
  /-- Several chains are about to be merged. -/
  | merging (chains depth : Nat)
  /-- Several two-atom chains end in the same atom and are merged on their own. -/
  | sharedTail (chains : Nat) (tail : String)
  /-- A pattern for a word list is complete. -/
  | synthesized (pattern : String) (words : Nat)
  | optionSetting (options : String) (pos : Nat)
  /-- A group opens at an offset. -/
  | groupOpened (opener : Opener) (pos : Nat)
  /-- A category escape is about to be expanded. -/
  | unfolding (escape : String)
  /-- The table of general categories is consulted. -/
  | categoryTable
  /-- A backreference has been resolved. -/
  | backreference (text : String) (group : Nat)
  /-- A pattern has been converted. -/
  | converted (body pattern : String)
  /-- The words of a run have been collected. -/
  | collected (words : Nat)
  /-- A pattern of a run has no counterpart in the target dialect. -/
  | refused (pattern : String) (error : PatternError)
deriving DecidableEq, Repr

namespace Event

def level : Event → Level
  | .refused _ _ => .warning
  | .collected _ => .info
  | .synthesized _ _ => .debug
  | .categoryTable => .debug
  | .converted _ _ => .debug
  | _ => .trace

/-- The wording for a group that opens at an offset. -/
def openedMessage (opener : Opener) (pos : Nat) : String :=
  match opener with
  | .capturing none => s!"capturing group at {pos}"
  | .capturing (some name) => "named capture " ++ quoted name ++ s!" at {pos}"
  | .nonCapturing _ => s!"non-capturing group at {pos}"
  | .atomic => s!"atomic group at {pos}"
  | .assertion _ _ => opener.kind.name ++ s!" assertion at {pos}"

def message : Event → String
  | .merging chains depth => s!"merging {chains} chains at depth {depth}"
  | .sharedTail chains tail => s!"merging {chains} chains sharing tail " ++ quoted tail
  | .synthesized pattern words => "synthesized " ++ quoted pattern ++ s!" from {words} words"
  | .optionSetting options pos => "option setting " ++ quoted options ++ s!" at {pos}"
  | .groupOpened opener pos => openedMessage opener pos
  | .unfolding escape => "unfolding " ++ quoted escape
  | .categoryTable => "building BMP general category table"
  | .backreference text group => "backreference " ++ quoted text ++ s!" is group {group}"
  | .converted body pattern => "translated " ++ quoted body ++ " to " ++ quoted pattern
  | .collected words => s!"synthesizing from {words} words"
  | .refused pattern error => "cannot translate " ++ quoted pattern ++ ": " ++ error.message

end Event

/-! ### Traced computations -/

/-- An outcome, and the events noted on the way to it. -/
structure Traced (α : Type) where
  events : List Event
  outcome : Except PatternError α

namespace Traced

variable {α β : Type}

@[ext] theorem ext {x y : Traced α} (he : x.events = y.events) (ho : x.outcome = y.outcome) :
    x = y := by
  cases x
  cases y
  simp_all

def value (a : α) : Traced α := ⟨[], .ok a⟩

def fail (e : PatternError) : Traced α := ⟨[], .error e⟩

def note (e : Event) : Traced Unit := ⟨[e], .ok ()⟩

/-- Go on with a value, if there is one. -/
def andThen (x : Traced α) (f : α → Traced β) : Traced β :=
  match x.outcome with
  | .ok a => ⟨x.events ++ (f a).events, (f a).outcome⟩
  | .error e => ⟨x.events, .error e⟩

instance : Monad Traced where
  pure := value
  bind := andThen

/-- The outcome as a value, so that a failure does not end the computation. -/
def attempt (x : Traced α) : Traced (Except PatternError α) := ⟨x.events, .ok x.outcome⟩

/-! ### Outcomes of composite computations -/

@[simp] theorem outcome_pure (a : α) : (pure a : Traced α).outcome = .ok a := rfl

@[simp] theorem outcome_fail (e : PatternError) : (fail e : Traced α).outcome = .error e := rfl

@[simp] theorem outcome_note (e : Event) : (note e).outcome = .ok () := rfl

@[simp] theorem outcome_attempt (x : Traced α) : x.attempt.outcome = .ok x.outcome := rfl

@[simp] theorem outcome_bind (x : Traced α) (f : α → Traced β) :
    (x >>= f).outcome = x.outcome >>= fun a => (f a).outcome := by
  obtain ⟨events, outcome⟩ := x
  cases outcome <;> rfl

@[simp] theorem events_note_bind (e : Event) (f : Unit → Traced β) :
    (note e >>= f).events = e :: (f ()).events := rfl

instance : LawfulMonad Traced := LawfulMonad.mk' Traced
  (by
    intro α x
    obtain ⟨events, outcome⟩ := x
    cases outcome <;> simp [Functor.map, andThen, value])
  (by
    intro α β a f
    apply ext <;> simp [bind, pure, andThen, value])
  (by
    intro α β γ x f g
    obtain ⟨events, outcome⟩ := x
    cases outcome with
    | error e => simp [bind, andThen]
    | ok a =>
      cases h : (f a).outcome <;> simp [bind, andThen, h])

end Traced

end RegexText
