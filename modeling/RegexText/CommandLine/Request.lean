/-
  RegexText/CommandLine/Request.lean
  ==================================
  **What a run is asked to do, and what it is to tell.**

  A request is what remains of the arguments once they have been read: nothing
  in it depends on how they were spelled.  Beside it stands what to tell about
  the run.  A count of flags becomes a level of importance here, and the logger
  is told that level.
-/
import RegexText.Conversion
import RegexText.WordList

namespace RegexText.CommandLine

/-! ### Telling about a run -/

/-- What to tell about a run besides its result. -/
structure Logging where
  quiet : Bool
  /-- How often more detail was asked for. -/
  verbose : Nat
  /-- Does the time stand before every message? -/
  stamped : Bool
deriving DecidableEq, Repr

/-- How often more detail was asked for, or else the usual verbosity. -/
def Logging.verbosity (logging : Logging) (usual : Nat) : Nat :=
  if logging.verbose = 0 then usual else logging.verbose

/-- The least important level that a verbosity shows, if it shows any. -/
def levelFor : Nat → Option Level
  | 0 => none
  | 1 => some .error
  | 2 => some .warning
  | 3 => some .info
  | 4 => some .debug
  | _ => some .trace

/-- What a logger is told before it is used. -/
structure LogSettings where
  quiet : Bool
  /-- The least important level that is shown, if any is. -/
  level : Option Level
  stamped : Bool
deriving DecidableEq, Repr

/-- The verbosity of every subcommand when no more detail was asked for: warnings are shown. -/
def usualVerbosity : Nat := 2

def Logging.settings (logging : Logging) : LogSettings :=
  ⟨logging.quiet, levelFor (logging.verbosity usualVerbosity), logging.stamped⟩

/-! ### Requests -/

/-- Synthesize an expression for the given words and those of the input. -/
structure SynthRequest where
  words : List String
  specials : List (Char × String)
  lookahead : Bool
  depthLimit : Nat
  input : Option String
  output : Option String
deriving DecidableEq, Repr

/-- Show how a pattern is taken apart. -/
structure ParseRequest where
  pattern : String
  json : Bool
  depthLimit : Nat
  output : Option String
deriving DecidableEq, Repr

/-- Convert patterns, one after the other. -/
structure TranslateRequest where
  patterns : List String
  json : Bool
  output : Option String
deriving DecidableEq, Repr

inductive Request where
  | synth (request : SynthRequest)
  | parse (request : ParseRequest)
  | translate (request : TranslateRequest)
deriving DecidableEq, Repr

/-- A request, and what to tell about it. -/
structure Invocation where
  request : Request
  logging : Logging
deriving DecidableEq, Repr

/-- What a run comes to when its arguments make no request: help, or a complaint. -/
structure Stop where
  exitCode : Nat
  stdout : String
  stderr : String
deriving DecidableEq, Repr

end RegexText.CommandLine
