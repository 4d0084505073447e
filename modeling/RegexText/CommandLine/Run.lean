/-
  RegexText/CommandLine/Run.lean
  ==============================
  **Runs of the program on the standard platform.**

  The standard platform reads arguments in the usual style, keeps its files in a
  directory, and logs every message on a line of its own.
-/
import RegexText.CommandLine.Arguments
import RegexText.CommandLine.Directory

namespace RegexText.CommandLine

/-- Is a message of some level shown? -/
def LogSettings.shows (settings : LogSettings) (level : Level) : Bool :=
  match settings.level with
  | some least => !settings.quiet && level.verbosity ≤ least.verbosity
  | none => false

/-- The line for a record. -/
def LogSettings.line (settings : LogSettings) (time : String) (record : Record) : String :=
  (if settings.stamped then time ++ " " else "") ++ record.level.label ++ " " ++ record.message

/-- The lines for the records that are shown. -/
def LogSettings.lines (settings : LogSettings) (time : String) (records : List Record) : String :=
  unlines ((records.filter fun record => settings.shows record.level).map (settings.line time))

/-- Arguments, messages and JSON as usual, with files that are read and written so. -/
def platform {σ : Type} (time : String) (read : σ → String → Except IoError (List UInt8))
    (create : σ → String → Except IoError σ) (append : σ → String → List UInt8 → σ) :
    Platform σ where
  arguments := Invocation.ofArguments
  log settings records := settings.lines time records
  compact := Json.compact
  indented := Json.indented 0
  read := read
  create := create
  append := append

/-- The usual platform with the files of a directory. -/
def standard (time : String) : Platform Directory :=
  platform time Directory.read Directory.create Directory.append

/-- The time that stands before messages where there is no clock. -/
def epoch : String := "1970-01-01T00:00:00+00:00"

/-- Run the program. -/
def run (arguments : List String) (around : Surroundings Directory) : Outcome Directory :=
  (standard epoch).run arguments around

end RegexText.CommandLine
