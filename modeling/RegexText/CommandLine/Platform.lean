/-
  RegexText/CommandLine/Platform.lean
  ===================================
  **What the program stands on.**

  Reading arguments, logging, writing JSON and keeping files is the work of
  others.  The program is written for any platform that does it, and a platform
  says no more about this work than the program needs: what comes back when it
  asks for something.
-/
import RegexText.CommandLine.Json
import RegexText.CommandLine.Request

namespace RegexText.CommandLine

/-- Why the system refuses something. -/
structure IoError where
  code : Nat
  kind : String
  message : String
deriving DecidableEq, Repr

/-- A message on its way to the logger. -/
structure Record where
  level : Level
  message : String
deriving DecidableEq, Repr

/-- A platform whose files are in states of type `σ`. -/
structure Platform (σ : Type) where
  /-- The invocation that some arguments spell, or what to stop with. -/
  arguments : List String → Except Stop Invocation
  /-- What a logger shows of some records. -/
  log : LogSettings → List Record → String
  /-- A JSON value on one line. -/
  compact : Json → String
  /-- A JSON value on indented lines. -/
  indented : Json → String
  /-- The bytes of a file. -/
  read : σ → String → Except IoError (List UInt8)
  /-- Open a file for writing: it is emptied, or created. -/
  create : σ → String → Except IoError σ
  /-- Write bytes to a file that is open, behind what it holds. -/
  append : σ → String → List UInt8 → σ

/-- What a run finds when it starts. -/
structure Surroundings (σ : Type) where
  stdin : Except IoError (List UInt8)
  directory : σ

/-- Bytes stand for a reading that went well. -/
instance : Coe (List UInt8) (Except IoError (List UInt8)) := ⟨.ok⟩

end RegexText.CommandLine
