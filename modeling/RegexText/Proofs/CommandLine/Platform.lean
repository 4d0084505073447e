/-
  RegexText/Proofs/CommandLine/Platform.lean
  ==========================================
  **What loggers and files are documented to do.**

  The program relies on little.  Every message that the settings show stands on a
  line of its own, behind a stamp if the time is wanted.  A file that has just
  been opened for writing is empty, and what is written to it comes behind what it
  holds.
-/
import RegexText.CommandLine.Platform

namespace RegexText.CommandLine

variable {σ : Type}

/-! ### Logs -/

/-- Is a message of some level to be shown? -/
def LogSettings.Shows (settings : LogSettings) (level : Level) : Prop :=
  settings.quiet = false ∧ ∃ least ∈ settings.level, level.verbosity ≤ least.verbosity

instance (settings : LogSettings) (level : Level) : Decidable (settings.Shows level) :=
  inferInstanceAs (Decidable (_ ∧ _))

/-- What stands before a message: one word and a blank if the time is wanted. -/
inductive Stamp : Bool → String → Prop where
  | absent : Stamp false ""
  | time {word : String} (hblank : ' ' ∉ word.toList) (hline : '\n' ∉ word.toList) :
      Stamp true (word ++ " ")

/-- The text that a logger makes of some records. -/
inductive Logged (settings : LogSettings) : List Record → String → Prop where
  | nil : Logged settings [] ""
  | hidden {record : Record} {records : List Record} {text : String}
      (h : ¬ settings.Shows record.level) (hrest : Logged settings records text) :
      Logged settings (record :: records) text
  | shown {record : Record} {records : List Record} {stamp text : String}
      (h : settings.Shows record.level) (hstamp : Stamp settings.stamped stamp)
      (hrest : Logged settings records text) :
      Logged settings (record :: records)
        (stamp ++ record.level.label ++ " " ++ record.message ++ "\n" ++ text)

/-! ### Platforms -/

/-- A platform keeps to its documentation; `content` is what the paths of a state lead to. -/
structure Platform.Lawful (P : Platform σ) (content : σ → String → Option (List UInt8)) : Prop where
  logged : ∀ settings records, Logged settings records (P.log settings records)
  content_create : ∀ {directory opened : σ} {path : String},
    P.create directory path = .ok opened → content opened path = some []
  content_append : ∀ {directory : σ} {path : String} {held : List UInt8},
    content directory path = some held →
      ∀ bytes, content (P.append directory path bytes) path = some (held ++ bytes)

end RegexText.CommandLine
