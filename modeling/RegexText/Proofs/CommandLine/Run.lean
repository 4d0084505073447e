/-
  RegexText/Proofs/CommandLine/Run.lean
  =====================================
  **What a run leaves, from what its request comes to.**

  A request comes to a text or to none, and to a failure or to none; the run only
  brings the text to its place.  The equations below say where that is, so that
  statements about single subcommands need not look into the run.  They hold on
  every platform.

  What is told on standard error depends on the verbosity, and nothing else does.
-/
import RegexText.CommandLine.Program

namespace RegexText.CommandLine

variable {σ : Type} {P : Platform σ} {request request' : Request} {logging : Logging}
  {around around' : Surroundings σ} {text path : String}

theorem run_of_arguments {arguments : List String} {invocation : Invocation}
    (h : P.arguments arguments = .ok invocation) (around : Surroundings σ) :
    P.run arguments around = P.carryOut invocation around := by
  rw [Platform.run, h]

/-! ### Codes and places -/

def Production.exitCode (p : Production) : Nat := if p.failure.isSome then 1 else 0

theorem Production.exitCode_eq_zero_iff {p : Production} : p.exitCode = 0 ↔ p.failure = none := by
  cases h : p.failure with
  | none => simp [exitCode, h]
  | some failure => simp [exitCode, h]

/-- A standard stream is meant where there is no path, and where there is a hyphen. -/
theorem filePath?_eq_none_iff {path : Option String} :
    filePath? path = none ↔ path = none ∨ path = some "-" := by
  cases path with
  | none => exact iff_of_true rfl (.inl rfl)
  | some file => simp [filePath?]

theorem filePath?_eq_some_iff {path : Option String} {file : String} :
    filePath? path = some file ↔ path = some file ∧ file ≠ "-" := by
  simp [filePath?, Option.filter_eq_some_iff]

/-! ### Where the text goes -/

/-- Where there is no text, nothing is touched. -/
theorem carryOut_of_written_none (h : (P.produce request around).written = none) :
    P.carryOut ⟨request, logging⟩ around =
      ⟨(P.produce request around).exitCode, "",
        P.told logging (P.produce request around).events (P.produce request around).failure,
        around.directory⟩ := by
  simp only [Platform.carryOut, h]
  rfl

theorem carryOut_of_stdout (h : (P.produce request around).written = some text)
    (houtput : request.output? = none) :
    P.carryOut ⟨request, logging⟩ around =
      ⟨(P.produce request around).exitCode, text,
        P.told logging (P.produce request around).events (P.produce request around).failure,
        around.directory⟩ := by
  simp only [Platform.carryOut, h, houtput]
  rfl

theorem carryOut_of_file (h : (P.produce request around).written = some text)
    (houtput : request.output? = some path) {opened : σ}
    (hopen : P.create around.directory path = .ok opened) :
    P.carryOut ⟨request, logging⟩ around =
      ⟨(P.produce request around).exitCode, "",
        P.told logging (P.produce request around).events (P.produce request around).failure,
        P.append opened path (encoded text)⟩ := by
  simp only [Platform.carryOut, h, houtput, hopen]
  rfl

/-- An output that cannot be opened stays as it is. -/
theorem carryOut_of_create_error (h : (P.produce request around).written = some text)
    (houtput : request.output? = some path) {error : IoError}
    (hopen : P.create around.directory path = .error error) (logging : Logging) :
    let after := P.carryOut ⟨request, logging⟩ around
    after.exitCode = 1 ∧ after.stdout = "" ∧ after.directory = around.directory := by
  simp only [Platform.carryOut, h, houtput, hopen, and_self]

/-- Requests that come to the same and have the same output leave the same, whatever is told about
    them. -/
theorem carryOut_congr (logging logging' : Logging)
    (hproduce : P.produce request around = P.produce request' around')
    (houtput : request.output? = request'.output?)
    (hdirectory : around.directory = around'.directory) :
    let left := P.carryOut ⟨request, logging⟩ around
    let left' := P.carryOut ⟨request', logging'⟩ around'
    left.exitCode = left'.exitCode ∧ left.stdout = left'.stdout ∧
      left.directory = left'.directory := by
  intro left left'
  simp only [left, left', Platform.carryOut, hproduce, houtput, hdirectory]
  cases (P.produce request' around').written with
  | none => exact ⟨rfl, rfl, rfl⟩
  | some text =>
    cases request'.output? with
    | none => exact ⟨rfl, rfl, rfl⟩
    | some path =>
      dsimp only
      cases P.create around'.directory path with
      | error error => exact ⟨rfl, rfl, rfl⟩
      | ok opened => exact ⟨rfl, rfl, rfl⟩

end RegexText.CommandLine
