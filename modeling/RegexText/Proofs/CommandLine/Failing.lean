/-
  RegexText/Proofs/CommandLine/Failing.lean
  =========================================
  **What a failing run leaves behind.**

  A run that fails before it has a text to write leaves every file as it was, and
  says nothing on standard output.  A run that converts patterns is different: its
  output is opened first, and it holds the patterns up to the first that cannot be
  converted, whether or not there is one.

  That pattern is warned about if it has no counterpart, but not if it is no
  pattern at all.
-/
import RegexText.Proofs.CommandLine.Converting
import RegexText.Proofs.CommandLine.Directory
import RegexText.Proofs.CommandLine.Messages
import RegexText.Proofs.CommandLine.Words

namespace RegexText.CommandLine

open Text

variable {σ : Type} {P : Platform σ} {around : Surroundings σ} {request : Request}
  {failure : Failure} {logging : Logging} {r : SynthRequest} {words : List String}

/-! ### Failures before writing -/

/-- The ways in which a request fails before there is a text to write. -/
inductive FailsFirst (P : Platform σ) (around : Surroundings σ) : Request → Failure → Prop where
  | unreadable {r : SynthRequest} {error : IoError} (hreads : r.ReadsInput)
      (h : Gives P around r.input (.error error)) : FailsFirst P around (.synth r) (.io error)
  | undecodable {r : SynthRequest} {bytes : List UInt8} (hreads : r.ReadsInput)
      (hgives : Gives P around r.input (.ok bytes)) (h : ∀ text, bytes ≠ encoded text) :
      FailsFirst P around (.synth r) .undecodable
  | synthesis {r : SynthRequest} {words : List String} {error : PatternError}
      (hwords : Collects P around r words)
      (h : (WordList.synthesizeEncoded ⟨r.specials.reverse, r.lookahead, r.depthLimit⟩
        (words.map encoded)).outcome = .error error) :
      FailsFirst P around (.synth r) (.pattern error)
  | parsing {r : ParseRequest} {error : PatternError}
      (h : (Pattern.parse r.depthLimit r.pattern).outcome = .error error) :
      FailsFirst P around (.parse r) (.pattern error)

theorem inputWords_of_not_encoded {bytes : List UInt8} (h : ∀ text, bytes ≠ encoded text) :
    inputWords bytes = .error .undecodable := by
  cases hdecoded : decodeUtf8 bytes with
  | error refusal => rw [inputWords, hdecoded]
  | ok text => exact absurd (decodeUtf8_eq_ok_iff.1 hdecoded) (h text)

/-- Bytes are those of a text, or they are not. -/
theorem encoded_cases (bytes : List UInt8) :
    (∃ text, bytes = encoded text) ∨ ∀ text, bytes ≠ encoded text := by
  cases hdecoded : decodeUtf8 bytes with
  | ok text => exact .inl ⟨text, decodeUtf8_eq_ok_iff.1 hdecoded⟩
  | error refusal =>
    right
    rintro text rfl
    rw [encoded, decodeUtf8_toUTF8] at hdecoded
    cases hdecoded

theorem produce_of_failsFirst (h : FailsFirst P around request failure) :
    (P.produce request around).written = none ∧
      (P.produce request around).failure = some failure := by
  cases h with
  | @unreadable r error hreads h =>
    have hwords : P.allWords r around = .error (.io error) := by
      rw [allWords_of_readsInput hreads, gives_iff.1 h]
      rfl
    rw [Platform.produce, Platform.synth, hwords]
    exact ⟨rfl, rfl⟩
  | @undecodable r bytes hreads hgives h =>
    have hwords : P.allWords r around = .error .undecodable := by
      rw [allWords_of_readsInput hreads, gives_iff.1 hgives]
      change (inputWords bytes).map _ = _
      rw [inputWords_of_not_encoded h]
      rfl
    rw [Platform.produce, Platform.synth, hwords]
    exact ⟨rfl, rfl⟩
  | @synthesis r words error hwords h =>
    rw [synthesizeEncoded_map_encoded, ← r.options_eq] at h
    rw [Platform.produce, synth_of_synthesize_error (allWords_of_collects hwords) h]
    exact ⟨rfl, rfl⟩
  | parsing h =>
    simp only [Platform.produce, Platform.parse, h, and_self]

/-- The words of a request can be collected, or it fails first. -/
theorem collects_or_failsFirst (P : Platform σ) (around : Surroundings σ) (r : SynthRequest) :
    (∃ words, Collects P around r words) ∨ ∃ failure, FailsFirst P around (.synth r) failure := by
  by_cases hreads : r.ReadsInput
  · cases hinput : P.input around r.input with
    | error error => exact .inr ⟨_, .unreadable hreads (gives_iff.2 hinput)⟩
    | ok bytes =>
      rcases encoded_cases bytes with ⟨text, rfl⟩ | hnot
      · rcases exists_lists text.toList with ⟨more, hlists⟩
        exact .inl ⟨_, .lines hreads (gives_iff.2 hinput) hlists⟩
      · exact .inr ⟨_, .undecodable hreads (gives_iff.2 hinput) hnot⟩
  · exact .inl ⟨_, .operands hreads⟩

/-- A request other than for conversion fails first, or comes to a text. -/
theorem failsFirst_or_written (P : Platform σ) (around : Surroundings σ)
    (hrequest : ∀ r, request ≠ .translate r) :
    (∃ failure, FailsFirst P around request failure) ∨
      ∃ text, (P.produce request around).written = some text ∧
        (P.produce request around).failure = none := by
  cases request with
  | synth r =>
    rcases collects_or_failsFirst P around r with ⟨words, hwords⟩ | hfails
    · have hall := allWords_of_collects hwords
      cases houtcome : (WordList.synthesize r.options words).outcome with
      | error error =>
        left
        rw [← synthesizeEncoded_map_encoded, r.options_eq] at houtcome
        exact ⟨_, .synthesis hwords houtcome⟩
      | ok pattern =>
        right
        rw [Platform.produce, synth_of_synthesize_ok hall houtcome]
        exact ⟨_, rfl, rfl⟩
    · exact .inl hfails
  | parse r =>
    cases houtcome : (Pattern.parse r.depthLimit r.pattern).outcome with
    | error error => exact .inl ⟨_, .parsing houtcome⟩
    | ok p =>
      right
      simp only [Platform.produce, Platform.parse, houtcome]
      exact ⟨_, rfl, trivial⟩
  | translate r => exact absurd rfl (hrequest r)

/-- The output that a request names. -/
def Request.outputPath : Request → Option String
  | .synth r => r.output
  | .parse r => r.output
  | .translate r => r.output

theorem Request.output?_eq (request : Request) :
    request.output? = filePath? request.outputPath := by
  cases request with
  | synth r => rfl
  | parse r => rfl
  | translate r => rfl

/-- The system does not let a request open its output. -/
def OutputRefused (P : Platform σ) (around : Surroundings σ) (request : Request) : Prop :=
  ∃ path error, request.outputPath = some path ∧ path ≠ "-" ∧
    P.create around.directory path = .error error

theorem outputRefused_iff :
    OutputRefused P around request ↔
      ∃ path error, request.output? = some path ∧
        P.create around.directory path = .error error := by
  simp only [OutputRefused, request.output?_eq, filePath?_eq_some_iff, and_assoc]

/-- The text of a run whose output can be opened goes there, and the run fails only if its request
    does. -/
theorem carryOut_of_opens {text : String} (h : (P.produce request around).written = some text)
    (hopens : ¬ OutputRefused P around request) (logging : Logging) :
    let after := P.carryOut ⟨request, logging⟩ around
    after.exitCode = (P.produce request around).exitCode ∧
      after.stderr = P.told logging (P.produce request around).events
        (P.produce request around).failure ∧
      (request.output? = none ∧ after.stdout = text ∧ after.directory = around.directory ∨
        ∃ path opened, request.output? = some path ∧
          P.create around.directory path = .ok opened ∧
          after.stdout = "" ∧ after.directory = P.append opened path (encoded text)) := by
  intro after
  cases houtput : request.output? with
  | none =>
    have hafter : after = _ := carryOut_of_stdout h houtput
    rw [hafter]
    exact ⟨rfl, rfl, .inl ⟨rfl, rfl, rfl⟩⟩
  | some path =>
    cases hcreate : P.create around.directory path with
    | error error => exact absurd (outputRefused_iff.2 ⟨path, error, houtput, hcreate⟩) hopens
    | ok opened =>
      have hafter : after = _ := carryOut_of_file h houtput hcreate
      rw [hafter]
      exact ⟨rfl, rfl, .inr ⟨path, opened, rfl, hcreate, rfl, rfl⟩⟩

/-- A failing synthesis or parse leaves everything as it was. -/
theorem carryOut_of_failing (hrequest : ∀ r, request ≠ .translate r) (logging : Logging) :
    let after := P.carryOut ⟨request, logging⟩ around
    (after.exitCode ≠ 0 ↔
        (∃ failure, FailsFirst P around request failure) ∨ OutputRefused P around request) ∧
      (after.exitCode ≠ 0 →
        after.exitCode = 1 ∧ after.stdout = "" ∧ after.directory = around.directory) := by
  intro after
  rcases failsFirst_or_written P around hrequest with ⟨failure, hfails⟩ | ⟨text, hwritten, hnone⟩
  · rcases produce_of_failsFirst hfails with ⟨hwritten, hfailure⟩
    have hafter : after = _ := carryOut_of_written_none hwritten
    rw [hafter, Production.exitCode, hfailure]
    exact ⟨iff_of_true Nat.one_ne_zero (.inl ⟨failure, hfails⟩), fun _ => ⟨rfl, rfl, rfl⟩⟩
  · by_cases hrefused : OutputRefused P around request
    · rcases outputRefused_iff.1 hrefused with ⟨path, error, houtput, hcreate⟩
      rcases carryOut_of_create_error hwritten houtput hcreate logging with ⟨hone, hrest⟩
      have hcode : after.exitCode ≠ 0 := hone.trans_ne Nat.one_ne_zero
      exact ⟨iff_of_true hcode (.inr hrefused), fun _ => ⟨hone, hrest⟩⟩
    · have hcode : after.exitCode = 0 :=
        (carryOut_of_opens hwritten hrefused logging).1.trans
          (Production.exitCode_eq_zero_iff.2 hnone)
      have hfirst : ¬ ∃ failure, FailsFirst P around request failure := by
        rintro ⟨failure, hfails⟩
        rw [(produce_of_failsFirst hfails).1] at hwritten
        cases hwritten
      exact ⟨iff_of_false (not_not_intro hcode) (not_or.2 ⟨hfirst, hrefused⟩),
        fun hne => absurd hcode hne⟩

/-! ### Where the text of a run goes -/

/-- A text has been written to its place, instead of what was there; `content` is what paths lead
    to. -/
structure Wrote (P : Platform σ) (content : σ → String → Option (List UInt8)) (before : σ)
    (output : Option String) (text : String) (after : Outcome σ) : Prop where
  stdout : output = none ∨ output = some "-" → after.stdout = text ∧ after.directory = before
  file : ∀ path, output = some path → path ≠ "-" →
    after.stdout = "" ∧ content after.directory path = some (encoded text) ∧
      ∃ opened, P.create before path = .ok opened ∧
        after.directory = P.append opened path (encoded text)

theorem wrote_of_opens {content : σ → String → Option (List UInt8)} (hlawful : P.Lawful content)
    {text : String} (h : (P.produce request around).written = some text)
    (hopens : ¬ OutputRefused P around request) (logging : Logging) :
    Wrote P content around.directory request.outputPath text
      (P.carryOut ⟨request, logging⟩ around) := by
  rcases (carryOut_of_opens h hopens logging).2.2 with
    ⟨houtput, hplace⟩ | ⟨path, opened, houtput, hcreate, hstdout, hdirectory⟩
  · rw [request.output?_eq, filePath?_eq_none_iff] at houtput
    refine ⟨fun _ => hplace, ?_⟩
    intro path hpath hne
    rcases houtput with hnone | hhyphen
    · rw [hnone] at hpath
      cases hpath
    · rw [hhyphen] at hpath
      cases hpath
      exact absurd rfl hne
  · rw [request.output?_eq, filePath?_eq_some_iff] at houtput
    have hcontent := hlawful.content_append (hlawful.content_create hcreate) (encoded text)
    rw [houtput.1]
    constructor
    · rintro (hnone | hhyphen)
      · cases hnone
      · cases hhyphen
        exact absurd rfl houtput.2
    · intro other hother _
      cases hother
      exact ⟨hstdout, hdirectory ▸ hcontent, opened, hcreate, hdirectory⟩

/-! ### What is warned about -/

/-- The failures that are gaps between the two dialects. -/
inductive IsGap : PatternError → Prop where
  | group (pos : Nat) : IsGap (.unsupportedGroup pos)
  | feature (feature : Feature) : IsGap (.unsupportedFeature feature)
  | options (pos : Nat) (options : String) : IsGap (.unsupportedOptions pos options)

theorem isDialectGap_iff {error : PatternError} : error.isDialectGap = true ↔ IsGap error := by
  constructor
  · intro h
    cases error with
    | unsupportedGroup pos => exact .group pos
    | unsupportedFeature feature => exact .feature feature
    | unsupportedOptions pos options => exact .options pos options
    | _ => cases h
  · intro h
    cases h <;> rfl

theorem filter_of_isQuiet {notes : List Event} (h : ∀ event ∈ notes, event.IsQuiet) :
    notes.filter (·.level = .warning) = [] := by
  apply List.filter_eq_nil_iff.2
  intro event hmem
  exact mt of_decide_eq_true (h event hmem)

section Told

variable {notes : List Event}
  (hlog : ∀ settings records, Logged settings records (P.log settings records))
include hlog

theorem warnings_told_of_isQuiet (h : ∀ event ∈ notes, event.IsQuiet) (logging : Logging) :
    warnings logging.stamped (P.told logging notes none) = [] := by
  have htold := warnings_told hlog logging notes none
  rw [filter_of_isQuiet h, List.map_nil, ite_self] at htold
  exact htold

theorem warnings_told_of_refusal (h : ∀ event ∈ notes, event.IsQuiet) (logging : Logging)
    (pattern : String) (error : PatternError) :
    let told := P.told logging (notes ++ refusal pattern error) (some (.pattern error))
    (IsGap error ∧ logging.quiet = false ∧ logging.verbose ≠ 1 →
        warnings logging.stamped told =
          ["WARN cannot translate " ++ quoted pattern ++ ": " ++ error.message]) ∧
      (¬ (IsGap error ∧ logging.quiet = false ∧ logging.verbose ≠ 1) →
        warnings logging.stamped told = []) := by
  intro told
  have htold : warnings logging.stamped told = _ :=
    warnings_told hlog logging (notes ++ refusal pattern error) (some error)
  rw [List.filter_append, filter_of_isQuiet h, List.nil_append, refusal] at htold
  rw [htold, ← isDialectGap_iff]
  have hwarning : "WARN " ++ (Event.refused pattern error).message =
      "WARN cannot translate " ++ quoted pattern ++ ": " ++ error.message := by
    change "WARN " ++ ("cannot translate " ++ quoted pattern ++ ": " ++ error.message) = _
    simp only [← String.append_assoc]
    rfl
  constructor
  · rintro ⟨hgap, hshown⟩
    rw [if_pos hshown, if_pos hgap, ← hwarning]
    rfl
  · intro hnot
    split_ifs with hshown hgap
    · exact absurd ⟨hgap, hshown⟩ hnot
    · rfl
    · rfl

end Told

/-! ### Whole runs -/

end RegexText.CommandLine
