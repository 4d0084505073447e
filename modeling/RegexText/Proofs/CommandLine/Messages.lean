/-
  RegexText/Proofs/CommandLine/Messages.lean
  ==========================================
  **Every message is one line.**

  Messages quote what a pattern says, and the quoted form of a text holds no line
  break.  So nothing that a pattern says can look like a message of its own, and
  the warnings among the events of a run are the warnings among its lines.
-/
import RegexText.Proofs.CommandLine.Lines
import RegexText.Proofs.CommandLine.Platform
import RegexText.Proofs.Translation

namespace RegexText.CommandLine

open Text

/-! ### Single lines -/

def OneLine (text : String) : Prop := '\n' ∉ text.toList

instance (text : String) : Decidable (OneLine text) := inferInstanceAs (Decidable (_ ∉ _))

theorem oneLine_append {a b : String} : OneLine (a ++ b) ↔ OneLine a ∧ OneLine b := by
  rw [OneLine, String.toList_append, List.mem_append, not_or]
  rfl

theorem oneLine_toString (n : Nat) : OneLine (toString n) := by
  intro hmem
  have hdigits : '\n' ∈ Nat.toDigits 10 n := by simpa using hmem
  exact absurd (Nat.isDigit_of_mem_toDigits (by decide) (by decide) hdigits) (by decide)

theorem newline_not_mem_hexDigits (n : Nat) : '\n' ∉ hexDigits n := by
  intro hmem
  rcases Source.exists_of_mem_hexDigits n hmem with ⟨k, hk, heq⟩
  exact absurd heq.symm ((by decide : ∀ k < 16, Nat.digitChar k ≠ '\n') k hk)

theorem newline_not_mem_quotedChar {quote : Char} (hquote : quote ≠ '\n') (c : Char) :
    '\n' ∉ quotedChar quote c := by
  unfold quotedChar
  split_ifs with hzero htab hreturn hnewline hself hshown
  · decide
  · decide
  · decide
  · decide
  · rcases hself with rfl | rfl
    · decide
    · simpa using Ne.symm hquote
  · simpa using Ne.symm hnewline
  · simp [newline_not_mem_hexDigits]

theorem oneLine_quoted (text : String) : OneLine (quoted text) := by
  rw [OneLine, quoted, String.toList_ofList]
  simp [newline_not_mem_quotedChar]

theorem oneLine_quotedSingle (c : Char) : OneLine (quotedSingle c) := by
  rw [OneLine, quotedSingle, String.toList_ofList]
  simp [newline_not_mem_quotedChar]

/-! ### Messages -/

theorem oneLine_refusal (refusal : Utf8Refusal) : OneLine refusal.message := by
  unfold Utf8Refusal.message
  cases refusal <;> simp +decide only [oneLine_append, oneLine_toString]

theorem oneLine_fault (fault : DelimiterFault) : OneLine fault.message := by
  unfold DelimiterFault.message
  cases fault <;> simp +decide only [oneLine_append, oneLine_quoted, oneLine_quotedSingle]

theorem oneLine_description (feature : Feature) : OneLine feature.description := by
  unfold Feature.description
  cases feature <;> simp +decide only [oneLine_append, oneLine_quoted, oneLine_quotedSingle]

theorem oneLine_paren (paren : Paren) : OneLine paren.char.toString := by
  cases paren <;> decide

theorem oneLine_errorMessage (error : PatternError) : OneLine error.message := by
  unfold PatternError.message
  cases error <;> simp +decide only [oneLine_append, oneLine_quoted, oneLine_toString,
    oneLine_refusal, oneLine_fault, oneLine_description, oneLine_paren]

theorem oneLine_kindName (kind : GroupKind) : OneLine kind.name := by
  unfold GroupKind.name
  split <;> decide

theorem oneLine_openedMessage (opener : Opener) (pos : Nat) :
    OneLine (Event.openedMessage opener pos) := by
  unfold Event.openedMessage
  split <;> simp +decide only [oneLine_append, oneLine_quoted, oneLine_toString, oneLine_kindName]

theorem oneLine_message (event : Event) : OneLine event.message := by
  unfold Event.message
  cases event <;> simp +decide only [oneLine_append, oneLine_quoted, oneLine_toString,
    oneLine_openedMessage, oneLine_errorMessage]

theorem oneLine_label (level : Level) : OneLine level.label := by
  cases level <;> decide

theorem oneLine_refusalFields (refusal : Utf8Refusal) : OneLine (refusalFields refusal) := by
  unfold refusalFields
  cases refusal <;> simp +decide only [oneLine_append, oneLine_toString]

theorem oneLine_shown (error : PatternError) : OneLine (shown error) := by
  unfold shown fielded
  cases error <;> simp +decide only [oneLine_append, oneLine_quoted, oneLine_quotedSingle,
    oneLine_toString, oneLine_refusalFields]

/-! ### Warnings among lines -/

/-- A line without the stamp before it. -/
def unstamped (stamped : Bool) (line : List Char) : List Char :=
  if stamped then (line.dropWhile (· != ' ')).tail else line

def isWarning (line : List Char) : Bool := "WARN ".toList.isPrefixOf line

/-- The lines of a text that warn, without their stamps. -/
def warnings (stamped : Bool) (text : String) : List String :=
  (((splitAt '\n' text.toList).map (unstamped stamped)).filter isWarning).map String.ofList

variable {stamped : Bool} {stamp line : String}

theorem oneLine_stamp (h : Stamp stamped stamp) : OneLine stamp := by
  cases h with
  | absent => decide
  | time hblank hline => exact oneLine_append.2 ⟨hline, by decide⟩

/-- What is taken off is the stamp. -/
theorem unstamped_append (h : Stamp stamped stamp) (line : String) :
    unstamped stamped (stamp ++ line).toList = line.toList := by
  cases h with
  | absent => rw [String.empty_append]; rfl
  | @time word hblank hline =>
    have hword : ∀ c ∈ word.toList, (c != ' ') = true := by
      intro c hc
      rw [bne_iff_ne]
      rintro rfl
      exact hblank hc
    have htext : (word ++ " " ++ line).toList = word.toList ++ ' ' :: line.toList := by simp
    rw [unstamped, if_pos rfl, htext, List.dropWhile_append_of_pos hword]
    rfl

theorem warnings_line (h : OneLine line) (rest : String) :
    warnings stamped (line ++ "\n" ++ rest) =
      (if isWarning (unstamped stamped line.toList) then
        [String.ofList (unstamped stamped line.toList)] else []) ++ warnings stamped rest := by
  have hlist : (line ++ "\n" ++ rest).toList = line.toList ++ '\n' :: rest.toList := by simp
  rw [warnings, hlist, splitAt_append h, List.map_cons, List.filter_cons]
  split_ifs with hwarning
  · rfl
  · rfl

/-- The name of a failure is no warning, whether or not the word before it is taken for a stamp. -/
theorem isWarning_report (error : PatternError) :
    isWarning (unstamped stamped ("Error: " ++ shown error).toList) = false := by
  cases stamped with
  | false =>
    rw [String.toList_append]
    rfl
  | true =>
    have hshown : isWarning (shown error).toList = false := by
      unfold shown fielded
      cases error <;> simp only [String.toList_append] <;> rfl
    have hstamp : Stamp true ("Error:" ++ " ") := .time (by decide) (by decide)
    rw [← hshown]
    exact congrArg isWarning (unstamped_append hstamp (shown error))

theorem warnings_report (error : PatternError) :
    warnings stamped (Failure.pattern error).report = [] := by
  have hone : OneLine ("Error: " ++ shown error) :=
    oneLine_append.2 ⟨by decide, oneLine_shown error⟩
  have hline : warnings stamped ("Error: " ++ shown error ++ "\n" ++ "") = _ :=
    warnings_line hone ""
  rw [String.append_empty, isWarning_report] at hline
  rw [Failure.report, hline]
  cases stamped with
  | false => rfl
  | true => rfl

/-! ### Warnings of a logger -/

/-- The line for a warning, without its stamp. -/
def warningLine (record : Record) : String := "WARN " ++ record.message

theorem isWarning_label (level : Level) (message : String) :
    isWarning (level.label ++ " " ++ message).toList = decide (level = .warning) := by
  rw [isWarning, String.toList_append, String.toList_append]
  cases level <;> rfl

/-- A logger warns of the warnings among its records, if it shows them. -/
theorem warnings_logged {settings : LogSettings} {records : List Record} {text : String}
    (h : Logged settings records text) (hone : ∀ record ∈ records, OneLine record.message)
    (rest : String) :
    warnings settings.stamped (text ++ rest) =
      (records.filter fun record => record.level = .warning ∧ settings.Shows record.level).map
        warningLine ++ warnings settings.stamped rest := by
  induction h with
  | nil => rw [String.empty_append]; rfl
  | @hidden record records text hhidden _ ih =>
    rw [List.filter_cons_of_neg (by simp [hhidden])]
    exact ih (List.forall_mem_cons.1 hone).2
  | @shown record records stamp text hshown hstamp _ ih =>
    rcases List.forall_mem_cons.1 hone with ⟨hmessage, hmessages⟩
    have hline : OneLine (stamp ++ (record.level.label ++ " " ++ record.message)) := by
      rw [oneLine_append, oneLine_append, oneLine_append]
      exact ⟨oneLine_stamp hstamp, ⟨oneLine_label _, by decide⟩, hmessage⟩
    have htext : stamp ++ record.level.label ++ " " ++ record.message ++ "\n" ++ text ++ rest =
        stamp ++ (record.level.label ++ " " ++ record.message) ++ "\n" ++ (text ++ rest) := by
      simp only [String.append_assoc]
    rw [htext, warnings_line hline, unstamped_append hstamp, ih hmessages, isWarning_label,
      String.ofList_toList]
    by_cases hwarning : record.level = .warning
    · have hlabel : record.level.label ++ " " ++ record.message = warningLine record := by
        rw [hwarning]
        rfl
      rw [List.filter_cons_of_pos (by simp [hwarning, hwarning ▸ hshown]), hlabel]
      simp [hwarning]
    · rw [List.filter_cons_of_neg (by simp [hwarning])]
      simp [hwarning]

/-! ### Warnings among events -/

/-- Warnings are shown unless the run is quiet or asked for errors alone. -/
theorem shows_warning_iff (logging : Logging) :
    logging.settings.Shows .warning ↔ logging.quiet = false ∧ logging.verbose ≠ 1 := by
  have hlevel : (∃ least ∈ levelFor (logging.verbosity usualVerbosity),
      Level.warning.verbosity ≤ least.verbosity) ↔ logging.verbose ≠ 1 := by
    unfold Logging.verbosity usualVerbosity
    match logging.verbose with
    | 0 => decide
    | 1 => decide
    | 2 => decide
    | 3 => decide
    | 4 => decide
    | n + 5 => simp [levelFor, Level.verbosity]
  exact and_congr_right fun _ => hlevel

/-- The table is not announced by a warning. -/
theorem filter_announceTable (events : List Event) :
    (announceTable events).filter (·.level = .warning) = events.filter (·.level = .warning) := by
  fun_induction announceTable events with
  | case1 => rfl
  | case2 events =>
    rw [List.filter_cons_of_neg (by decide), List.filter_cons_of_neg (by decide),
      List.filter_filter]
    apply List.filter_congr
    intro event _
    cases event <;> rfl
  | case3 event events hevent ih =>
    rw [List.filter_cons, List.filter_cons, ih]

variable {σ : Type} {P : Platform σ}

/-- **A run shows the warnings among its events, unless it is quiet or shows errors alone.** -/
theorem warnings_told
    (hlog : ∀ settings records, Logged settings records (P.log settings records))
    (logging : Logging) (events : List Event) (error? : Option PatternError) :
    warnings logging.stamped (P.told logging events (error?.map .pattern)) =
      if logging.quiet = false ∧ logging.verbose ≠ 1 then
        (events.filter (·.level = .warning)).map fun event => "WARN " ++ event.message
      else [] := by
  have hone : ∀ record ∈ records events, OneLine record.message := by
    intro record hmem
    rcases List.mem_map.1 hmem with ⟨event, -, rfl⟩
    exact oneLine_message event
  have hreport : warnings logging.stamped (((error?.map .pattern).map Failure.report).getD "") =
      [] := by
    cases error? with
    | none => cases logging.stamped <;> rfl
    | some error => exact warnings_report error
  have hlogged := warnings_logged (hlog logging.settings (records events)) hone
    (((error?.map .pattern).map Failure.report).getD "")
  have hwarnings : ∀ record : Record,
      decide (record.level = .warning ∧ logging.settings.Shows record.level) =
        (decide (logging.settings.Shows .warning) && decide (record.level = .warning)) := by
    intro record
    rw [Bool.eq_iff_iff]
    simp only [decide_eq_true_eq, Bool.and_eq_true]
    constructor
    · rintro ⟨hlevel, hshows⟩
      exact ⟨hlevel ▸ hshows, hlevel⟩
    · rintro ⟨hshows, hlevel⟩
      exact ⟨hlevel, hlevel ▸ hshows⟩
  calc warnings logging.stamped (P.told logging events (error?.map .pattern))
      _ = (((records events).filter fun record =>
            record.level = .warning ∧ logging.settings.Shows record.level).map warningLine) ++
          warnings logging.stamped (((error?.map .pattern).map Failure.report).getD "") := hlogged
      _ = ((records events).filter fun record =>
            logging.settings.Shows .warning && record.level = .warning).map warningLine := by
        rw [hreport, List.append_nil]
        simp only [hwarnings]
      _ = _ := by
        rw [records, List.filter_map, List.map_map]
        by_cases hshows : logging.settings.Shows .warning
        · rw [if_pos ((shows_warning_iff logging).1 hshows)]
          simp only [hshows, decide_true, Bool.true_and]
          rw [← filter_announceTable]
          rfl
        · rw [if_neg (mt (shows_warning_iff logging).2 hshows)]
          simp [hshows]

end RegexText.CommandLine
