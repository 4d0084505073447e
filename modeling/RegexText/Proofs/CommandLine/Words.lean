/-
  RegexText/Proofs/CommandLine/Words.lean
  =======================================
  **Words as arguments and words on the lines of an input.**

  A request collects its words before anything else happens to them, and what it
  comes to depends on the collected words and on three options only.  So it makes
  no difference whether the words are operands or lines, however the lines are
  ended and wherever blank ones stand between them.
-/
import RegexText.CommandLine.Run
import RegexText.Proofs.CommandLine.Lines
import RegexText.Proofs.CommandLine.Run

namespace RegexText.CommandLine

open Text

variable {σ : Type} {P : Platform σ} {r r' : SynthRequest} {around around' : Surroundings σ}
  {text : String} {words : List String}

/-! ### Words and their bytes -/

theorem decodeWords_map_encoded (index : Nat) (words : List String) :
    WordList.decodeWords index (words.map encoded) = .ok words := by
  induction words generalizing index with
  | nil => rfl
  | cons word words ih =>
    rw [List.map_cons, WordList.decodeWords, encoded, decodeUtf8_toUTF8]
    simp only [ih]
    rfl

theorem synthesizeEncoded_map_encoded (options : WordList.Options) (words : List String) :
    WordList.synthesizeEncoded options (words.map encoded) = WordList.synthesize options words := by
  rw [WordList.synthesizeEncoded, decodeWords_map_encoded]

/-! ### Options -/

theorem foldl_withSpecial (specials : List (Char × String)) (options : WordList.Options) :
    specials.foldl (fun options (c, text) => options.withSpecial c text) options =
      { options with specials := specials.reverse ++ options.specials } := by
  induction specials generalizing options with
  | nil => rfl
  | cons special specials ih =>
    rw [List.foldl_cons, ih, List.reverse_cons, List.append_assoc]
    rfl

/-- The specials are kept the other way round, so that the latest counts. -/
theorem SynthRequest.options_eq (r : SynthRequest) :
    r.options = ⟨r.specials.reverse, r.lookahead, r.depthLimit⟩ := by
  rw [options, foldl_withSpecial, List.append_nil]

/-! ### Inputs -/

/-- What a request finds in its input: in standard input where it names no file, and where it
    names a hyphen. -/
inductive Gives (P : Platform σ) (around : Surroundings σ) :
    Option String → Except IoError (List UInt8) → Prop where
  | absent {content : Except IoError (List UInt8)} (h : around.stdin = content) :
      Gives P around none content
  | hyphen {content : Except IoError (List UInt8)} (h : around.stdin = content) :
      Gives P around (some "-") content
  | file {content : Except IoError (List UInt8)} {path : String} (hpath : path ≠ "-")
      (h : P.read around.directory path = content) : Gives P around (some path) content

theorem gives_iff {input : Option String} {content : Except IoError (List UInt8)} :
    Gives P around input content ↔ P.input around input = content := by
  constructor
  · intro h
    cases h with
    | absent h => exact h
    | hyphen h => exact h
    | file hpath h =>
      rw [Platform.input, filePath?_eq_some_iff.2 ⟨rfl, hpath⟩]
      exact h
  · intro h
    rw [Platform.input] at h
    cases hpath : filePath? input with
    | none =>
      rw [hpath] at h
      rcases filePath?_eq_none_iff.1 hpath with rfl | rfl
      · exact .absent h
      · exact .hyphen h
    | some path =>
      rcases filePath?_eq_some_iff.1 hpath with ⟨rfl, hne⟩
      rw [hpath] at h
      exact .file hne h

/-! ### Collecting words -/

/-- Are words read from the input of a request? -/
def SynthRequest.ReadsInput (r : SynthRequest) : Prop := r.words = [] ∨ r.input.isSome = true

/-- The words of a request: its operands, and behind them those that its input lists. -/
inductive Collects (P : Platform σ) (around : Surroundings σ) (r : SynthRequest) :
    List String → Prop where
  | operands (h : ¬ r.ReadsInput) : Collects P around r r.words
  | lines {text : String} {more : List String} (hreads : r.ReadsInput)
      (hgives : Gives P around r.input (.ok (encoded text))) (hlists : Lists more text.toList) :
      Collects P around r (r.words ++ more)

theorem allWords_of_not_readsInput (h : ¬ r.ReadsInput) : P.allWords r around = .ok r.words := by
  unfold SynthRequest.ReadsInput at h
  rw [Platform.allWords, if_neg (by simpa using h)]

theorem allWords_of_readsInput (h : r.ReadsInput) :
    P.allWords r around =
      ((P.input around r.input).mapError .io >>= inputWords).map (r.words ++ ·) := by
  have hcondition : (r.words.isEmpty || r.input.isSome) = true := by
    rcases h with hwords | hinput
    · rw [hwords]
      rfl
    · rw [hinput, Bool.or_true]
  rw [Platform.allWords, if_pos hcondition]
  cases P.input around r.input with
  | error error => rfl
  | ok content => rfl

theorem allWords_of_collects (h : Collects P around r words) : P.allWords r around = .ok words := by
  cases h with
  | operands h => exact allWords_of_not_readsInput h
  | lines hreads hgives hlists =>
    rw [allWords_of_readsInput hreads, gives_iff.1 hgives]
    change (inputWords _).map _ = _
    rw [inputWords_eq_ok_iff.2 hlists]
    rfl

/-! ### Productions -/

/-- What a request comes to depends on its words and its options only. -/
theorem synth_congr (hwords : P.allWords r around = P.allWords r' around')
    (hoptions : r.options = r'.options) : P.synth r around = P.synth r' around' := by
  rw [Platform.synth, Platform.synth, hwords, hoptions]

theorem synth_of_synthesize_error {error : PatternError} (h : P.allWords r around = .ok words)
    (herror : (WordList.synthesize r.options words).outcome = .error error) :
    P.synth r around =
      ⟨.collected words.length :: (WordList.synthesize r.options words).events, none,
        some (.pattern error)⟩ := by
  simp only [Platform.synth, h, herror]

theorem synth_of_synthesize_ok {pattern : String} (h : P.allWords r around = .ok words)
    (hpattern : (WordList.synthesize r.options words).outcome = .ok pattern) :
    P.synth r around =
      ⟨.collected words.length :: (WordList.synthesize r.options words).events,
        some (pattern ++ "\n"), none⟩ := by
  simp only [Platform.synth, h, hpattern]

/-- A run without an output file shows the expression of its words, or fails as the synthesis
    does. -/
theorem carryOut_of_collects (h : Collects P around r words)
    (houtput : r.output = none ∨ r.output = some "-") (logging : Logging) :
    let after := P.carryOut ⟨.synth r, logging⟩ around
    match (WordList.synthesizeEncoded ⟨r.specials.reverse, r.lookahead, r.depthLimit⟩
        (words.map encoded)).outcome with
    | .ok pattern => after.exitCode = 0 ∧ after.stdout = pattern ++ "\n"
    | .error _ => after.exitCode = 1 ∧ after.stdout = "" := by
  intro after
  have hwords : P.allWords r around = .ok words := allWords_of_collects h
  rw [synthesizeEncoded_map_encoded, ← r.options_eq]
  cases houtcome : (WordList.synthesize r.options words).outcome with
  | error error =>
    have hproduce : P.produce (.synth r) around = _ := synth_of_synthesize_error hwords houtcome
    have hafter : after = _ := carryOut_of_written_none (congrArg Production.written hproduce)
    rw [hafter, hproduce]
    exact ⟨rfl, rfl⟩
  | ok pattern =>
    have hproduce : P.produce (.synth r) around = _ := synth_of_synthesize_ok hwords houtcome
    have hafter : after = _ := carryOut_of_stdout (congrArg Production.written hproduce)
      (filePath?_eq_none_iff.2 houtput)
    rw [hafter, hproduce]
    exact ⟨rfl, rfl⟩

/-! ### Runs -/

/-- **It makes no difference whether words are operands or the lines of an input.** -/
theorem run_operands_eq_run_lines (P : Platform σ) {arguments arguments' : List String}
    {words : List String} {specials : List (Char × String)} {lookahead : Bool} {depthLimit : Nat}
    {input output : Option String} {logging logging' : Logging} {text : String}
    (stdin : Except IoError (List UInt8)) {stdin' : Except IoError (List UInt8)} {directory : σ}
    (hwords : words ≠ [])
    (harguments : P.arguments arguments =
      .ok ⟨.synth ⟨words, specials, lookahead, depthLimit, none, output⟩, logging⟩)
    (harguments' : P.arguments arguments' =
      .ok ⟨.synth ⟨[], specials, lookahead, depthLimit, input, output⟩, logging'⟩)
    (hgives : Gives P ⟨stdin', directory⟩ input (.ok (encoded text)))
    (hlists : Lists words text.toList) :
    let left := P.run arguments ⟨stdin, directory⟩
    let right := P.run arguments' ⟨stdin', directory⟩
    left.exitCode = right.exitCode ∧ left.stdout = right.stdout ∧
      left.directory = right.directory ∧
      (output = none ∨ output = some "-" →
        match (WordList.synthesizeEncoded ⟨specials.reverse, lookahead, depthLimit⟩
            (words.map encoded)).outcome with
        | .ok pattern => left.exitCode = 0 ∧ left.stdout = pattern ++ "\n"
        | .error _ => left.exitCode = 1 ∧ left.stdout = "") := by
  intro left right
  let r : SynthRequest := ⟨words, specials, lookahead, depthLimit, none, output⟩
  let r' : SynthRequest := ⟨[], specials, lookahead, depthLimit, input, output⟩
  have hoperands : Collects P ⟨stdin, directory⟩ r words := by
    apply Collects.operands
    rintro (hnone | hinput)
    · exact hwords hnone
    · cases hinput
  have hlines : Collects P ⟨stdin', directory⟩ r' words := .lines (.inl rfl) hgives hlists
  have hsame : P.produce (.synth r) ⟨stdin, directory⟩ =
      P.produce (.synth r') ⟨stdin', directory⟩ := by
    have hcollected := allWords_of_collects hoperands
    rw [← allWords_of_collects hlines] at hcollected
    exact synth_congr hcollected rfl
  have hleft : left = P.carryOut ⟨.synth r, logging⟩ _ := run_of_arguments harguments _
  have hright : right = P.carryOut ⟨.synth r', logging'⟩ _ := run_of_arguments harguments' _
  have hrun := carryOut_congr logging logging' hsame rfl rfl
  rw [← hleft, ← hright] at hrun
  refine ⟨hrun.1, hrun.2.1, hrun.2.2, ?_⟩
  intro houtput
  rw [hleft]
  exact carryOut_of_collects hoperands houtput logging

/-- Every option is used, and lines are ended in both ways. -/
theorem run_operands_eq_run_lines_of_file :
    let options := ["--lookahead", "--max-depth", "2", "--special=*=.*?"]
    let directory := Directory.ofFiles [("words", encoded "\nb*\r\n\r\nac\nbd")]
    let left := run ("synth" :: options ++ ["b*", "ac", "bd"]) ⟨.ok [], directory⟩
    let right := run ("synth" :: "-v" :: options ++ ["--input", "words"]) ⟨.ok [], directory⟩
    left.exitCode = 0 ∧ left.stdout = "(?=[ab])(?:ac|b(?:d|.*?))\n" ∧
      right.exitCode = 0 ∧ right.stdout = left.stdout := by
  intro options directory left right
  have hlists : Lists ["b*", "ac", "bd"] "\nb*\r\n\r\nac\nbd".toList := by
    apply Lists.line (.blank 0)
    apply Lists.line (.word ⟨by decide, by decide, by decide⟩ 1)
    apply Lists.line (.blank 1)
    apply Lists.line (.word ⟨by decide, by decide, by decide⟩ 0)
    exact .last (.word ⟨by decide, by decide, by decide⟩ 0)
  have hleft : (standard epoch).arguments ("synth" :: options ++ ["b*", "ac", "bd"]) =
      .ok ⟨.synth ⟨["b*", "ac", "bd"], [('*', ".*?")], true, 2, none, none⟩,
        ⟨false, 0, false⟩⟩ := by decide +kernel
  have hright : (standard epoch).arguments ("synth" :: "-v" :: options ++ ["--input", "words"]) =
      .ok ⟨.synth ⟨[], [('*', ".*?")], true, 2, some "words", none⟩,
        ⟨false, 1, false⟩⟩ := by decide +kernel
  have hgives : Gives (standard epoch) ⟨.ok [], directory⟩ (some "words")
      (.ok (encoded "\nb*\r\n\r\nac\nbd")) := .file (by decide) (by decide +kernel)
  have hpattern : (WordList.synthesizeEncoded ⟨[('*', ".*?")], true, 2⟩
      (["b*", "ac", "bd"].map encoded)).outcome = .ok "(?=[ab])(?:ac|b(?:d|.*?))" := by
    decide +kernel
  rcases run_operands_eq_run_lines (standard epoch) (.ok []) (List.cons_ne_nil _ _) hleft hright
    hgives hlists with ⟨hcode, hstdout, -, hshown⟩
  have hshown' := hshown (.inl rfl)
  rw [List.reverse_singleton, hpattern] at hshown'
  exact ⟨hshown'.1, hshown'.2, hcode.symm.trans hshown'.1, hstdout.symm⟩

end RegexText.CommandLine
