/-
  RegexText/CommandLine/Program.lean
  ==================================
  **What a run of the program does.**

  A run is a function of its arguments, its standard input and the files of its
  platform; it yields an exit code, what goes to the two output streams, and the
  files afterwards.

  The subcommands differ in when they open their output.  A synthesized
  expression and a parsed pattern are complete before the output is opened, so a
  failure leaves it untouched.  Converted patterns are written one by one to an
  output that is opened first, so those before a failure stay written.
-/
import RegexText.CommandLine.Listing

namespace RegexText.CommandLine

open Text

variable {σ : Type}

/-! ### Failures -/

/-- Why a run fails. -/
inductive Failure where
  | pattern (error : PatternError)
  | io (error : IoError)
  /-- The input is not UTF-8. -/
  | undecodable
deriving DecidableEq, Repr

/-- A name and, in braces, some fields. -/
def fielded (name fields : String) : String := name ++ " \x7b " ++ fields ++ " \x7d"

/-- The fields that tell what the system refused. -/
def ioFields (error : IoError) : String :=
  "code: " ++ toString error.code ++ ", kind: " ++ error.kind ++ ", message: " ++
    quoted error.message

/-- The fields that tell what is wrong with a byte sequence. -/
def refusalFields : Utf8Refusal → String
  | .invalid length index => s!"valid_up_to: {index}, error_len: Some({length})"
  | .incomplete index => s!"valid_up_to: {index}, error_len: None"

/-- The form in which a run shows the failure that ends it. -/
def shown : PatternError → String
  | .encoding index refusal =>
    fielded "Encoding" (s!"index: {index}, source: " ++ fielded "Utf8Error" (refusalFields refusal))
  | .emptyWordList => "EmptyWordList"
  | .recursionLimit limit => fielded "RecursionLimit" s!"limit: {limit}"
  | .malformedDelimiters fault => "MalformedDelimiters(" ++ quoted fault.message ++ ")"
  | .malformedClass pos => fielded "MalformedCharacterClass" s!"pos: {pos}"
  | .unbalancedGroup pos unmatched =>
    fielded "UnbalancedGroup" (s!"pos: {pos}, unmatched: " ++ quotedSingle unmatched.char)
  | .nestingTooDeep limit => fielded "NestingTooDeep" s!"limit: {limit}"
  | .unsupportedGroup pos => fielded "UnsupportedSubpattern" s!"pos: {pos}"
  | .unsupportedFeature feature => "UnsupportedFeature(" ++ quoted feature.description ++ ")"
  | .unsupportedOptions pos options =>
    fielded "UnsupportedOptions" (s!"pos: {pos}, options: " ++ quoted options)

/-- The line that a failing run ends with. -/
def Failure.report : Failure → String
  | .pattern error => "Error: " ++ shown error ++ "\n"
  | .io error => "Error: " ++ fielded "Os" (ioFields error) ++ "\n"
  | .undecodable =>
    "Error: " ++
      fielded "Error" "kind: InvalidData, message: \"stream did not contain valid UTF-8\"" ++ "\n"

/-! ### Telling about a run -/

/-- Events with the first consultation of the category table only. -/
def announceTable : List Event → List Event
  | [] => []
  | .categoryTable :: events => .categoryTable :: events.filter (· != .categoryTable)
  | event :: events => event :: announceTable events

/-- What the logger is told of some events. -/
def records (events : List Event) : List Record :=
  (announceTable events).map fun event => ⟨event.level, event.message⟩

/-- What is told on the way to a failure, or to the end of a run. -/
def Platform.told (P : Platform σ) (logging : Logging) (events : List Event)
    (failure : Option Failure) : String :=
  P.log logging.settings (records events) ++ (failure.map Failure.report).getD ""

/-! ### Input and output -/

/-- A path, unless it stands for one of the standard streams. -/
def filePath? (path : Option String) : Option String := path.filter (· != "-")

/-- The parts of a text between the occurrences of a character. -/
def splitAt (separator : Char) : List Char → List (List Char)
  | [] => [[]]
  | c :: cs =>
    if c = separator then [] :: splitAt separator cs
    else
      match splitAt separator cs with
      | [] => [[c]]
      | part :: parts => (c :: part) :: parts

/-- A line without the carriage returns at its end. -/
def withoutReturns (line : List Char) : List Char :=
  (line.reverse.dropWhile (· == '\r')).reverse

/-- The words of an input, one on each line that is not blank. -/
def inputWords (content : List UInt8) : Except Failure (List String) :=
  match decodeUtf8 content with
  | .error _ => .error .undecodable
  | .ok text =>
    .ok ((((splitAt '\n' text.toList).map withoutReturns).filter (!·.isEmpty)).map String.ofList)

/-- The bytes of an input. -/
def Platform.input (P : Platform σ) (around : Surroundings σ) (path : Option String) :
    Except IoError (List UInt8) :=
  match filePath? path with
  | none => around.stdin
  | some path => P.read around.directory path

/-- The bytes of a text. -/
def encoded (text : String) : List UInt8 := text.toUTF8.toList

/-! ### Subcommands -/

/-- What a subcommand comes to: events, what it writes, and how it fails if it does.  No
    text at all means that the output was not opened. -/
structure Production where
  events : List Event
  written : Option String
  failure : Option Failure
deriving DecidableEq, Repr

/-- The words of a request and of its input. -/
def Platform.allWords (P : Platform σ) (request : SynthRequest) (around : Surroundings σ) :
    Except Failure (List String) :=
  if request.words.isEmpty || request.input.isSome then do
    let content ← (P.input around request.input).mapError .io
    let more ← inputWords content
    return request.words ++ more
  else .ok request.words

/-- The options under which the words of a request are synthesized. -/
def SynthRequest.options (request : SynthRequest) : WordList.Options :=
  request.specials.foldl (fun options (c, text) => options.withSpecial c text)
    ⟨[], request.lookahead, request.depthLimit⟩

def Platform.synth (P : Platform σ) (request : SynthRequest) (around : Surroundings σ) :
    Production :=
  match P.allWords request around with
  | .error failure => ⟨[], none, some failure⟩
  | .ok words =>
    let pattern := WordList.synthesize request.options words
    let events := .collected words.length :: pattern.events
    match pattern.outcome with
    | .error error => ⟨events, none, some (.pattern error)⟩
    | .ok text => ⟨events, some (text ++ "\n"), none⟩

def Platform.parse (P : Platform σ) (request : ParseRequest) : Production :=
  let parsed := Pattern.parse request.depthLimit request.pattern
  match parsed.outcome with
  | .error error => ⟨parsed.events, none, some (.pattern error)⟩
  | .ok p => ⟨parsed.events, some (P.patternText request.json p), none⟩

/-- Convert patterns until one fails. -/
def Platform.convertAll (P : Platform σ) (json : Bool) :
    List String → List Event × String × Option Failure
  | [] => ([], "", none)
  | pattern :: patterns =>
    let converted := convertPattern defaultGroupDepth pattern
    match converted.outcome with
    | .error error =>
      (converted.events ++ (if error.isDialectGap then [.refused pattern error] else []), "",
        some (.pattern error))
    | .ok c =>
      let (events, text, failure) := P.convertAll json patterns
      (converted.events ++ events, P.convertedText json c ++ text, failure)

def Platform.translate (P : Platform σ) (request : TranslateRequest) : Production :=
  let (events, text, failure) := P.convertAll request.json request.patterns
  ⟨events, some text, failure⟩

def Platform.produce (P : Platform σ) (request : Request) (around : Surroundings σ) : Production :=
  match request with
  | .synth request => P.synth request around
  | .parse request => P.parse request
  | .translate request => P.translate request

/-! ### Runs -/

/-- Where a request wants its output. -/
def Request.output? : Request → Option String
  | .synth request => filePath? request.output
  | .parse request => filePath? request.output
  | .translate request => filePath? request.output

/-- Is the output opened before the work is done? -/
def Request.opensFirst : Request → Bool
  | .translate _ => true
  | _ => false

/-- What a run leaves. -/
structure Outcome (σ : Type) where
  exitCode : Nat
  stdout : String
  stderr : String
  directory : σ
deriving DecidableEq, Repr

/-- Carry out a request. -/
def Platform.carryOut (P : Platform σ) (invocation : Invocation) (around : Surroundings σ) :
    Outcome σ :=
  let request := invocation.request
  let production := P.produce request around
  let stderr := P.told invocation.logging production.events production.failure
  let exitCode := if production.failure.isSome then 1 else 0
  match production.written with
  | none => ⟨exitCode, "", stderr, around.directory⟩
  | some text =>
    match request.output? with
    | none => ⟨exitCode, text, stderr, around.directory⟩
    | some path =>
      match P.create around.directory path with
      | .error error =>
        let events := if request.opensFirst then [] else production.events
        ⟨1, "", P.told invocation.logging events (some (.io error)), around.directory⟩
      | .ok opened => ⟨exitCode, "", stderr, P.append opened path (encoded text)⟩

/-- Run the program. -/
def Platform.run (P : Platform σ) (arguments : List String) (around : Surroundings σ) : Outcome σ :=
  match P.arguments arguments with
  | .error stop => ⟨stop.exitCode, stop.stdout, stop.stderr, around.directory⟩
  | .ok invocation => P.carryOut invocation around

end RegexText.CommandLine
