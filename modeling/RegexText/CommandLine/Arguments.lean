/-
  RegexText/CommandLine/Arguments.lean
  ====================================
  **From command-line arguments to a request.**

  Options and operands may be mixed; `--` makes operands of all that follows.  A
  long option takes its value after an equals sign or as the next argument,
  which must not look like an option; short options take none and may be
  clustered.  Arguments are read in order and the first one that is wrong, or
  that asks for help, ends the reading.

  Help is laid out in two columns, and says of each subcommand and option what
  it is for.
-/
import RegexText.CommandLine.Listing

namespace RegexText.CommandLine

open Text

/-! ### Subcommands and their options -/

inductive Subcommand where
  | synth | parse | translate
deriving DecidableEq, Repr

inductive OptionName where
  | lookahead | special | maxDepth | input | json | output | quiet | verbose | ts | help
deriving DecidableEq, Repr

def Subcommand.named? : String → Option Subcommand
  | "synth" => some .synth
  | "parse" => some .parse
  | "translate" => some .translate
  | _ => none

/-- The options of a subcommand. -/
def Subcommand.options : Subcommand → List OptionName
  | .synth =>
    [.lookahead, .special, .maxDepth, .input, .output, .quiet, .verbose, .ts, .help]
  | .parse => [.json, .maxDepth, .output, .quiet, .verbose, .ts, .help]
  | .translate => [.json, .output, .quiet, .verbose, .ts, .help]

/-- May a subcommand take one more operand after `count` of them? -/
def Subcommand.admitsOperand (sub : Subcommand) (count : Nat) : Bool :=
  match sub with
  | .parse => count == 0
  | _ => true

namespace OptionName

/-- The long spelling, without its hyphens. -/
def long : OptionName → String
  | .lookahead => "lookahead"
  | .special => "special"
  | .maxDepth => "max-depth"
  | .input => "input"
  | .json => "json"
  | .output => "output"
  | .quiet => "quiet"
  | .verbose => "verbose"
  | .ts => "ts"
  | .help => "help"

/-- The short spelling, without its hyphen. -/
def short? : OptionName → Option Char
  | .quiet => some 'q'
  | .verbose => some 'v'
  | .ts => some 't'
  | .help => some 'h'
  | _ => none

/-- What the value of an option is called, if it takes one. -/
def valueName? : OptionName → Option String
  | .special => some "SYM=TEXT"
  | .maxDepth => some "MAX_DEPTH"
  | .input => some "INPUT"
  | .output => some "OUTPUT"
  | _ => none

def takesValue (option : OptionName) : Bool := option.valueName?.isSome

def mayRepeat : OptionName → Bool
  | .special => true
  | .verbose => true
  | _ => false

end OptionName

/-- The option of a subcommand with a long spelling. -/
def Subcommand.longOption? (sub : Subcommand) (name : String) : Option OptionName :=
  sub.options.find? fun option => option.long == name

/-- The option of a subcommand with a short spelling. -/
def Subcommand.shortOption? (sub : Subcommand) (letter : Char) : Option OptionName :=
  sub.options.find? fun option => option.short? == some letter

/-! ### Help -/

/-- What a subcommand is for. -/
def Subcommand.purpose : Subcommand → String
  | .synth => "Build a regex matching exactly a list of words"
  | .parse => "Tokenize a delimited pattern"
  | .translate => "Translate delimited patterns to JavaScript regex literals"

def Subcommand.name : Subcommand → String
  | .synth => "synth"
  | .parse => "parse"
  | .translate => "translate"

/-- How the operands of a subcommand are written, and what they are. -/
def Subcommand.operand : Subcommand → String × String
  | .synth => ("[WORDS]...", "Words to match; read one per line from the input when omitted")
  | .parse => ("<PATTERN>", "A delimited pattern, e.g. `#^[a-z]+$#i`")
  | .translate => ("<PATTERNS>...", "Delimited source patterns")

/-- The note about the value that an option has when it is not given. -/
def defaultNote (value : Nat) : String := s!"[default: {value}]"

/-- What an option of a subcommand is for. -/
def Subcommand.optionPurpose (sub : Subcommand) : OptionName → String
  | .lookahead => "Prefix the pattern with a lookahead over the first symbols"
  | .special => "Render a symbol as raw regex text, e.g. `--special '*=.*?'`"
  | .maxDepth =>
    match sub with
    | .synth => "Recursion limit for chain merging " ++ defaultNote Chain.defaultMergeDepth
    | _ => "Limit on group nesting " ++ defaultNote defaultGroupDepth
  | .input => "Optional input file; \"-\" may be used to indicate stdin"
  | .json =>
    match sub with
    | .translate => "Emit one JSON object per pattern"
    | _ => "Emit the parsed pattern as JSON"
  | .output => "Optional output file; \"-\" may be used to indicate stdout"
  | .quiet => "Silence log messages"
  | .verbose => "Turn debugging information on (-v, -vv, -vvv)"
  | .ts => "Enable timestamped logging"
  | .help => "Print help"

/-- How an option is written. -/
def OptionName.spelling (option : OptionName) : String :=
  (match option.short? with
    | some letter => "-" ++ letter.toString ++ ", "
    | none => "    ") ++
  "--" ++ option.long ++
  (match option.valueName? with
    | some name => " <" ++ name ++ ">"
    | none => if option = .verbose then "..." else "")

/-- Two columns, of which the first is as wide as its longest entry. -/
def columns (rows : List (String × String)) : List String :=
  let width := (rows.map fun row => row.1.length).foldr max 0
  rows.map fun row => "  " ++ padRight width row.1 ++ "  " ++ row.2

/-- The line that says how the program is called. -/
def usageLine : Option Subcommand → String
  | none => "Usage: pwright <COMMAND>"
  | some sub => "Usage: pwright " ++ sub.name ++ " [OPTIONS] " ++ sub.operand.1

def helpText : Option Subcommand → String
  | none =>
    unlines
      (["pwright: synthesize, parse and translate regexes", "", usageLine none, "", "Commands:"] ++
        columns
          ([Subcommand.synth, .parse, .translate].map (fun sub => (sub.name, sub.purpose)) ++
            [("help", "Print this message or the help of the given subcommand(s)")]) ++
        ["", "Options:", "  -h, --help  Print help"])
  | some sub =>
    unlines
      ([sub.purpose, "", usageLine sub, "", "Arguments:"] ++ columns [sub.operand] ++
        ["", "Options:"] ++
        columns (sub.options.map fun option => (option.spelling, sub.optionPurpose option)))

/-- Help was asked for. -/
def Stop.help (topic : Option Subcommand) : Stop := ⟨0, helpText topic, ""⟩

/-- The arguments cannot be used. -/
def Stop.usage (topic : Option Subcommand) : Stop :=
  ⟨2, "", unlines [usageLine topic, "", "For more information, try '--help'."]⟩

/-! ### Single arguments -/

/-- The kinds of arguments. -/
inductive Shape where
  /-- `--`, after which there are operands only. -/
  | terminator
  /-- A long option, perhaps with a value attached. -/
  | long (name : String) (value : Option String)
  /-- Several short options behind one hyphen. -/
  | cluster (letters : List Char)
  | operand
deriving DecidableEq, Repr

/-- The kind of an argument.  A single hyphen is an operand. -/
def Shape.ofArgument (argument : String) : Shape :=
  match argument.toList with
  | ['-', '-'] => .terminator
  | '-' :: '-' :: cs =>
    .long (String.ofList (cs.takeWhile (· != '=')))
      (match cs.dropWhile (· != '=') with
        | [] => none
        | _ :: value => some (String.ofList value))
  | '-' :: c :: cs => .cluster (c :: cs)
  | _ => .operand

/-- A character and the text that is to stand for it: `SYM=TEXT`. -/
def readSpecial? (value : String) : Option (Char × String) :=
  match value.toList with
  | c :: '=' :: text => some (c, String.ofList text)
  | _ => none

/-- Is a value one that an option can take? -/
def OptionName.accepts (option : OptionName) (value : String) : Bool :=
  match option with
  | .maxDepth => (readSize? value.toList).isSome
  | .special => (readSpecial? value).isSome
  | _ => true

/-! ### Lines of arguments -/

/-- The arguments read so far: operands, and options with their values, in order. -/
structure Line where
  operands : List String
  options : List (OptionName × String)
deriving DecidableEq, Repr

namespace Line

def values (line : Line) (option : OptionName) : List String :=
  line.options.filterMap fun (given, value) => if given = option then some value else none

def value? (line : Line) (option : OptionName) : Option String := (line.values option).head?

def has (line : Line) (option : OptionName) : Bool := !(line.values option).isEmpty

/-- One more option; an option without a value comes with an empty one. -/
def addOption (sub : Subcommand) (line : Line) (option : OptionName) (value : String) :
    Except Stop Line :=
  if option = .help then .error (.help sub)
  else if line.has option && !option.mayRepeat then .error (.usage sub)
  else if option.accepts value then
    .ok { line with options := line.options ++ [(option, value)] }
  else .error (.usage sub)

def addOperand (sub : Subcommand) (line : Line) (operand : String) : Except Stop Line :=
  if sub.admitsOperand line.operands.length then
    .ok { line with operands := line.operands ++ [operand] }
  else .error (.usage sub)

def addLetter (sub : Subcommand) (line : Line) (letter : Char) : Except Stop Line :=
  match sub.shortOption? letter with
  | some option => line.addOption sub option ""
  | none => .error (.usage sub)

def read (sub : Subcommand) (line : Line) : List String → Except Stop Line
  | [] => .ok line
  | argument :: rest =>
    match Shape.ofArgument argument with
    | .terminator => rest.foldlM (addOperand sub) line
    | .operand => do
      let line ← line.addOperand sub argument
      read sub line rest
    | .cluster letters => do
      let line ← letters.foldlM (addLetter sub) line
      read sub line rest
    | .long name attached =>
      match sub.longOption? name, attached, rest with
      | none, _, _ => .error (.usage sub)
      | some option, some value, rest =>
        if option.takesValue then do
          let line ← line.addOption sub option value
          read sub line rest
        else .error (.usage sub)
      | some option, none, [] =>
        if option.takesValue then .error (.usage sub) else line.addOption sub option ""
      | some option, none, value :: rest =>
        if option.takesValue then
          if Shape.ofArgument value = .operand then do
            let line ← line.addOption sub option value
            read sub line rest
          else .error (.usage sub)
        else do
          let line ← line.addOption sub option ""
          read sub line (value :: rest)

/-! ### Requests from lines -/

/-- The count of a flag stops at 255. -/
def logging (line : Line) : Logging :=
  ⟨line.has .quiet, min 255 (line.values .verbose).length, line.has .ts⟩

/-- A size given for an option, or the usual one. -/
def size (line : Line) (option : OptionName) (usual : Nat) : Nat :=
  ((line.value? option).bind fun value => readSize? value.toList).getD usual

/-- The request that a line makes, if no operand is missing. -/
def request (sub : Subcommand) (line : Line) : Except Stop Request :=
  match sub, line.operands with
  | .synth, words =>
    .ok (.synth ⟨words, (line.values .special).filterMap readSpecial?, line.has .lookahead,
      line.size .maxDepth Chain.defaultMergeDepth, line.value? .input, line.value? .output⟩)
  | .parse, [pattern] =>
    .ok (.parse ⟨pattern, line.has .json, line.size .maxDepth defaultGroupDepth,
      line.value? .output⟩)
  | .parse, _ => .error (.usage sub)
  | .translate, [] => .error (.usage sub)
  | .translate, patterns => .ok (.translate ⟨patterns, line.has .json, line.value? .output⟩)

end Line

/-- The help that is asked for by name: about the program, or about a subcommand. -/
def readHelp : List String → Stop
  | [] => .help none
  | [topic] =>
    match Subcommand.named? topic with
    | some sub => .help sub
    | none => if topic = "help" then .help none else .usage none
  | _ => .usage none

def Invocation.ofArguments : List String → Except Stop Invocation
  | [] => .error ⟨2, "", helpText none⟩
  | first :: rest =>
    match Subcommand.named? first with
    | some sub => do
      let line ← Line.read sub ⟨[], []⟩ rest
      let request ← line.request sub
      return ⟨request, line.logging⟩
    | none =>
      if first = "help" then .error (readHelp rest)
      else if first = "--help" ∨ first.toList.take 2 = ['-', 'h'] then .error (.help none)
      else .error (.usage none)

end RegexText.CommandLine
