/-
  RegexText/Main.lean
  ===================
  **The program.**

  A run reads at most one file, and writes at most one after that.  So the files
  of the system come down to what reading the one gives, and to what has been
  written to the other.  The run is carried out as if the other could be opened;
  if the system refuses it after all, the run is carried out again with the
  refusal known.
-/
import RegexText.CommandLine.Run

namespace RegexText.CommandLine

/-! ### The files of a run -/

/-- What is known of the input and the output of a run. -/
structure Opened where
  input : Except IoError (List UInt8)
  /-- Why the output cannot be opened, if it is known that it cannot. -/
  refusal? : Option IoError
  /-- What has been written to the output, if it was opened. -/
  written? : Option (List UInt8)

namespace Opened

def create (opened : Opened) : Except IoError Opened :=
  match opened.refusal? with
  | some error => .error error
  | none => .ok { opened with written? := some [] }

def append (opened : Opened) (content : List UInt8) : Opened :=
  { opened with written? := some (opened.written?.getD [] ++ content) }

end Opened

/-- The usual platform with the files of the system. -/
def system (time : String) : Platform Opened :=
  platform time (fun opened _ => opened.input) (fun opened _ => opened.create)
    fun opened _ content => opened.append content

/-- What an invocation reads: nothing, standard input, or a file. -/
inductive InputKind where
  | nothing
  | stdin
  | file (path : String)

def Invocation.inputKind (invocation : Invocation) : InputKind :=
  match invocation.request with
  | .synth request =>
    match filePath? request.input with
    | some path => .file path
    | none => if request.words.isEmpty || request.input.isSome then .stdin else .nothing
  | _ => .nothing

/-! ### Errors of the system -/

/-- The kind of an error, by its code. -/
def kindOfCode : Nat → String
  | 1 => "PermissionDenied"
  | 2 => "NotFound"
  | 13 => "PermissionDenied"
  | 17 => "AlreadyExists"
  | 20 => "NotADirectory"
  | 21 => "IsADirectory"
  | 22 => "InvalidInput"
  | 26 => "ExecutableFileBusy"
  | 27 => "FileTooLarge"
  | 28 => "StorageFull"
  | 30 => "ReadOnlyFilesystem"
  | 36 => "InvalidFilename"
  | _ => "Uncategorized"

/-- An error of the system, as the program shows it.  Some codes come with their sign turned. -/
def IoError.ofSystem (error : IO.Error) : IoError :=
  let known (code : UInt32) (message : String) : IoError :=
    let code := (if code < 0x80000000 then code else 0 - code).toNat
    ⟨code, kindOfCode code, message.capitalize⟩
  match error with
  | .alreadyExists _ code message => known code message
  | .otherError code message => known code message
  | .resourceBusy code message => known code message
  | .resourceVanished code message => known code message
  | .unsupportedOperation code message => known code message
  | .hardwareFault code message => known code message
  | .unsatisfiedConstraints code message => known code message
  | .illegalOperation code message => known code message
  | .protocolError code message => known code message
  | .timeExpired code message => known code message
  | .interrupted _ code message => known code message
  | .noFileOrDirectory _ code message => known code message
  | .invalidArgument _ code message => known code message
  | .permissionDenied _ code message => known code message
  | .resourceExhausted _ code message => known code message
  | .inappropriateType _ code message => known code message
  | .noSuchThing _ code message => known code message
  | .unexpectedEof => ⟨0, "UnexpectedEof", "unexpected end of file"⟩
  | .userError message => ⟨0, "Other", message⟩

/-- Do something, and keep the error if there is one. -/
def attempted {α : Type} (act : IO α) : IO (Except IoError α) := do
  try
    return .ok (← act)
  catch error => return .error (.ofSystem error)

/-- All bytes that are left in a stream. -/
partial def readAll (stream : IO.FS.Stream) (known : ByteArray) : IO ByteArray := do
  let chunk ← stream.read 65536
  if chunk.isEmpty then return known
  readAll stream (known ++ chunk)

/-- Carry out a run, and hand over to the system what it has written. -/
def carryOutOnSystem (arguments : List String) (around : Surroundings Opened)
    (output? : Option String) : IO (Outcome Opened) := do
  let outcome := (system epoch).run arguments around
  match output?, outcome.directory.written? with
  | some path, some content =>
    match ← attempted (IO.FS.writeBinFile path ⟨content.toArray⟩) with
    | .ok () => return outcome
    | .error error =>
      let known := { around.directory with refusal? := some error }
      return (system epoch).run arguments { around with directory := known }
  | _, _ => return outcome

end RegexText.CommandLine

open RegexText.CommandLine in
def main (arguments : List String) : IO UInt32 := do
  let invocation? := (Invocation.ofArguments arguments).toOption
  let read ←
    match (invocation?.map Invocation.inputKind).getD .nothing with
    | .nothing => pure (.ok .empty)
    | .stdin => attempted do readAll (← IO.getStdin) .empty
    | .file path => attempted (IO.FS.readBinFile path)
  let bytes := read.map ByteArray.toList
  let output? := invocation?.bind fun invocation => invocation.request.output?
  let outcome ← carryOutOnSystem arguments ⟨bytes, ⟨bytes, none, none⟩⟩ output?
  IO.print outcome.stdout
  IO.eprint outcome.stderr
  return outcome.exitCode.toUInt32
