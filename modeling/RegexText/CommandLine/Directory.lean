/-
  RegexText/CommandLine/Directory.lean
  ====================================
  **Files that a run can read and write, without a system behind them.**

  A path is a list of names between slashes.  Each name is a step: an empty name
  and a single dot stay, two dots lead to what holds the place, any other name
  leads into it, and only folders can be left behind.  A directory knows what is
  found at some places, and every place on the way to one of them is a folder.
  Opening a file for writing empties it, and creates it where a folder is there
  to hold it.
-/
import RegexText.CommandLine.Program

namespace RegexText.CommandLine

/-! ### Paths -/

namespace IoError

def notFound : IoError := ⟨2, "NotFound", "No such file or directory"⟩

def notAFolder : IoError := ⟨20, "NotADirectory", "Not a directory"⟩

def isFolder : IoError := ⟨21, "IsADirectory", "Is a directory"⟩

end IoError

/-- The names of a path, without the empty ones at its end. -/
def pathNames (path : String) : List String :=
  ((((splitAt '/' path.toList).map String.ofList).reverse).dropWhile (· == "")).reverse

/-- Does a path begin at the root? -/
def isAbsolute (path : String) : Bool := path.toList.head? == some '/'

/-- Does a path ask for a folder, by a slash at its end? -/
def asksForFolder (path : String) : Bool := path.toList.getLast? == some '/'

/-! ### Directories -/

inductive Entry where
  | file (content : List UInt8)
  | folder
  /-- What is there cannot be opened. -/
  | refused (error : IoError)
deriving DecidableEq, Repr

/-- What is found at some places, each told by the names that lead to it from the root. -/
structure Directory where
  /-- The place where paths begin that do not begin at the root. -/
  home : List String
  entries : List (List String × Entry)
deriving DecidableEq, Repr

namespace Directory

/-- What is found at a place. -/
def entry? (d : Directory) (place : List String) : Option Entry :=
  match d.entries.lookup place with
  | some entry => some entry
  | none => if d.entries.any fun (known, _) => place.isPrefixOf known then some .folder
    else if place.isPrefixOf d.home then some .folder
    else none

/-- The place to which a name leads from a place. -/
def step (place : List String) (name : String) : List String :=
  if name = "" ∨ name = "." then place
  else if name = ".." then place.dropLast
  else place ++ [name]

/-- The place to which some names lead from a place, if every place that is left behind is a
    folder. -/
def follow (d : Directory) (place : List String) : List String → Except IoError (List String)
  | [] => .ok place
  | name :: names =>
    match d.entry? place with
    | some .folder => d.follow (step place name) names
    | some (.file _) => .error .notAFolder
    | some (.refused error) => .error error
    | none => .error .notFound

/-- The place to which a path leads. -/
def find (d : Directory) (path : String) : Except IoError (List String) :=
  if path = "" then .error .notFound
  else d.follow (if isAbsolute path then [] else d.home) (pathNames path)

/-- The content of the file to which a path leads. -/
def content? (d : Directory) (path : String) : Option (List UInt8) :=
  match d.find path with
  | .error _ => none
  | .ok place =>
    match d.entry? place with
    | some (.file content) => some content
    | _ => none

def read (d : Directory) (path : String) : Except IoError (List UInt8) := do
  let place ← d.find path
  match d.entry? place with
  | none => .error .notFound
  | some .folder => .error .isFolder
  | some (.refused error) => .error error
  | some (.file content) => if asksForFolder path then .error .notAFolder else .ok content

/-- Put an entry at a place, instead of what was there. -/
def insertEntry (place : List String) (entry : Entry) :
    List (List String × Entry) → List (List String × Entry)
  | [] => [(place, entry)]
  | (known, old) :: later =>
    if known = place then (known, entry) :: later
    else (known, old) :: insertEntry place entry later

def put (d : Directory) (place : List String) (content : List UInt8) : Directory :=
  ⟨d.home, insertEntry place (.file content) d.entries⟩

def create (d : Directory) (path : String) : Except IoError Directory := do
  let place ← d.find path
  match d.entry? place with
  | some .folder => .error .isFolder
  | some (.refused error) => .error error
  | _ => if asksForFolder path then .error .isFolder else .ok (d.put place [])

def append (d : Directory) (path : String) (content : List UInt8) : Directory :=
  match d.find path with
  | .error _ => d
  | .ok place => d.put place ((d.content? path).getD [] ++ content)

/-- A folder with some files, where paths begin. -/
def ofFiles (files : List (String × List UInt8)) : Directory :=
  files.foldl (fun d (path, content) => d.put ((pathNames path).foldl step d.home) content)
    ⟨["home"], []⟩

end Directory

end RegexText.CommandLine
