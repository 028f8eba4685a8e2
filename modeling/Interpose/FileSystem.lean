import Interpose.Error

/-!
# File systems

Files and directories by their paths.  A path is followed step by step, from the root if it starts
with a slash and from the current directory if not; every step but the last has to lead to a
directory.

## Main definitions

* `Path.steps`, `Path.fileName?`, `Path.join` — the parts of a path
* `FileSystem` — the directories and the contents of the files
* `FileSystem.approach` — where the last step of a path is taken
* `FileSystem.read`, `FileSystem.write` — access to a file
-/

namespace Interpose

namespace Path

/-- The pieces between the slashes of a path. -/
def pieces : List Char → List (List Char)
  | [] => [[]]
  | c :: rest =>
    match pieces rest with
    | [] => [[c]]
    | piece :: others => if c = '/' then [] :: piece :: others else (c :: piece) :: others

/-- The steps of a path.  Empty pieces count for nothing. -/
def steps (path : String) : List String :=
  ((pieces path.toList).filter (· ≠ [])).map String.ofList

/-- Whether a path starts at the root. -/
def isAbsolute (path : String) : Bool := path.toList.head? = some '/'

/-- Whether a path asks for a directory by a slash at its end. -/
def endsInSlash (path : String) : Bool := path.toList.getLast? = some '/'

/-- The name of the file that a path leads to. -/
def fileName? (path : String) : Option String :=
  match ((steps path).filter (· ≠ ".")).getLast? with
  | some ".." => none
  | last => last

/-- The path of a file in a directory. -/
def join (directory name : String) : String :=
  if directory = "" then name
  else if directory.endsWith "/" then directory ++ name
  else directory ++ "/" ++ name

/-- The greatest length of a path in bytes. -/
def lengthLimit : Nat := 4095

/-- The greatest length of a name in bytes. -/
def nameLimit : Nat := 255

/-- Checks what can be seen of a path without following it. -/
def check (path : String) : Except FileProblem Unit := do
  if path.toList.contains (Char.ofNat 0) then throw .badCharacter
  if lengthLimit < path.utf8ByteSize then throw .tooLong

/-- Checks the length of a name. -/
def checkName (name : String) : Except FileProblem Unit := do
  if nameLimit < name.utf8ByteSize then throw .tooLong

end Path

/-- Directories and files.  Places are given by the names that lead to them from the root. -/
structure FileSystem where
  /-- The directory that relative paths start at. -/
  current : List String := []
  directories : List (List String) := []
  files : List (List String × List UInt8) := []
deriving Repr, Inhabited

namespace FileSystem

/-- The file system with nothing but a current directory and empty directories of the given names
in it. -/
def working (place names : List String) : FileSystem where
  current := place
  directories :=
    (List.range place.length).map (fun n => place.take (n + 1)) ++
      names.map fun name => place ++ [name]

/-- Whether a place is a directory; the root always is. -/
def isDirectory (fs : FileSystem) (place : List String) : Bool :=
  place.isEmpty || fs.directories.contains place

/-- The content of the file at a place. -/
def content? (fs : FileSystem) (place : List String) : Option (List UInt8) := fs.files.lookup place

/-- One step that has to lead to a directory.  The root is its own parent. -/
def enter (fs : FileSystem) (here : List String) (step : String) :
    Except FileProblem (List String) := do
  if step = "." then return here
  if step = ".." then return here.dropLast
  Path.checkName step
  let place := here ++ [step]
  if fs.isDirectory place then return place
  if (fs.content? place).isSome then throw .notADirectory
  throw .notFound

/-- The directory in which the last step of a path is taken, and the name it goes to.  A path
without steps, or with a last step that goes to no name, leads to a directory. -/
def approach (fs : FileSystem) (path : String) :
    Except FileProblem (Option (List String × String)) := do
  Path.check path
  let steps := Path.steps path
  let here ← steps.dropLast.foldlM fs.enter (if Path.isAbsolute path then [] else fs.current)
  match steps.getLast? with
  | none | some "." | some ".." => return none
  | some name => return some (here, name)

/-- The content of the file that a path leads to. -/
def read (fs : FileSystem) (path : String) : Except FileProblem (List UInt8) := do
  match ← fs.approach path with
  | none => throw .other
  | some (here, name) =>
    Path.checkName name
    let place := here ++ [name]
    if fs.isDirectory place then throw .other
    match fs.content? place with
    | none => throw .notFound
    | some content =>
      if Path.endsInSlash path then throw .notADirectory
      return content

/-- The files with one of them given other contents. -/
def put (files : List (List String × List UInt8)) (place : List String) (content : List UInt8) :
    List (List String × List UInt8) :=
  (place, content) :: files.filter fun file => file.1 ≠ place

/-- The file system after the file that a path leads to is written. -/
def write (fs : FileSystem) (path : String) (content : List UInt8) :
    Except FileProblem FileSystem := do
  match ← fs.approach path with
  | none => throw .isADirectory
  | some (here, name) =>
    -- A slash at the end is refused before it is known whether there is anything of that name.
    if Path.endsInSlash path then throw .isADirectory
    Path.checkName name
    let place := here ++ [name]
    if fs.isDirectory place then throw .isADirectory
    return { fs with files := put fs.files place content }

end FileSystem

end Interpose
