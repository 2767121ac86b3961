import ArithFrontEnd.CommandLine.Report

/-!
# Commands in a directory of files

A directory holds files by their places; the folders on the way to a file are there with it. A path
is walked name by name, each of them that of a folder but perhaps the last. A command is run in a
directory: it may read one file and write one.

## Main definitions

* `Directory`, `Place` — files in memory, and the folders that a path leads to.
* `Directory.locate` — the walk along a path.
* `Directory.read`, `Directory.write` — files read and written by path.
* `Command.runIn` — the report of a command, and the directory after it.
* `Directory.changes` — the files that are new or changed.
-/

namespace ArithFrontEnd.CommandLine

/-- Files in memory. The place of a file is the list of the names that lead to it. -/
structure Directory where
  /-- The files with their places and bytes. -/
  files : List (List String × ByteArray)

/-- A folder that a path leads to. -/
inductive Place
  /-- The directory, or a folder below it. -/
  | inside (place : List String)
  /-- A folder above the directory, or beside it. Of what it holds nothing is known. -/
  | outside
  deriving DecidableEq, Repr

namespace Place

/-- The folder that holds a folder. -/
def parent : Place → Place
  | inside [] => outside
  | inside place => inside place.dropLast
  | outside => outside

/-- The folder of this name in a folder. -/
def child : Place → String → Place
  | inside place, name => inside (place ++ [name])
  | outside, _ => outside

end Place

/-- What a name in a folder stands for. -/
inductive Entry
  /-- A file with its bytes. -/
  | file (bytes : ByteArray)
  /-- A folder. -/
  | folder

/-- The place is a folder. -/
def isFolderError : FileError := .system "Is a directory" 21

/-- A name on the way is that of a file. -/
def notFolderError : FileError := .system "Not a directory" 20

/-- A name or a path has too many bytes. -/
def tooLongError : FileError := .system "File name too long" 36

/-- The most bytes of a name. -/
def nameLimit : Nat := 255

/-- A path has fewer bytes than this. -/
def pathLimit : Nat := 4096

namespace Directory

/-- The bytes of the file at a place. -/
def bytes? (d : Directory) (place : List String) : Option ByteArray := d.files.lookup place

/-- What has this name in a folder. -/
def entry? (d : Directory) (folder : Place) (name : String) : Option Entry :=
  match folder with
  | .outside => none
  | .inside place =>
    let place := place ++ [name]
    match d.bytes? place with
    | some bytes => some (.file bytes)
    | none => if d.files.any fun (file, _) => place.isPrefixOf file then some .folder else none

/-- Look for a name in a folder. A name of too many bytes is refused before it is looked for. -/
def find (d : Directory) (folder : Place) (name : String) : Except FileError (Option Entry) :=
  if nameLimit < name.utf8ByteSize then .error tooLongError else .ok (d.entry? folder name)

/-- The folder that a name leads to from a folder. -/
def enter (d : Directory) (folder : Place) (name : String) : Except FileError Place := do
  if name = "." then .ok folder
  else if name = ".." then .ok folder.parent
  else
    match ← d.find folder name with
    | some .folder => .ok (folder.child name)
    | some (.file _) => .error notFolderError
    | none => .error .notFound

/-- The folder at the end of all names of a path but the last, and the last name. There is none if
the path ends in a folder by its form. The names are entered in order, so that the first one that
is no folder decides the error, whatever comes after it. -/
def locate (d : Directory) (path : String) : Except FileError (Place × Option String) := do
  if path = "" then .error .notFound
  else if pathLimit ≤ path.utf8ByteSize then .error tooLongError
  else
    let start := if path.startsWith "/" then Place.outside else .inside []
    let names := (path.splitOn "/").filter (· ≠ "")
    let folder ← names.dropLast.foldlM d.enter start
    return (folder, names.getLast?.filter fun name => name ≠ "." ∧ name ≠ "..")

/-- Read the text of a file. -/
def read (d : Directory) (path : String) : Except FileError String := do
  match ← d.locate path with
  | (_, none) => .error isFolderError
  | (folder, some name) =>
    match ← d.find folder name with
    | none => .error .notFound
    | some .folder => .error isFolderError
    | some (.file bytes) =>
      if path.endsWith "/" then .error notFolderError else FileError.decode bytes

/-- Write the text of a file. A path that ends in a slash can only be that of a folder. A file
outside the directory makes no difference to it. -/
def write (d : Directory) (path text : String) : Except FileError Directory := do
  match ← d.locate path with
  | (_, none) => .error isFolderError
  | (folder, some name) =>
    if path.endsWith "/" then .error isFolderError
    else
      match ← d.find folder name, folder with
      | some .folder, _ => .error isFolderError
      | _, .outside => .ok d
      | _, .inside place =>
        let place := place ++ [name]
        .ok ⟨d.files.filter (·.1 != place) ++ [(place, text.toUTF8)]⟩

/-- The files of a later state of the directory that are new or changed. -/
def changes (d later : Directory) : List (List String × ByteArray) :=
  later.files.filter fun (place, bytes) => (d.bytes? place).map (·.data) != some bytes.data

end Directory

/-- The report of a command that is run in a directory, and the directory after it. -/
def Command.runIn (d : Directory) (command : Command) : Report × Directory :=
  let report := command.report d.read
  match report.output with
  | none => (report, d)
  | some output =>
    match d.write output.path output.text with
    | .ok d => (report, d)
    | .error e => (report.afterWriting (.error e), d)

end ArithFrontEnd.CommandLine
