/-!
# LongPress.Tool.Files

Files as the tool sees them: a way to read a whole file and a way to write one, and what can go
wrong with either.
-/

namespace LongPress

/-- Why a file could not be read or written. -/
inductive FileError where
  /-- A name on the path does not exist. -/
  | missing
  /-- The path leads to a directory. -/
  | isDirectory
  /-- The path goes on behind a file. -/
  | notDirectory
  /-- The path, or a name on it, is longer than allowed. -/
  | nameTooLong
  | other (text : String)
  deriving DecidableEq, Repr

def FileError.message : FileError → String
  | missing => "No such file or directory (os error 2)"
  | isDirectory => "Is a directory (os error 21)"
  | notDirectory => "Not a directory (os error 20)"
  | nameTooLong => "File name too long (os error 36)"
  | other text => text

/-- Reading and writing whole files. -/
structure FileSystem (m : Type → Type) where
  read : String → m (Except FileError ByteArray)
  write : String → ByteArray → m (Except FileError Unit)

end LongPress
