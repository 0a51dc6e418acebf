import LongPress.Text.Split

/-!
# LongPress.Tool.FileName

The extension of a file name: what follows the last dot of the last name in a path. A dot at the
very start of a name does not begin an extension.
-/

namespace LongPress.FileName

/-- A reversed path without slashes, and names of one dot after a slash, at its end. -/
def dropTail : List Char → List Char
  | '/' :: rest => dropTail rest
  | '.' :: '/' :: rest => dropTail rest
  | path => path

/-- The part of a path before its last name, and that name; none if it ends in no name. -/
def splitName? (path : List Char) : Option (List Char × List Char) :=
  let reversed := dropTail path.reverse
  let name := (reversed.takeWhile (· ≠ '/')).reverse
  if name = [] ∨ name = ['.'] ∨ name = ['.', '.'] then none
  else some ((reversed.dropWhile (· ≠ '/')).reverse, name)

/-- The stem and the extension of a name. -/
def splitExtension? (name : List Char) : Option (List Char × List Char) :=
  (Text.splitLast? '.' name).filter fun parts => parts.1 ≠ []

/-- The extension of a path. -/
def extension? (path : String) : Option String :=
  ((splitName? path.toList).bind fun parts => splitExtension? parts.2).map fun parts =>
    String.ofList parts.2

/-- What is left of a name without its extension: its stem and the dot. A name without an extension
gets a dot. -/
def stemWithDot (name : List Char) : List Char :=
  match splitExtension? name with
  | some (stem, _) => stem ++ ['.']
  | none => name ++ ['.']

/-- A path with another extension. A path that ends in no name stays as it is, and so does one that
would end in none without its extension: `..conf` becomes `..`, which names a directory. -/
def withExtension (path extension : String) : String :=
  match splitName? path.toList with
  | none => path
  | some (folder, name) =>
    let stem := stemWithDot name
    if stem = ['.', '.'] then String.ofList (folder ++ stem)
    else String.ofList (folder ++ stem) ++ extension

end LongPress.FileName
