import LongPress.Diagnostic
import LongPress.Settings.Image
import LongPress.Text.Blank
import LongPress.Text.Split

/-!
# LongPress.Settings.Source

Settings files.

A settings file has one statement a line. A `#` starts a comment that ends with the line, and blank
lines mean nothing. The header `[global]` has to come first; after it, each line `name = value`
assigns one setting. The last assignment of a setting counts.

The first line with a fault ends the reading, and the fault is reported with its span.
-/

namespace LongPress

/-- What is wrong with a line. -/
inductive Fault where
  | unclosedHeader
  | unknownSection (name : String)
  /-- An assignment before any header. -/
  | noSection
  | missingEquals
  | missingName
  | missingValue
  | severalValues
  | badSetting (error : PropertyError)
  deriving DecidableEq, Repr

def Fault.message : Fault → String
  | unclosedHeader => "missing ']'"
  | unknownSection name => "Unknown section '" ++ name ++ "'"
  | noSection => "expected '['"
  | missingEquals => "Missing ="
  | missingName => "Missing name"
  | missingValue => "Missing RHS"
  | severalValues => "Only one value may be assigned"
  | badSetting error => error.message

/-- A fault and where it is. -/
structure SourceError where
  fault : Fault
  span : Span
  deriving DecidableEq, Repr

def SourceError.diagnostic (e : SourceError) : Diagnostic where
  message := e.fault.message
  span? := some e.span

/-! ## Fragments -/

/-- A piece of a file and the offset at which it starts. -/
structure Fragment where
  start : Nat
  text : List Char
  deriving DecidableEq, Repr

namespace Fragment

/-- The offset at which a fragment ends. -/
def stop (f : Fragment) : Nat := f.start + Text.byteLength f.text

def span (f : Fragment) : Span := ⟨f.start, f.stop⟩

/-- The fragment without the blanks around it. -/
def trim (f : Fragment) : Fragment where
  start := f.start + Text.byteLength (f.text.takeWhile Text.isBlank)
  text := Text.trim f.text

/-- The fragments before and after the first occurrence of a character. -/
def splitFirst? (c : Char) (f : Fragment) : Option (Fragment × Fragment) :=
  (Text.splitFirst? c f.text).map fun parts =>
    (⟨f.start, parts.1⟩, ⟨f.start + Text.byteLength parts.1 + c.utf8Size, parts.2⟩)

/-- The fragment up to the first occurrence of a character, or all of it. -/
def upTo (c : Char) (f : Fragment) : Fragment := ((f.splitFirst? c).map (·.1)).getD f

/-- The fragment from its first blank on. -/
def fromBlank? (f : Fragment) : Option Fragment :=
  match f.text.dropWhile (!Text.isBlank ·) with
  | [] => none
  | rest =>
    some ⟨f.start + Text.byteLength (f.text.takeWhile (!Text.isBlank ·)), rest⟩

/-- Lines that follow each other from an offset on. -/
def linesFrom (start : Nat) : List (List Char) → List Fragment
  | [] => []
  | line :: rest => ⟨start, line⟩ :: linesFrom (start + Text.byteLength line + 1) rest

/-- The lines of a file, without their ends. -/
def lines (source : List Char) : List Fragment := linesFrom 0 (Text.splitAll '\n' source)

/-- What a line says: all before a comment, without the blanks around it. -/
def statement (line : Fragment) : Fragment := (line.upTo '#').trim

end Fragment

/-! ## Statements -/

/-- What has been read so far. -/
structure Reading where
  config : Config := {}
  /-- Whether there has been a header. -/
  inSection : Bool := false
  deriving DecidableEq, Repr

namespace Reading

/-- The name in a header without its brackets, as it stands there. -/
def headerName? : List Char → Option (List Char)
  | '[' :: rest => if rest.getLast? = some ']' then some rest.dropLast else none
  | _ => none

/-- Reads a header. -/
def readHeader (r : Reading) (f : Fragment) : Except SourceError Reading :=
  match headerName? f.text with
  | none => .error ⟨.unclosedHeader, f.start, f.start + 1⟩
  | some name =>
    let name := String.ofList (Text.trim name)
    if name = "global" then .ok { r with inSection := true }
    else .error ⟨.unknownSection name, f.start + 1, f.stop - 1⟩

/-- Assigns a value to a named setting. -/
def assign (r : Reading) (name value : Fragment) : Except SourceError Reading :=
  match Property.named (String.ofList name.text) with
  | .error e => .error ⟨.badSetting e, name.span⟩
  | .ok p =>
    match p.assign (String.ofList value.text) with
    | .error e => .error ⟨.badSetting e, value.span⟩
    | .ok p => .ok { r with config := r.config.set p }

/-- Reads an assignment. -/
def readAssignment (r : Reading) (f : Fragment) : Except SourceError Reading :=
  if r.inSection then
    match f.splitFirst? '=' with
    | none => .error ⟨.missingEquals, f.span⟩
    | some (left, right) =>
      let name := left.trim
      let value := right.trim
      if name.text = [] then .error ⟨.missingName, f.start, right.start⟩
      else if value.text = [] then .error ⟨.missingValue, f.span⟩
      else
        match value.fromBlank? with
        | some rest => .error ⟨.severalValues, rest.span⟩
        | none => r.assign name value
  else .error ⟨.noSection, f.span⟩

/-- Reads one line. -/
def readLine (r : Reading) (line : Fragment) : Except SourceError Reading :=
  let f := line.statement
  match f.text with
  | [] => .ok r
  | '[' :: _ => r.readHeader f
  | _ => r.readAssignment f

/-- Reads lines up to the first fault. -/
def readLines (r : Reading) : List Fragment → Except SourceError Reading
  | [] => .ok r
  | line :: rest =>
    match r.readLine line with
    | .ok next => next.readLines rest
    | .error e => .error e

end Reading

/-- The configuration that a settings file describes. -/
def compile (source : String) : Except SourceError Config :=
  (Reading.readLines {} (Fragment.lines source.toList)).map (·.config)

end LongPress
