import LongPress.Settings.Source
import LongPress.Tool.Directory
import LongPress.Tool.FileName
import LongPress.Tool.Listing

/-!
# LongPress.Tool.Command

The commands of the tool: describing a key, listing names, and checking, compiling and showing
settings files.

A command prints lines and succeeds, or prints nothing and fails. Only `compile` writes a file, and
only once everything else has gone well.
-/

namespace LongPress

inductive Command where
  /-- Shows the code of a written key. -/
  | keycode (expression : String)
  /-- Lists names of keys. -/
  | keycodes (listing : Listing)
  /-- Checks a settings file; `verbose` shows its image. -/
  | validate (verbose : Bool) (file : String)
  /-- Writes the image of a settings file. -/
  | compile (output? : Option String) (file : String)
  /-- Shows the settings of a file: an image if its name ends in `.bin`, else a settings file. -/
  | settings (file : String)
  deriving DecidableEq, Repr

/-- Why a command failed. -/
inductive Failure where
  | text (message : String)
  /-- A settings file has a fault, to be shown in the file's own text. -/
  | excerpt (file source : String) (diagnostic : Diagnostic)
  deriving DecidableEq, Repr

/-- What a command printed, or why it failed. -/
abbrev Outcome := Except Failure (List String)

namespace Outcome

/-- The exit status. -/
def status : Outcome → UInt8
  | .ok _ => 0
  | .error _ => 1

/-- What goes to the output: every line with its end. -/
def output : Outcome → String
  | .ok lines => String.join (lines.map (· ++ "\n"))
  | .error _ => ""

end Outcome

namespace Command

/-! ## Files -/

variable {m : Type → Type} [Monad m]

/-- Reads a file that has to be text. -/
def readText (fs : FileSystem m) (file : String) : m (Except FileError String) := do
  match ← fs.read file with
  | .error e => return .error e
  | .ok bytes =>
    match String.fromUTF8? bytes with
    | some text => return .ok text
    | none => return .error (.other "stream did not contain valid UTF-8")

/-- The configuration of a settings file that has been read. -/
def compileText (file source : String) : Except Failure Config :=
  match LongPress.compile source with
  | .ok config => .ok config
  | .error e => .error (.excerpt file source e.diagnostic)

/-- A file that cannot be compiled because it cannot be read. -/
def unreadable (file : String) (e : FileError) : Failure :=
  .text ("Failed to compile \"" ++ file ++ "\"!\n    " ++ e.message)

/-- The configuration of an image file that has been read. -/
def decodeBytes (bytes : ByteArray) : Except Failure Config :=
  match (Image.ofBytes bytes.data.toList).bind Config.decode with
  | .ok config => .ok config
  | .error e => .error (.text e.message)

/-! ## What is printed -/

/-- A code in hexadecimal and its description. -/
def keycodeLine (k : Keycode) : String :=
  "0x" ++ String.ofList (Text.hex 4 k.toNat) ++ ": " ++ k.describe

/-- The size of an image in bytes, and its words in hexadecimal. -/
def imageLines (image : List UInt16) : List String :=
  ["binary size: " ++ Nat.repr (2 * image.length),
    "image:       " ++ " ".intercalate
      (image.map fun (w : UInt16) => String.ofList (Text.hex 4 w.toNat))]

/-- The width of the column of names. -/
def nameWidth : Nat := 26

/-- A setting and its value, with the values in one column. -/
def settingLine (setting : String × String) : String :=
  String.ofList (setting.1.toList.rightpad nameWidth ' ') ++ " = " ++ setting.2

def settingLines (config : Config) : List String := config.describe.map settingLine

/-! ## The commands -/

def runKeycode (expression : String) : Outcome :=
  match Keycode.parse expression with
  | .ok k => .ok [keycodeLine k]
  | .error e => .error (.text e.message)

def runKeycodes (listing : Listing) : Outcome :=
  match listing.lines with
  | .ok lines => .ok lines
  | .error e => .error (.text e.message)

def runValidate (fs : FileSystem m) (verbose : Bool) (file : String) : m Outcome := do
  match ← readText fs file with
  | .error e => return .error (unreadable file e)
  | .ok source =>
    return (compileText file source).map fun config =>
      if verbose then imageLines config.encode else []

/-- The file that an image is written to if none is named. -/
def defaultOutput (file : String) : String := FileName.withExtension file "bin"

def runCompile (fs : FileSystem m) (output? : Option String) (file : String) : m Outcome := do
  match ← readText fs file with
  | .error e => return .error (unreadable file e)
  | .ok source =>
    match compileText file source with
    | .error e => return .error e
    | .ok config =>
      let bytes := (Image.toBytes config.encode).toByteArray
      match ← fs.write (output?.getD (defaultOutput file)) bytes with
      | .ok () => return .ok []
      | .error e => return .error (.text e.message)

/-- The configuration of a file, either an image or a settings file. -/
def readConfig (fs : FileSystem m) (file : String) : m (Except Failure Config) := do
  if FileName.extension? file = some "bin" then
    match ← fs.read file with
    | .error e => return .error (.text e.message)
    | .ok bytes => return decodeBytes bytes
  else
    match ← readText fs file with
    | .error e => return .error (.text e.message)
    | .ok source => return compileText file source

def runSettings (fs : FileSystem m) (file : String) : m Outcome := do
  return (← readConfig fs file).map settingLines

def run (fs : FileSystem m) : Command → m Outcome
  | keycode expression => pure (runKeycode expression)
  | keycodes listing => pure (runKeycodes listing)
  | validate verbose file => runValidate fs verbose file
  | compile output? file => runCompile fs output? file
  | settings file => runSettings fs file

end Command

end LongPress
