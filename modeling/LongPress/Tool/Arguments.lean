import LongPress.Tool.Command

/-!
# LongPress.Tool.Arguments

The command line: a command, its options, and what it is about.

Options may stand anywhere after the command; after `--` everything is taken as it is. Short options
take their value from the next argument.
-/

namespace LongPress.Arguments

/-- What the options and the other arguments of a command line say. -/
structure Given where
  verbose : Bool := false
  byKeycode : Bool := false
  kind? : Option KeyKind := none
  output? : Option String := none
  /-- All other arguments. -/
  others : List String := []
  deriving DecidableEq, Repr

/-- The list of names that the options ask for. -/
def Given.listing (g : Given) (pattern? : Option String) : Listing :=
  ⟨g.verbose, g.byKeycode, g.kind?, pattern?⟩

def readKind? (text : String) : Option KeyKind :=
  if text = "basic" then some .basic
  else if text = "modifier" then some .modifier
  else if text = "auto-shift" then some .control
  else none

/-- Sorts arguments into options and others; none if an option is unknown or lacks its value. -/
def read? : List String → Given → Option Given
  | [], g => some g
  | "--" :: rest, g => some { g with others := g.others ++ rest }
  | "-v" :: rest, g => read? rest { g with verbose := true }
  | "--verbose" :: rest, g => read? rest { g with verbose := true }
  | "-s" :: rest, g => read? rest { g with byKeycode := true }
  | "--sort-by-keycode" :: rest, g => read? rest { g with byKeycode := true }
  | "-c" :: value :: rest, g => do read? rest { g with kind? := some (← readKind? value) }
  | "--code-type" :: value :: rest, g => do
    read? rest { g with kind? := some (← readKind? value) }
  | "-o" :: value :: rest, g => read? rest { g with output? := some value }
  | "--output" :: value :: rest, g => read? rest { g with output? := some value }
  | text :: rest, g =>
    if text.startsWith "-" && text ≠ "-" then none
    else read? rest { g with others := g.others ++ [text] }

/-- The command of a command line. -/
def command? : List String → Option Command
  | [] => none
  | name :: rest => do
    let g ← read? rest {}
    match name, g.others with
    | "keycode", [expression] => some (.keycode expression)
    | "keycodes-list", [] => some (.keycodes (g.listing none))
    | "keycodes-list", [pattern] => some (.keycodes (g.listing (some pattern)))
    | "validate", [file] => some (.validate g.verbose file)
    | "compile", [file] => some (.compile g.output? file)
    | "show", [file] => some (.settings file)
    | _, _ => none

/-- How the tool is called. -/
def usage : String :=
  "usage: keycode EXPRESSION\n" ++
  "       keycodes-list [-v] [-s] [-c basic|modifier|auto-shift] [PATTERN]\n" ++
  "       validate [-v] FILE\n" ++
  "       compile [-o OUTPUT] FILE\n" ++
  "       show FILE\n"

end LongPress.Arguments
