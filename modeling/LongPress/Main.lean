import LongPress.Loop
import LongPress.Tool.Arguments

/-!
# LongPress.Main

The command line tool: it takes a command from its arguments, runs it on the files of the machine
and prints what comes of it.
-/

namespace LongPress

/-- The cause of a failure of the machine's files. -/
def FileError.ofFailure : IO.Error → FileError
  | .noFileOrDirectory .. => .missing
  | .noSuchThing .. => .missing
  | .inappropriateType _ code _ => if code = 20 then .notDirectory else .isDirectory
  | .invalidArgument _ 36 _ => .nameTooLong
  | e => .other (toString e)

/-- The files of the machine. -/
def machineFiles : FileSystem IO where
  read path := do
    try
      return .ok (← IO.FS.readBinFile path)
    catch e => return .error (.ofFailure e)
  write path bytes := do
    try
      IO.FS.writeBinFile path bytes
      return .ok ()
    catch e => return .error (.ofFailure e)

/-- What is told about a failure. -/
def Failure.report : Failure → String
  | .text message => message
  | .excerpt file source d =>
    let place :=
      match d.position? source with
      | some (line, column) => ":" ++ Nat.repr line ++ ":" ++ Nat.repr column
      | none => ""
    "Error: Invalid config\n  " ++ file ++ place ++ ": " ++ d.message

end LongPress

def main (args : List String) : IO UInt32 := do
  match LongPress.Arguments.command? args with
  | none =>
    IO.eprint LongPress.Arguments.usage
    return 2
  | some command =>
    let outcome ← command.run LongPress.machineFiles
    IO.print outcome.output
    match outcome with
    | .ok _ => pure ()
    | .error failure => IO.eprintln failure.report
    return outcome.status.toUInt32
