import LongPress.Text.Offset

/-!
# LongPress.Diagnostic

A message for whoever wrote a settings file, with the place it is about.
-/

namespace LongPress

/-- A stretch of a text, in bytes of UTF-8: from `start` up to but without `stop`. -/
structure Span where
  start : Nat
  stop : Nat
  deriving DecidableEq, Repr

/-- A message, and the place it is about if there is one. -/
structure Diagnostic where
  message : String
  span? : Option Span := none
  deriving DecidableEq, Repr

namespace Diagnostic

/-- The message, and under it the span. -/
def display (d : Diagnostic) : String :=
  match d.span? with
  | none => d.message
  | some span =>
    d.message ++ "\n    at: (" ++ Nat.repr span.start ++ ".." ++ Nat.repr span.stop ++ ")"

/-- Line and column of the place in its text. Lines count from 1, columns from 0. -/
def position? (d : Diagnostic) (source : String) : Option (Nat × Nat) :=
  d.span?.bind fun span => Text.position? span.start source.toList

end Diagnostic

end LongPress
