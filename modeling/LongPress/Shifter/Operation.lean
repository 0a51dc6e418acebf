import LongPress.Mailbox
import LongPress.Shifter.Input

/-!
# LongPress.Shifter.Operation

Everything that can be asked of a shifter as one type, so that a history is a list.

A `Station` is a shifter with the mailbox it speaks into: what an operation reports is posted when
the operation is over.
-/

namespace LongPress

/-! ## Operations -/

/-- One thing asked of a shifter. -/
inductive Operation where
  | handle (event : Transition)
  | scan (now : Tick)
  | verdict (keycode : Keycode) (verdict : Verdict) (pressTime : Tick) (switch : Switch)
      (now : Tick)
  | setModifiers (bits : Modifiers)
  | setOneShot (bits : Modifiers)
  | enable
  | disable
  | toggle
  | setTimeout (ms : UInt16)
  | lengthenTimeout (ms : UInt16)
  | shortenTimeout (ms : UInt16)
  | loadSettings (image : List UInt16)
  deriving DecidableEq, Repr

/-- What an operation answers. -/
inductive Reply where
  | done
  /-- Whether a transition, or a dual role key, gets its usual processing. -/
  | usual (goesOn : Bool)
  | loaded (result : Except LoadError Unit)

namespace Shifter

/-- Carries out one operation. -/
def perform (p : Policy) (s : Shifter) : Operation → Reply × Shifter
  | .handle event => let r := s.handle p event; (.usual r.1, r.2)
  | .scan now => (.done, s.scan p now)
  | .verdict keycode v pressTime switch now =>
    let r := s.verdict p keycode v pressTime switch now
    (.usual r.1, r.2)
  | .setModifiers bits => (.done, { s with modifiers := bits })
  | .setOneShot bits => (.done, { s with oneShot := bits })
  | .enable => (.done, s.enable)
  | .disable => (.done, s.disable)
  | .toggle => (.done, s.toggle)
  | .setTimeout ms => (.done, s.setTimeout ms)
  | .lengthenTimeout ms => (.done, s.lengthenTimeout ms)
  | .shortenTimeout ms => (.done, s.shortenTimeout ms)
  | .loadSettings image => let r := s.loadSettings image; (.loaded r.1, r.2)

/-- Carries out a history; its reports are appended to the outbox. -/
def run (p : Policy) (s : Shifter) (history : List Operation) : Shifter :=
  history.foldl (fun s op => (s.perform p op).2) s

@[simp] theorem run_nil (p : Policy) (s : Shifter) : s.run p [] = s := rfl

@[simp] theorem run_cons (p : Policy) (s : Shifter) (op : Operation) (rest : List Operation) :
    s.run p (op :: rest) = (s.perform p op).2.run p rest := rfl

theorem run_append (p : Policy) (s : Shifter) (first rest : List Operation) :
    s.run p (first ++ rest) = (s.run p first).run p rest := by
  simp [run]

/-- Hands over the outbox. -/
def collect (s : Shifter) : List Report × Shifter := (s.outbox, { s with outbox := [] })

end Shifter

/-! ## With a mailbox -/

/-- A shifter and the mailbox it speaks into. -/
structure Station where
  shifter : Shifter
  mailbox : Mailbox
  deriving DecidableEq, Repr

namespace Station

/-- Posts what the shifter has said. -/
def post (s : Station) : Station where
  shifter := s.shifter.collect.2
  mailbox := s.mailbox.postAll s.shifter.collect.1

/-- Carries out one operation and posts what it reports. -/
def perform (p : Policy) (s : Station) (op : Operation) : Reply × Station :=
  let r := s.shifter.perform p op
  (r.1, { s with shifter := r.2 }.post)

/-- Reads the oldest report. -/
def read (s : Station) : Option Report × Station :=
  (s.mailbox.read.1, { s with mailbox := s.mailbox.read.2 })

/-- Reads every report. -/
def readAll (s : Station) : List Report × Station :=
  (s.mailbox.readAll.1, { s with mailbox := s.mailbox.readAll.2 })

end Station

end LongPress
