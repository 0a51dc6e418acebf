import LongPress.Shifter.Keys

/-!
# LongPress.Shifter.Decision

The life of a key with a shifted form, from its press to its decision.

A press *begins* a wait, unless the feature is off, a modifier other than shift is held, or the key
repeats itself. The wait is *decided* by the next press, by the key's release, or by time. A key
held for the timeout or longer, or pressed with shift, is typed shifted. What was sent is *let go*
with the key, or at once if the host shall not repeat it.
-/

namespace LongPress.Shifter

/-! ## Which keys -/

/-- The basic code that tells whether a key has a shifted form: the base of a dual role key, or a
basic key itself. -/
def formCode? (keycode : Keycode) : Option UInt8 :=
  if keycode.isDualRole || keycode ≤ Keycode.lastBasic then some keycode.base else none

/-- Whether a key has a shifted form under the present settings. -/
def hasForms (p : Policy) (keycode : Keycode) (s : Shifter) : Bool :=
  (formCode? keycode).any s.settings.admits || (s.settings.has Flag.extras && p.isExtra keycode)

/-- A held modifier other than shift sends keys at once and plain. -/
def bypasses (s : Shifter) : Bool :=
  !s.settings.has Flag.withModifiers && s.anyModifiers &&& ~~~Keycode.shiftBits != 0

/-- Whether a press is a repetition: of the last key, within the tapping term, and of a form that
the host does not repeat by itself. -/
def isRepeat (event : Transition) (s : Shifter) : Bool :=
  s.settings.has Flag.repeats && event.keycode == s.last
    && event.time.since s.since < s.settings.tappingTerm
    && (!s.lastShifted || s.settings.has Flag.noHostRepeat)

/-! ## Decisions -/

/-- Lets a press wait. A shift that is down now settles its form already, and a one-shot shift is
used up by it. -/
def begin (event : Transition) (s : Shifter) : Shifter :=
  let s := { s with lastShifted := s.hasShift }
  let s :=
    if s.oneShot &&& Keycode.shiftBits = 0 then s
    else
      { s with oneShot := s.oneShot &&& ~~~Keycode.shiftBits }.emit
        (.clearOneShot Keycode.shiftBits)
  { s with last := event.keycode, since := event.time, waiting := some event }

/-- Sends the last key once more in its last form. -/
def repeatLast (p : Policy) (s : Shifter) : Shifter :=
  let s := s.suppressShift
  s.keyDown p s.last s.lastShifted

/-- Decides a press that no longer waits. After a scan (`byScan`) the key stays down for the host to
repeat it, where the settings allow that. -/
def decideKey (p : Policy) (event : Transition) (now : Tick) (byScan : Bool) (s : Shifter) :
    Shifter :=
  let s :=
    { s with
      waiting := none
      lastShifted := decide (s.timeout ≤ now.since event.time) || s.lastShifted }
  let s := s.suppressShift.keyDown p event.keycode s.lastShifted
  let s :=
    if byScan && s.settings.has Flag.repeats && !s.settings.has Flag.noHostRepeat then s
    else
      let s := if s.settings.tapDelay = 0 then s else s.emit (.delay s.settings.tapDelay)
      (s.keyUp p event.keycode).2.restoreShift
  { s with since := now }

/-- Decides whatever waits. -/
def settle (p : Policy) (now : Tick) (byScan : Bool) (s : Shifter) : Shifter :=
  match s.waiting with
  | some event => s.decideKey p event now byScan
  | none => s

/-- Lets a key go that was decided earlier, and says whether it was down. -/
def letGo (p : Policy) (keycode : Keycode) (now : Tick) (s : Shifter) : Bool × Shifter :=
  let released := s.keyUp p keycode
  let s := if keycode = s.last then released.2.restoreShift else released.2
  (released.1, { s with since := now })

/-- Ends a key: decides it if it waits, else lets it go. Says whether anything was sent. -/
def endKey (p : Policy) (keycode : Keycode) (now : Tick) (s : Shifter) : Bool × Shifter :=
  match s.waiting with
  | some event =>
    if keycode = event.keycode then (true, s.decideKey p event now false)
    else s.letGo p keycode now
  | none => s.letGo p keycode now

/-- Decides a tracked press that did not wait. -/
def resolve (p : Policy) (event : Transition) (now : Tick) (s : Shifter) : Shifter :=
  let s := s.settle p now false
  if s.bypasses then
    (({ s with last := Keycode.noKey }.keyDown p event.keycode false).keyUp p event.keycode).2
  else (s.begin event).settle p now false

end LongPress.Shifter
