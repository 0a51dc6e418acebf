import LongPress.CodeSet
import LongPress.Policy
import LongPress.Settings.Live

/-!
# LongPress.Shifter.State

The shifter decides for each key with a shifted form whether it was tapped or held. A held key is
typed shifted.

At most one key waits for its decision. A dual role key may be tracked besides, until whatever tells
its tap from its hold has spoken. All the shifter has to say is appended to `outbox`, oldest first.

This module holds the state, and how it speaks.
-/

namespace LongPress

/-- The state of the feature on one keyboard. -/
structure Shifter where
  settings : Settings := {}
  isEnabled : Bool := true
  /-- The press that waits for its decision. -/
  waiting : Option Transition := none
  /-- The press of the dual role key being tracked. -/
  tracked : Option Transition := none
  /-- The last press or decision. A key repeats itself only soon after it. -/
  since : Tick := 0
  /-- The key that may repeat itself. -/
  last : Keycode := Keycode.noKey
  /-- The form that key had. -/
  lastShifted : Bool := false
  /-- Shift bits that are physically held and taken back for the sake of a decided key. -/
  suppressed : Modifiers := 0
  modifiers : Modifiers := 0
  oneShot : Modifiers := 0
  /-- The bases that were sent in their shifted form, so that they are let go in the same form. -/
  shifted : CodeSet := ∅
  /-- The codes that were sent and not yet let go. -/
  down : CodeSet := ∅
  /-- The bases pressed while the feature was off; their release is not its concern either. -/
  passing : CodeSet := ∅
  /-- The bases of dual role keys that an interruption settled; nobody else gets their release. -/
  tapped : CodeSet := ∅
  /-- The bases of dual role keys held by an interruption; their modifiers count as held. -/
  held : CodeSet := ∅
  outbox : List Report := []
  deriving DecidableEq, Repr

namespace Shifter

/-- A shifter that has seen nothing yet. -/
def initial (settings : Settings) : Shifter := { settings }

/-- Says one thing. -/
def emit (s : Shifter) (r : Report) : Shifter := { s with outbox := s.outbox ++ [r] }

/-- Whether a key waits for its decision. -/
def isWaiting (s : Shifter) : Bool := s.waiting.isSome

/-- Whether a dual role key is tracked. -/
def isTracking (s : Shifter) : Bool := s.tracked.isSome

def timeout (s : Shifter) : UInt16 := s.settings.timeout

/-- The modifiers that are held or ready as one-shot modifiers. -/
def anyModifiers (s : Shifter) : Modifiers := s.modifiers ||| s.oneShot

/-- Whether a shift is held or ready as a one-shot modifier. -/
def hasShift (s : Shifter) : Bool := s.anyModifiers &&& Keycode.shiftBits != 0

/-! ## Settings -/

def setTimeout (s : Shifter) (ms : UInt16) : Shifter :=
  { s with settings := s.settings.setTimeout ms }

/-- Makes the timeout longer, up to the longest there is. -/
def lengthenTimeout (s : Shifter) (ms : UInt16) : Shifter :=
  s.setTimeout (UInt16.ofNat (min (s.timeout.toNat + ms.toNat) 0xffff))

/-- Makes the timeout shorter, down to 0. -/
def shortenTimeout (s : Shifter) (ms : UInt16) : Shifter :=
  s.setTimeout (UInt16.ofNat (s.timeout.toNat - ms.toNat))

/-- Takes the settings of an image, if it has no fault. -/
def loadSettings (s : Shifter) (image : List UInt16) : Except LoadError Unit × Shifter :=
  let loaded := s.settings.load image
  (loaded.1, { s with settings := loaded.2 })

end Shifter

end LongPress
