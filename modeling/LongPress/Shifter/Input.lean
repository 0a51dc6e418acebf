import LongPress.Shifter.Decision

/-!
# LongPress.Shifter.Input

What the shifter does with what it is given: transitions of switches, the time, and the verdict on
a dual role key.

`handle` says whether a transition is to go on to its usual processing; the verdict on a tracked key
says the same of the key. `timeLeft` says when `scan` will next have something to do.
-/

namespace LongPress

/-- What is found about a dual role key by whoever watches it. -/
inductive Verdict where
  | tap
  | hold
  deriving DecidableEq, Repr

namespace Shifter

/-! ## The tracked key -/

/-- Whether the tracked key is the one at this place. -/
def isTrackingAt (switch : Switch) (s : Shifter) : Bool :=
  s.tracked.any (·.switch.samePlace switch)

/-- The tracked press, if it is of this key at this place. -/
def trackedAs? (keycode : Keycode) (switch : Switch) (s : Shifter) : Option Transition :=
  s.tracked.filter fun event => event.keycode == keycode && event.switch.samePlace switch

/-- Tracks no key any more. -/
def stopTracking (s : Shifter) : Shifter := { s with tracked := none }

/-- Whether the settings have an interrupted key held. -/
def usuallyHolds (keycode : Keycode) (s : Shifter) : Bool :=
  if keycode.isLayerTap then s.settings.has Flag.holdLayerTap
  else !s.settings.has Flag.tapModTap

/-- Another key goes down: the tracked key is held, or decided like any key with a shifted form. -/
def interrupt (p : Policy) (now : Tick) (s : Shifter) : Shifter :=
  match s.tracked with
  | none => s
  | some event =>
    let s := s.stopTracking
    if p.holdsWhenInterrupted event.keycode (s.usuallyHolds event.keycode) then
      { s with
        held := (s.held.add event.keycode.base).2
        modifiers := s.modifiers ||| event.keycode.modifiers }
    else
      { s with tapped := (s.tapped.add event.keycode.base).2 }.resolve p event now

/-! ## Presses -/

/-- A press of a key that has a shifted form and a single role. -/
def pressPlain (p : Policy) (event : Transition) (s : Shifter) : Bool × Shifter :=
  if !s.isEnabled then
    (true, { s with passing := (s.passing.add event.keycode.base).2 })
  else if s.bypasses then
    (false, { s with last := Keycode.noKey }.keyDown p event.keycode false)
  else if s.isRepeat event then (false, s.repeatLast p)
  else (false, s.begin event)

/-- A press of a dual role key. -/
def pressDualRole (p : Policy) (event : Transition) (s : Shifter) : Bool × Shifter :=
  if !s.isEnabled || !s.settings.has Flag.dualRole || !s.hasForms p event.keycode then (true, s)
  else if s.isRepeat event then (false, s.repeatLast p)
  else (true, { s with tracked := some event })

/-- A press of any key. It first settles what waits, and interrupts a tracked key elsewhere. -/
def handlePress (p : Policy) (event : Transition) (s : Shifter) : Bool × Shifter :=
  let s := s.settle p event.time false
  let s := if s.isTrackingAt event.switch then s else s.interrupt p event.time
  match ControlKey.ofKeycode? event.keycode with
  | some key => (false, s.control key)
  | none =>
    if event.keycode.isDualRole then s.pressDualRole p event
    else
      let s := s.noteModifier event.keycode true
      if s.hasForms p event.keycode then s.pressPlain p event
      else (true, { s with last := Keycode.noKey })

/-! ## Releases -/

/-- A release of a key that has a shifted form and a single role. -/
def releasePlain (p : Policy) (event : Transition) (s : Shifter) : Bool × Shifter :=
  let passed := s.passing.remove event.keycode.base
  let s := { s with passing := passed.2 }
  (passed.1, (s.endKey p event.keycode event.time).2)

/-- A release of a dual role key. Before any verdict, its tap is left to its usual processing. -/
def releaseDualRole (p : Policy) (event : Transition) (s : Shifter) : Bool × Shifter :=
  let base := event.keycode.base
  if s.tapped.contains base then (false, { s with tapped := (s.tapped.remove base).2 })
  else if s.held.contains base then
    let bits := event.keycode.modifiers
    (true,
      { s with
        held := (s.held.remove base).2
        modifiers := s.modifiers &&& ~~~bits
        suppressed := s.suppressed &&& ~~~bits })
  else
    let s := if (s.trackedAs? event.keycode event.switch).isSome then s.stopTracking else s
    let ended := s.endKey p event.keycode event.time
    (!ended.1, ended.2)

/-- A release of any key. -/
def handleRelease (p : Policy) (event : Transition) (s : Shifter) : Bool × Shifter :=
  if event.keycode.isControl then (false, s)
  else
    let s := s.dropSuppressed event.keycode
    if event.keycode.isDualRole then s.releaseDualRole p event
    else
      let s := s.noteModifier event.keycode false
      if s.hasForms p event.keycode then s.releasePlain p event else (true, s)

/-- A switch moved. The answer says whether the transition goes on to its usual processing; if not,
the shifter has dealt with it. -/
def handle (p : Policy) (event : Transition) (s : Shifter) : Bool × Shifter :=
  if event.isDown then s.handlePress p event else s.handleRelease p event

/-! ## Time -/

/-- Until the waiting key has been held for the timeout. -/
def timeToDecide (now : Tick) (s : Shifter) : Option UInt16 :=
  s.waiting.map fun event =>
    UInt16.ofNat (s.timeout.toNat - (now.since event.time).toNat)

/-- Until the tracked key is handed off, if it ever is. -/
def timeToHandOff (now : Tick) (s : Shifter) : Option UInt16 :=
  if s.settings.trackingTime = 0 then none
  else
    s.tracked.map fun event =>
      UInt16.ofNat (s.settings.trackingTime.toNat - (now.since event.time).toNat)

/-- Milliseconds until the next scan has something to do; none if nothing depends on time. -/
def timeLeft (now : Tick) (s : Shifter) : Option UInt16 :=
  match s.timeToDecide now, s.timeToHandOff now with
  | some a, some b => some (if a ≤ b then a else b)
  | some a, none => some a
  | none, b => b

/-- Decides the waiting key if it has been held for the timeout. -/
def scanWaiting (p : Policy) (now : Tick) (s : Shifter) : Shifter :=
  match s.waiting with
  | some event =>
    if s.timeout ≤ now.since event.time then s.decideKey p event now true else s
  | none => s

/-- Hands off the tracked key if its time is up. -/
def scanTracked (now : Tick) (s : Shifter) : Shifter :=
  match s.tracked with
  | some event =>
    if s.timeToHandOff now = some 0 then
      s.stopTracking.emit (.handOff event.keycode event.switch)
    else s
  | none => s

/-- Does what the time asks for. -/
def scan (p : Policy) (now : Tick) (s : Shifter) : Shifter := (s.scanWaiting p now).scanTracked now

/-! ## Verdicts -/

/-- The verdict on a dual role key. The answer says whether the key gets its usual processing. -/
def verdict (p : Policy) (keycode : Keycode) (v : Verdict) (pressTime : Tick) (switch : Switch)
    (now : Tick) (s : Shifter) : Bool × Shifter :=
  match s.trackedAs? keycode switch with
  | none => (true, s)
  | some event =>
    let s := s.stopTracking
    match v with
    | .tap => (true, s)
    | .hold => (false, s.resolve p (event.pressedAt pressTime) now)

end Shifter

end LongPress
