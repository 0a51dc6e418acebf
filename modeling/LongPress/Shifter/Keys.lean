import LongPress.Shifter.State

/-!
# LongPress.Shifter.Keys

Sending a key, letting it go, and taking shift back in between.

`down` holds the codes that the reports have put down and not yet let go: `keyDown` lets a code go
before it sends it once more, and `keyUp` speaks only of a code that is down.
-/

namespace LongPress.Shifter

/-! ## Keys -/

/-- Sends a key in one of its forms. -/
def keyDown (p : Policy) (keycode : Keycode) (shifted : Bool) (s : Shifter) : Shifter :=
  let stroke := p.stroke keycode shifted
  let added := s.down.add stroke.code
  let s := { s with shifted := s.shifted.put keycode.base shifted, down := added.2 }
  let s := if added.1 then s else s.emit (.key stroke false)
  s.emit (.key stroke true)

/-- What a key would let go: the form it was sent in last. -/
def strokeToRelease (p : Policy) (keycode : Keycode) (s : Shifter) : Stroke :=
  p.stroke keycode (s.shifted.contains keycode.base)

/-- Lets a key go, and says whether it was down. -/
def keyUp (p : Policy) (keycode : Keycode) (s : Shifter) : Bool × Shifter :=
  let stroke := s.strokeToRelease p keycode
  let removed := s.down.remove stroke.code
  let s := { s with down := removed.2 }
  (removed.1, if removed.1 then s.emit (.key stroke false) else s)

/-! ## Shift -/

/-- Takes back the shift keys that are held. -/
def suppressShift (s : Shifter) : Shifter :=
  let bits := s.modifiers &&& Keycode.shiftBits
  if bits = 0 then s
  else
    { s with suppressed := s.suppressed ||| bits, modifiers := s.modifiers &&& ~~~bits }.emit
      (.modifiers bits false)

/-- Gives back the shift keys that were taken. -/
def restoreShift (s : Shifter) : Shifter :=
  let bits := s.suppressed
  if bits = 0 then s
  else
    { s with suppressed := 0, modifiers := s.modifiers ||| bits }.emit (.modifiers bits true)

/-- Notes that a modifier key went down or up. Other keys change nothing. -/
def noteModifier (keycode : Keycode) (isDown : Bool) (s : Shifter) : Shifter :=
  { s with
    modifiers :=
      if isDown then s.modifiers ||| keycode.modifierBit
      else s.modifiers &&& ~~~keycode.modifierBit }

/-- A shift key that is let go is not given back later. -/
def dropSuppressed (keycode : Keycode) (s : Shifter) : Shifter :=
  if keycode = Keycode.leftShift then
    { s with suppressed := s.suppressed &&& ~~~Keycode.leftShiftBit }
  else if keycode = Keycode.rightShift then
    { s with suppressed := s.suppressed &&& ~~~Keycode.rightShiftBit }
  else s

/-! ## Turning the feature on and off -/

def enable (s : Shifter) : Shifter := { s with isEnabled := true }.restoreShift

def disable (s : Shifter) : Shifter := { s with isEnabled := false }.restoreShift

def toggle (s : Shifter) : Shifter := if s.isEnabled then s.disable else s.enable

/-! ## Typing the timeout -/

/-- The timeout on a line of its own. -/
def timeoutText (s : Shifter) : List Char := '\n' :: Nat.toDigits 10 s.timeout.toNat ++ ['\n']

/-- The key that types a digit or ends a line. -/
def keyOfChar? (c : Char) : Option Keycode :=
  if c = '\n' then some Keycode.enter
  else if c = '0' then some Keycode.digitZero
  else if '1' ≤ c && c ≤ '9' then some (Keycode.digitOne + UInt16.ofNat (c.toNat - '1'.toNat))
  else none

/-- Types a text in plain strokes, each let go at once. -/
def typeText (text : List Char) (s : Shifter) : Shifter :=
  (text.filterMap keyOfChar?).foldl
    (fun s key => (s.emit (.key ⟨key.base, false⟩ true)).emit (.key ⟨key.base, false⟩ false)) s

/-- Does what a control key asks for. -/
def control (key : ControlKey) (s : Shifter) : Shifter :=
  match key with
  | .shorter => s.shortenTimeout Table.timeoutStep
  | .longer => s.lengthenTimeout Table.timeoutStep
  | .report => s.typeText s.timeoutText
  | .on => s.enable
  | .off => s.disable
  | .toggle => s.toggle

end LongPress.Shifter
