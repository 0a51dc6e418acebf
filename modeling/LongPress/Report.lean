import LongPress.Switch

/-!
# LongPress.Report

What the shifter tells whoever assembles the keyboard's output.
-/

namespace LongPress

/-- A basic code to send, and whether shift is applied while it is down. -/
structure Stroke where
  code : UInt8
  shifted : Bool
  deriving DecidableEq, Repr

/-- One item of the shifter's output. -/
inductive Report where
  /-- The stroke goes down, or up. -/
  | key (stroke : Stroke) (isDown : Bool)
  /-- Modifiers that are physically held count as held again, or as let go. -/
  | modifiers (bits : Modifiers) (held : Bool)
  /-- One-shot modifiers are used up. -/
  | clearOneShot (bits : Modifiers)
  /-- Time to pass before the next item. -/
  | delay (ms : UInt16)
  /-- Whatever tells taps from holds is to finish this key by itself. -/
  | handOff (keycode : Keycode) (switch : Switch)
  /-- Not a matter for the shifter: to be processed as usual. -/
  | forward (event : Transition)
  /-- Items were lost; nothing counts as held. -/
  | clear
  deriving DecidableEq, Repr

end LongPress
