import LongPress.Keycode.Basic

/-!
# LongPress.Switch

Where a key is on the board, whether it is down, and when it moved.

Times come from a clock of sixteen bits that runs freely and wraps. Only differences of two times
are ever used, so a wrap between them does no harm as long as less than one period has passed.
-/

namespace LongPress

/-! ## The clock -/

/-- Milliseconds on the wrapping clock. -/
abbrev Tick := UInt16

/-- The time from `past` until `now`. -/
def Tick.since (now past : Tick) : UInt16 := now - past

/-- The tick that shows when `ms` milliseconds have gone by since the start. -/
def Tick.ofMillis (ms : Nat) : Tick := UInt16.ofNat ms

theorem toNat_since_ofMillis (clock : Nat) (past : Tick) :
    ((Tick.ofMillis clock).since past).toNat =
      (65536 - past.toNat + clock % 65536) % 65536 := by
  rw [Tick.since, Tick.ofMillis, UInt16.toNat_sub, UInt16.toNat_ofNat']

/-! ## Switches -/

/-- A place on the board and the state of the switch there. -/
structure Switch where
  row : Fin 128
  column : UInt8
  isDown : Bool
  deriving DecidableEq, Repr

namespace Switch

/-- A switch from a row byte. The top bit of the byte also means that the switch is down. -/
def ofBytes (row column : UInt8) (isDown : Bool) : Switch where
  row := Fin.ofNat 128 row.toNat
  column := column
  isDown := isDown || 0x80 ≤ row

/-- Two switches at one place, whatever their states. -/
def samePlace (a b : Switch) : Bool := a.column == b.column && a.row == b.row

end Switch

/-! ## Transitions -/

/-- One switch going down or up: the key it stands for, the switch after the change, the time. -/
structure Transition where
  keycode : Keycode
  switch : Switch
  time : Tick
  deriving DecidableEq, Repr

namespace Transition

def press (keycode : Keycode) (row column : UInt8) (time : Tick) : Transition :=
  ⟨keycode, Switch.ofBytes row column true, time⟩

def release (keycode : Keycode) (row column : UInt8) (time : Tick) : Transition :=
  ⟨keycode, Switch.ofBytes row column false, time⟩

def isDown (t : Transition) : Bool := t.switch.isDown

/-- The same key going down at another time. -/
def pressedAt (t : Transition) (time : Tick) : Transition :=
  { t with switch := { t.switch with isDown := true }, time }

end Transition

end LongPress
