import LongPress.Keycode.Basic
import LongPress.Settings.Table

/-!
# LongPress.Settings.Live

The settings as the keyboard keeps them, and how it takes new ones from an image.

An image is a list of words: the version 1, a number of pairs, then that many pairs of a slot and
its new value. The keyboard reads it word by word. A slot that the image does not name gets its
initial value, and an image with a fault changes nothing.
-/

namespace LongPress

/-- The version of images. -/
def imageVersion : UInt16 := 1

/-- The settings of a running keyboard. -/
structure Settings where
  table : Table := Table.initial
  deriving DecidableEq, Repr

/-- Why a keyboard refuses an image. -/
inductive LoadError where
  /-- The image starts with another version. -/
  | version
  /-- Words are missing, or left over. -/
  | corrupt
  /-- A pair names a slot that does not exist. -/
  | unknownSlot (index : UInt16)
  deriving DecidableEq, Repr

namespace Settings

/-! ## Single words -/

/-- The word of a slot; 0 for a number that is no slot. -/
def get (s : Settings) (index : UInt16) : UInt16 :=
  match Slot.ofIndex? index with
  | some slot => slot.get s.table
  | none => 0

/-- Changes the word of a slot; a number that is no slot changes nothing. -/
def set (s : Settings) (index value : UInt16) : Settings :=
  match Slot.ofIndex? index with
  | some slot => { table := slot.set s.table value }
  | none => s

def timeout (s : Settings) : UInt16 := Slot.timeout.get s.table

def setTimeout (s : Settings) (ms : UInt16) : Settings := { table := Slot.timeout.set s.table ms }

def tappingTerm (s : Settings) : UInt16 := Slot.tappingTerm.get s.table

def trackingTime (s : Settings) : UInt16 := Slot.trackingTime.get s.table

def tapDelay (s : Settings) : UInt16 := Slot.tapDelay.get s.table

def switches (s : Settings) : UInt16 := Slot.switches.get s.table

/-- Whether all switches of a mask are on. -/
def has (s : Settings) (mask : UInt16) : Bool := s.switches &&& mask == mask

/-- Turns all switches of a mask on or off. -/
def turn (s : Settings) (mask : UInt16) (on : Bool) : Settings :=
  let word := if on then s.switches ||| mask else s.switches &&& ~~~mask
  { table := Slot.switches.set s.table word }

/-! ## Keys with a shifted form -/

def isLetter (code : UInt8) : Bool := 0x04 ≤ code && code ≤ 0x1d

def isDigit (code : UInt8) : Bool := 0x1e ≤ code && code ≤ 0x27

/-- Tab, the punctuation from the dash to the slash, and the key between left shift and Z. -/
def isSymbol (code : UInt8) : Bool := code == 0x2b || (0x2d ≤ code && code ≤ 0x38) || code == 0x64

/-- Whether a basic key is of a kind that the switches admit. -/
def admits (s : Settings) (code : UInt8) : Bool :=
  if isLetter code then s.has Flag.letters
  else if isDigit code then s.has Flag.digits
  else if isSymbol code then s.has Flag.symbols
  else false

/-! ## Loading an image -/

/-- Reads the given number of pairs into a table; nothing may follow them. -/
def readPairs : Nat → List UInt16 → Table → Except LoadError Table
  | 0, [], t => .ok t
  | 0, _ :: _, _ => .error .corrupt
  | n + 1, index :: value :: rest, t =>
    match Slot.ofIndex? index with
    | some slot => readPairs n rest (slot.set t value)
    | none => .error (.unknownSlot index)
  | _ + 1, _, _ => .error .corrupt

/-- The table that an image describes. -/
def readImage : List UInt16 → Except LoadError Table
  | [] => .error .corrupt
  | version :: rest =>
    if version = imageVersion then
      match rest with
      | [] => .error .corrupt
      | count :: pairs => readPairs count.toNat pairs Table.initial
    else .error .version

/-- The settings after an image arrived, and whether it was taken. -/
def load (s : Settings) (image : List UInt16) : Except LoadError Unit × Settings :=
  match readImage image with
  | .ok table => (.ok (), { table })
  | .error e => (.error e, s)

/-- A refused image changes nothing. -/
theorem load_snd_of_error {s : Settings} {image : List UInt16} {e : LoadError}
    (h : (s.load image).1 = .error e) : (s.load image).2 = s := by
  unfold load at h ⊢
  split
  · next hr => simp [hr] at h
  · rfl

end Settings

end LongPress
