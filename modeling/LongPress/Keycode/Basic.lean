/-!
# LongPress.Keycode

The sixteen bit codes a key can carry, and the ranges they fall in.

* A *basic* code is sent to the host as it is; eight of them are the modifier keys.
* A *composite* code is a basic key sent with modifiers.
* A *layer-tap* code and a *mod-tap* code name a basic key for a tap and something else for a hold.
* A *control* code steers the long press feature itself.

The low byte of a composite, layer-tap or mod-tap code is its basic key.
-/

namespace LongPress

/-- What a key stands for once the layout has been applied. -/
abbrev Keycode := UInt16

/-- Eight modifier bits in the order of the modifier keys: control, shift, alt, gui of the left
hand, then the same of the right. -/
abbrev Modifiers := UInt8

/-- Four modifiers of one hand in five bits: bits 0 to 3 are control, shift, alt and gui, bit 4
chooses the right hand. -/
abbrev Chord := UInt8

/-- The eight modifier bits of a chord. Bits above the fifth are ignored. -/
def Chord.modifiers (c : Chord) : Modifiers :=
  if c &&& 0x10 = 0 then c &&& 0xf else (c &&& 0xf) <<< 4

namespace Keycode

/-! ## Single codes -/

/-- No key at all. -/
def noKey : Keycode := 0

def digitOne : Keycode := 0x1e

def digitZero : Keycode := 0x27

def enter : Keycode := 0x28

def slash : Keycode := 0x38

def leftShift : Keycode := 0xe1

def rightShift : Keycode := 0xe5

/-- The last code that fits a byte and is a key. -/
def lastBasic : Keycode := 0xfe

/-- The first of the eight modifier keys. -/
def firstModifier : Keycode := 0xe0

/-! ## Ranges -/

def isBasic (k : Keycode) : Bool := 0x4 ≤ k && k ≤ lastBasic

def isModifier (k : Keycode) : Bool := firstModifier ≤ k && k ≤ 0xe7

def isComposite (k : Keycode) : Bool := 0x100 ≤ k && k ≤ 0x1fff

def isLayerTap (k : Keycode) : Bool := 0x4000 ≤ k && k ≤ 0x4fff

def isModTap (k : Keycode) : Bool := 0x6000 ≤ k && k ≤ 0x7fff

def isControl (k : Keycode) : Bool := 0x5c10 ≤ k && k ≤ 0x5c15

/-- A key whose meaning is settled outside this library, by whatever tells its tap from its
hold. -/
def isDualRole (k : Keycode) : Bool := k.isModTap || k.isLayerTap || k.isComposite

/-- A basic key other than a modifier: the ones a composite or dual role key can carry. -/
def isPlain (k : Keycode) : Bool := k.isBasic && !k.isModifier

/-! ## Parts of a code -/

/-- The basic key of a composite, layer-tap or mod-tap code; a basic code is its own base. -/
def base (k : Keycode) : UInt8 := k.toUInt8

/-- The five bits above the base. -/
def chord (k : Keycode) : Chord := (k >>> 8).toUInt8 &&& 0x1f

/-- The four bits above the base. -/
def layer (k : Keycode) : UInt8 := (k >>> 8).toUInt8 &&& 0xf

/-- The modifiers a mod-tap key holds, or a composite key applies; other keys have none. -/
def modifiers (k : Keycode) : Modifiers :=
  if k.isModTap || k.isComposite then k.chord.modifiers else 0

/-- The bit of a modifier key among the eight modifier bits; 0 for every other key. -/
def modifierBit (k : Keycode) : Modifiers :=
  if k.isModifier then 1 <<< (k - firstModifier).toUInt8 else 0

/-! ## Building codes -/

def layerTap (layer base : UInt8) : Keycode :=
  (0x4000 : UInt16) ||| ((layer.toUInt16 &&& 0xf) <<< (8 : UInt16)) ||| base.toUInt16

def modTap (chord : Chord) (base : UInt8) : Keycode :=
  (0x6000 : UInt16) ||| ((chord.toUInt16 &&& 0x1f) <<< (8 : UInt16)) ||| base.toUInt16

/-- A base with no modifiers in its chord is the basic key itself. -/
def composite (chord : Chord) (base : UInt8) : Keycode :=
  ((chord.toUInt16 &&& 0x1f) <<< (8 : UInt16)) ||| base.toUInt16

/-! ## Shift -/

def leftShiftBit : Modifiers := 0x02

def rightShiftBit : Modifiers := 0x20

/-- Both shift bits. -/
def shiftBits : Modifiers := leftShiftBit ||| rightShiftBit

end Keycode

/-- The keys that steer the long press feature. -/
inductive ControlKey where
  /-- Makes the timeout shorter by one step. -/
  | shorter
  /-- Makes the timeout longer by one step. -/
  | longer
  /-- Types the timeout. -/
  | report
  | on
  | off
  | toggle
  deriving DecidableEq, Repr

namespace ControlKey

def keycode : ControlKey → Keycode
  | shorter => 0x5c10
  | longer => 0x5c11
  | report => 0x5c12
  | on => 0x5c13
  | off => 0x5c14
  | toggle => 0x5c15

/-- The control key of a code in the control range. -/
def ofKeycode? (k : Keycode) : Option ControlKey :=
  if k = 0x5c10 then some shorter
  else if k = 0x5c11 then some longer
  else if k = 0x5c12 then some report
  else if k = 0x5c13 then some on
  else if k = 0x5c14 then some off
  else if k = 0x5c15 then some toggle
  else none

@[simp] theorem ofKeycode?_keycode (c : ControlKey) : ofKeycode? c.keycode = some c := by
  cases c <;> rfl

theorem keycode_of_ofKeycode? {k : Keycode} {c : ControlKey} (h : ofKeycode? k = some c) :
    c.keycode = k := by
  unfold ofKeycode? at h
  repeat' split at h
  all_goals simp_all [keycode]
  all_goals subst h; rfl

/-- Exactly the codes of the control range are control keys. -/
theorem isSome_ofKeycode? (k : Keycode) : (ofKeycode? k).isSome = k.isControl := by
  unfold ofKeycode? Keycode.isControl
  have h : ∀ a : UInt16, a.toNat = k.toNat → a = k := fun a ha => UInt16.toNat_inj.mp ha
  by_cases hk : 0x5c10 ≤ k ∧ k ≤ 0x5c15
  · have h1 : 0x5c10 ≤ k.toNat := hk.1
    have h2 : k.toNat ≤ 0x5c15 := hk.2
    have h6 : k.toNat = 0x5c10 ∨ k.toNat = 0x5c11 ∨ k.toNat = 0x5c12 ∨ k.toNat = 0x5c13 ∨
        k.toNat = 0x5c14 ∨ k.toNat = 0x5c15 := by omega
    rcases h6 with e | e | e | e | e | e
    · have := h 0x5c10 e.symm; subst this; decide
    · have := h 0x5c11 e.symm; subst this; decide
    · have := h 0x5c12 e.symm; subst this; decide
    · have := h 0x5c13 e.symm; subst this; decide
    · have := h 0x5c14 e.symm; subst this; decide
    · have := h 0x5c15 e.symm; subst this; decide
  · have hne : ∀ a : UInt16, 0x5c10 ≤ a → a ≤ 0x5c15 → k ≠ a := by
      rintro a h1 h2 rfl
      exact hk ⟨h1, h2⟩
    rw [if_neg (hne _ (by decide) (by decide)), if_neg (hne _ (by decide) (by decide)),
      if_neg (hne _ (by decide) (by decide)), if_neg (hne _ (by decide) (by decide)),
      if_neg (hne _ (by decide) (by decide)), if_neg (hne _ (by decide) (by decide))]
    simpa using hk

end ControlKey

end LongPress
