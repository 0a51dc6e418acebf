/-!
# LongPress.Settings.Table

The settings are five words of sixteen bits. Four are durations in milliseconds, the last is a set
of switches, one bit each. Host and keyboard number the words alike, so a table can be sent from
one to the other as it is.
-/

namespace LongPress

/-! ## The words -/

/-- The number of a word of settings. -/
abbrev Slot := Fin 5

namespace Slot

/-- How long a key is held before it is typed shifted. -/
def timeout : Slot := 0

/-- How soon a key has to come again to repeat itself. -/
def tappingTerm : Slot := 1

/-- How long a dual role key is tracked before it is handed off; 0 for ever. -/
def trackingTime : Slot := 2

/-- How long a tapped key stays down. -/
def tapDelay : Slot := 3

/-- The switches. -/
def switches : Slot := 4

/-- The slot of a number, if there is one. -/
def ofIndex? (index : UInt16) : Option Slot :=
  if h : index.toNat < 5 then some ⟨index.toNat, h⟩ else none

/-- The number of a slot. -/
def index (s : Slot) : UInt16 := UInt16.ofNat s.val

@[simp] theorem ofIndex?_index (s : Slot) : ofIndex? s.index = some s := by
  revert s; decide

theorem index_of_ofIndex? {index : UInt16} {s : Slot} (h : ofIndex? index = some s) :
    s.index = index := by
  unfold ofIndex? at h
  split at h
  · simp only [Option.some.injEq] at h
    subst h
    exact UInt16.ofNat_toNat
  · simp at h

/-! ### What is kept for each slot -/

variable {α : Type}

/-- What is kept for a slot. -/
def get (s : Slot) (entries : Vector α 5) : α := entries[s.val]

/-- Keeps something else for a slot. -/
def set (s : Slot) (entries : Vector α 5) (entry : α) : Vector α 5 :=
  entries.set s.val entry s.isLt

theorem get_set (s t : Slot) (entries : Vector α 5) (entry : α) :
    t.get (s.set entries entry) = if s = t then entry else t.get entries := by
  simp [get, set, Vector.getElem_set, Fin.ext_iff]

@[simp] theorem get_set_self (s : Slot) (entries : Vector α 5) (entry : α) :
    s.get (s.set entries entry) = entry := by
  simp [get_set]

theorem get_set_of_ne {s t : Slot} (h : s ≠ t) (entries : Vector α 5) (entry : α) :
    t.get (s.set entries entry) = t.get entries := by
  simp [get_set, h]

theorem eq_of_get {a b : Vector α 5} (h : ∀ s : Slot, s.get a = s.get b) : a = b :=
  Vector.ext fun i hi => h ⟨i, hi⟩

end Slot

/-- A word for each slot. -/
abbrev Table := Vector UInt16 5

/-! ## The switches -/

namespace Flag

/-- Letters have a shifted form. -/
def letters : UInt16 := 1

/-- Digits have a shifted form. -/
def digits : UInt16 := 2

/-- Punctuation has a shifted form. -/
def symbols : UInt16 := 4

/-- The keyboard's extra keys have a shifted form. -/
def extras : UInt16 := 8

/-- Held modifiers other than shift do not stop a key from being typed shifted. -/
def withModifiers : UInt16 := 16

/-- A key pressed again soon repeats its last form. -/
def repeats : UInt16 := 32

/-- A key is let go as soon as it is typed, so the host never repeats it. -/
def noHostRepeat : UInt16 := 64

/-- Dual role keys are tracked. -/
def dualRole : UInt16 := 128

/-- An interrupted layer-tap key is held. -/
def holdLayerTap : UInt16 := 256

/-- An interrupted mod-tap key is not held. -/
def tapModTap : UInt16 := 512

/-- The switches that are on to begin with. -/
def initial : UInt16 := letters ||| digits ||| symbols ||| extras ||| repeats

end Flag

namespace Table

/-- The settings to begin with. -/
def initial : Table := #v[175, 200, 500, 0, Flag.initial]

/-- How far a control key moves the timeout. -/
def timeoutStep : UInt16 := 5

end Table

end LongPress
