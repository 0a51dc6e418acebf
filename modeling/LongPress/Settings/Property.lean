import LongPress.Settings.Table
import LongPress.Text.Numeral

/-!
# LongPress.Settings.Property

Single settings as a settings file names them: a duration that fills a word, or a switch that is
some bits of one.
-/

namespace LongPress

/-- What a setting is, and its value. -/
inductive Property.Kind where
  /-- A number of milliseconds between two bounds, both allowed. -/
  | duration (value least most : UInt16)
  /-- Whether the bits of a mask are on. -/
  | switch (mask : UInt16) (on : Bool)
  deriving DecidableEq, Repr

/-- A setting and the number of the word that keeps it. -/
structure Property where
  index : UInt16
  kind : Property.Kind
  deriving DecidableEq, Repr

/-- What is wrong with a setting or its value. -/
inductive PropertyError where
  | unknownName (name : String)
  | badDuration (least most : UInt16)
  | badSwitch (text : String)
  deriving DecidableEq, Repr

def PropertyError.message : PropertyError → String
  | unknownName name => "Invalid global '" ++ name ++ "'"
  | badDuration least most =>
    "Invalid duration; only " ++ Nat.repr least.toNat ++ " to " ++ Nat.repr most.toNat ++
      " milliseconds are valid"
  | badSwitch text => "Invalid switch '" ++ text ++ "'; use true or false"

namespace Property

/-! ## The settings there are -/

/-- The duration in a slot, with its initial value. -/
def ofSlot (slot : Slot) (most : UInt16) : Property where
  index := slot.index
  kind := .duration (slot.get Table.initial) 0 most

/-- A switch, with its initial value. -/
def ofFlag (mask : UInt16) : Property where
  index := Slot.switches.index
  kind := .switch mask (Flag.initial &&& mask != 0)

/-- Every setting, in the order in which settings are shown. -/
def all : List (String × Property) :=
  [("auto_shift_timeout", ofSlot Slot.timeout 5000),
    ("tapping_term", ofSlot Slot.tappingTerm 5000),
    ("retro_shift_timeout", ofSlot Slot.trackingTime 5000),
    ("tap_code_delay", ofSlot Slot.tapDelay 100),
    ("auto_shift_alpha", ofFlag Flag.letters),
    ("auto_shift_numeric", ofFlag Flag.digits),
    ("auto_shift_special", ofFlag Flag.symbols),
    ("auto_shift_custom", ofFlag Flag.extras),
    ("auto_shift_modifiers", ofFlag Flag.withModifiers),
    ("auto_shift_repeat", ofFlag Flag.repeats),
    ("auto_shift_no_auto_repeat", ofFlag Flag.noHostRepeat),
    ("retro_shift", ofFlag Flag.dualRole),
    ("hold_on_other_key_press", ofFlag Flag.holdLayerTap),
    ("ignore_mod_tap_interrupt", ofFlag Flag.tapModTap)]

/-- Other names of settings. -/
def aliases : List (String × Property) := [("auto_shift_delay", ofSlot Slot.timeout 5000)]

/-- The names of the settings, without other names. -/
def names : List String := all.map (·.1)

/-- The setting of a name, with its initial value. -/
def named? (name : String) : Option Property := (all ++ aliases).lookup name

def named (name : String) : Except PropertyError Property :=
  match named? name with
  | some p => .ok p
  | none => .error (.unknownName name)

/-! ## Values -/

/-- The value of a switch as written. -/
def readSwitch? (text : String) : Option Bool :=
  if text = "true" ∨ text = "on" ∨ text = "yes" then some true
  else if text = "false" ∨ text = "off" ∨ text = "no" then some false
  else none

/-- The value of a duration as written, if it is within its bounds. -/
def readDuration? (least most : UInt16) (text : String) : Option UInt16 :=
  match Text.readNumeral 10 0xffff text.toList with
  | .ok n =>
    if least.toNat ≤ n ∧ n ≤ most.toNat then some (UInt16.ofNat n) else none
  | .error _ => none

/-- Gives a setting a written value. -/
def assign (p : Property) (text : String) : Except PropertyError Property :=
  match p.kind with
  | .duration _ least most =>
    match readDuration? least most text with
    | some value => .ok { p with kind := .duration value least most }
    | none => .error (.badDuration least most)
  | .switch mask _ =>
    match readSwitch? text with
    | some on => .ok { p with kind := .switch mask on }
    | none => .error (.badSwitch text)

/-- What a setting makes of the word that keeps it. -/
def update (p : Property) (word : UInt16) : UInt16 :=
  match p.kind with
  | .duration value _ _ => value
  | .switch mask true => word ||| mask
  | .switch mask false => word &&& ~~~mask

/-- Puts a setting into a list of words. An index beyond the list changes nothing. -/
def apply {n : Nat} (p : Property) (words : Vector UInt16 n) : Vector UInt16 n :=
  if h : p.index.toNat < n then words.set p.index.toNat (p.update words[p.index.toNat]) else words

/-- The value of a setting in a word, as it would be written. A switch counts as on if any of its
bits is. -/
def valueText (p : Property) (word : UInt16) : String :=
  match p.kind with
  | .duration _ _ _ => String.ofList (Text.decimal word.toNat)
  | .switch mask _ => if word &&& mask = 0 then "false" else "true"

end Property

end LongPress
