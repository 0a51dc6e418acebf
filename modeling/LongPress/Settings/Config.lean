import LongPress.Settings.Property

/-!
# LongPress.Settings.Config

The settings as a settings file describes them: a word for each slot, and which slots the file
assigns. The others keep their initial words.
-/

namespace LongPress

structure Config where
  values : Table := Table.initial
  assigned : Vector Bool 5 := Vector.replicate 5 false
  deriving DecidableEq, Repr

namespace Config

/-! ## Words -/

/-- The word of a slot; none for a number that is no slot. -/
def value? (c : Config) (index : UInt16) : Option UInt16 :=
  (Slot.ofIndex? index).map fun slot => slot.get c.values

/-- Whether a slot is assigned; none for a number that is no slot. -/
def isAssigned? (c : Config) (index : UInt16) : Option Bool :=
  (Slot.ofIndex? index).map fun slot => slot.get c.assigned

/-- Assigns the word of a slot. -/
def setSlot (c : Config) (slot : Slot) (word : UInt16) : Config where
  values := slot.set c.values word
  assigned := slot.set c.assigned true

/-- Puts a setting into its slot; none if there is no such slot. -/
def set? (c : Config) (p : Property) : Option Config :=
  (Slot.ofIndex? p.index).map fun slot => c.setSlot slot (p.update (slot.get c.values))

/-- Puts a setting into its slot. A setting without a slot changes nothing. -/
def set (c : Config) (p : Property) : Config := (c.set? p).getD c

/-- The words after a setting was put into its slot are those that the setting makes of them. -/
theorem values_of_set? {c d : Config} {p : Property} (h : c.set? p = some d) :
    d.values = p.apply c.values := by
  obtain ⟨slot, hs, rfl⟩ := Option.map_eq_some_iff.mp h
  unfold Slot.ofIndex? at hs
  split at hs
  · next hlt =>
    simp only [Option.some.injEq] at hs
    subst hs
    simp [setSlot, Property.apply, hlt, Slot.set, Slot.get]
  · simp at hs

/-! ## Settings by name -/

/-- The value of a setting as it would be written. -/
def valueText? (c : Config) (name : String) : Option String :=
  (Property.named? name).bind fun p => (c.value? p.index).map p.valueText

/-- The name and the value of every setting. -/
def describe (c : Config) : List (String × String) :=
  Property.names.filterMap fun name => (c.valueText? name).map (name, ·)

end Config

end LongPress
