import LongPress.Report

/-!
# LongPress.Policy

What a keyboard may decide for itself. Each choice has a stock answer.
-/

namespace LongPress

/-- The choices of one keyboard. -/
structure Policy where
  /-- Further keys with a shifted form. Asked only while the settings admit such keys. -/
  isExtra : Keycode → Bool := fun _ => false
  /-- What a key sends in its plain (`false`) or shifted (`true`) form, going down and up alike. -/
  stroke : Keycode → Bool → Stroke := fun keycode shifted => ⟨keycode.base, shifted⟩
  /-- Whether an interrupted dual role key is simply held. The second argument is the answer of
  the settings for keys of its kind. -/
  holdsWhenInterrupted : Keycode → Bool → Bool := fun _ usual => usual

/-- The stock answer to every choice. -/
def Policy.stock : Policy := {}

end LongPress
