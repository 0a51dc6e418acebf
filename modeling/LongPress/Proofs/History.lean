import Mathlib.Logic.Function.Basic
import LongPress.Shifter.Operation

/-!
# LongPress.Proofs.History

Histories as lists of operations: their presses, the operations that type the timeout, and the keys
that are down.

`Keys` is what a look at the keyboard shows after a history: for each base the press of its key, if
the key is down.  `Keys.admits` says which move can come next on a board where a key that is down
is let go before another key of its base goes down.
-/

namespace LongPress

namespace Operation

/-- Whether an operation is a press of the key that types the timeout. -/
def typesTimeout : Operation → Bool
  | .handle event => event.isDown && event.keycode == ControlKey.report.keycode
  | _ => false

/-- Whether an operation is a press, of whichever key. -/
def isPress : Operation → Bool
  | .handle event => event.isDown
  | _ => false

/-- The time that an operation tells; the others do not look at the clock. -/
def time? : Operation → Option Tick
  | .handle event => some event.time
  | .scan now => some now
  | .verdict _ _ _ _ now => some now
  | _ => none

/-- The press that an operation hands to the shifter. Control keys steer the shifter itself and are
not counted. -/
def press? : Operation → Option Transition
  | .handle event => if event.isDown && !event.keycode.isControl then some event else none
  | _ => none

/-- Whether an operation is the press of a key of a base. -/
def isPressOf (b : UInt8) (op : Operation) : Bool := op.press?.any (·.keycode.base == b)

/-- The move of a key that an operation hands to the shifter, control keys apart. -/
def move? : Operation → Option Transition
  | .handle event => if event.keycode.isControl then none else some event
  | _ => none

theorem move?_handle {event : Transition} (h : event.keycode.isControl = false) :
    move? (.handle event) = some event := by
  simp [move?, h]

/-- The press that an operation is. -/
theorem eq_of_press? {op : Operation} {event : Transition} (h : op.press? = some event) :
    op = .handle event ∧ event.isDown = true ∧ event.keycode.isControl = false := by
  cases op with
  | handle e =>
    simp only [press?] at h
    split at h
    · next hpress =>
      cases h
      simpa using hpress
    · cases h
  | _ => cases h

theorem eq_of_move? {op : Operation} {event : Transition} (h : op.move? = some event) :
    op = .handle event ∧ event.keycode.isControl = false := by
  cases op with
  | handle e =>
    simp only [move?] at h
    split at h
    · cases h
    · next hcontrol =>
      cases h
      exact ⟨rfl, Bool.eq_false_iff.mpr hcontrol⟩
  | _ => cases h

theorem keycode_of_typesTimeout {event : Transition} (hdown : event.isDown = true)
    (h : typesTimeout (.handle event) = false) :
    event.keycode ≠ ControlKey.report.keycode := by
  intro e
  simp [typesTimeout, hdown, e] at h

end Operation

/-- The presses of a history. -/
def presses (history : List Operation) : List Transition := history.filterMap Operation.press?

/-! ## The moves of one key -/

/-- What an operation does to a key: it goes down, as `true`, or up. -/
def Operation.moveOf? (k : Keycode) : Operation → Option Bool
  | .handle event => if event.keycode = k then some event.isDown else none
  | _ => none

/-- The moves of a key in a history, down as `true`, in their order. -/
def movesOf (k : Keycode) (history : List Operation) : List Bool :=
  history.filterMap (Operation.moveOf? k)

/-- Whether the last move of a key was a press. -/
def isHeld (k : Keycode) (history : List Operation) : Bool := (movesOf k history).getLastD false

/-- Whether a shift key is down after a history. -/
def isShiftHeld (history : List Operation) : Bool :=
  isHeld Keycode.leftShift history || isHeld Keycode.rightShift history

theorem movesOf_cons (k : Keycode) (op : Operation) (rest : List Operation) :
    movesOf k (op :: rest) = (op.moveOf? k).toList ++ movesOf k rest := by
  unfold movesOf
  rw [List.filterMap_cons]
  cases op.moveOf? k <;> rfl

/-! ## The keys that are down -/

/-- For each base the press of its key, if that key is down. -/
abbrev Keys := UInt8 → Option Transition

namespace Keys

/-- Every key is up. -/
def up : Keys := fun _ => none

/-- A key goes down or up. -/
def move (K : Keys) (event : Transition) : Keys :=
  Function.update K event.keycode.base (if event.isDown then some event else none)

def perform (K : Keys) (op : Operation) : Keys :=
  match op.move? with
  | some event => K.move event
  | none => K

/-- The keys that are down after a history. -/
def run (K : Keys) (history : List Operation) : Keys := history.foldl perform K

/-- Whether a move can come next: the press of a base whose key is up, or the release of the key
that is down, by its code and at its place. -/
def admits (K : Keys) (event : Transition) : Bool :=
  match K event.keycode.base with
  | none => event.isDown
  | some press =>
    !event.isDown && event.keycode == press.keycode && press.switch.samePlace event.switch

/-- Whether all moves of a history come at their time. -/
def admitsAll (K : Keys) : List Operation → Bool
  | [] => true
  | op :: rest => op.move?.all K.admits && (K.perform op).admitsAll rest

variable {K : Keys} {b : UInt8} {e event : Transition}

theorem move_press (K : Keys) (h : event.isDown = true) :
    K.move event event.keycode.base = some event := by
  rw [move, Function.update_self, if_pos h]

theorem move_release (K : Keys) (h : event.isDown = false) :
    K.move event event.keycode.base = none := by
  rw [move, Function.update_self, if_neg (by simp [h])]

theorem move_of_ne (K : Keys) (h : b ≠ event.keycode.base) : K.move event b = K b :=
  Function.update_of_ne h _ _

/-- A key that goes down puts no other key up. -/
theorem move_of_eq_some (hup : K event.keycode.base = none) (h : K b = some e) :
    K.move event b = some e := by
  rw [move_of_ne K, h]
  rintro rfl
  simp [hup] at h

theorem perform_handle (h : event.keycode.isControl = false) :
    K.perform (.handle event) = K.move event := by
  rw [perform, Operation.move?_handle h]

theorem run_append (K : Keys) (first rest : List Operation) :
    K.run (first ++ rest) = (K.run first).run rest := by
  simp [run]

theorem admitsAll_append (K : Keys) (first rest : List Operation) :
    K.admitsAll (first ++ rest) = (K.admitsAll first && (K.run first).admitsAll rest) := by
  induction first generalizing K with
  | nil => rfl
  | cons op first ih =>
    rw [List.cons_append, admitsAll, admitsAll, ih, Bool.and_assoc]
    rfl

/-- A press that is admitted finds its base up. -/
theorem eq_none_of_admits (h : K.admits event = true) (hdown : event.isDown = true) :
    K event.keycode.base = none := by
  unfold admits at h
  cases hK : K event.keycode.base with
  | none => rfl
  | some press => simp [hK, hdown] at h

/-- A release that is admitted finds the press of its key at its place. -/
theorem eq_some_of_admits (h : K.admits event = true) (hup : event.isDown = false) :
    ∃ press, K event.keycode.base = some press ∧ event.keycode = press.keycode ∧
      press.switch.samePlace event.switch = true := by
  unfold admits at h
  cases hK : K event.keycode.base with
  | none => simp [hK, hup] at h
  | some press =>
    simp only [hK, hup, Bool.not_false, Bool.true_and, Bool.and_eq_true, beq_iff_eq] at h
    exact ⟨press, rfl, h⟩

/-- A key that is down stays down, or its release comes. -/
theorem perform_of_eq_some (hK : K b = some e) {op : Operation}
    (hadmits : op.move?.all K.admits = true) :
    op.isPressOf b = false ∧
      (K.perform op b = some e ∨
        ∃ r, op = .handle r ∧ r.isDown = false ∧ r.keycode.isControl = false ∧
          r.keycode.base = b ∧ r.keycode = e.keycode ∧ e.switch.samePlace r.switch = true) := by
  constructor
  · refine Bool.eq_false_iff.mpr fun hpress => ?_
    obtain ⟨event, hevent, hb⟩ := (Option.any_eq_true _ _).mp hpress
    obtain ⟨rfl, hdown, hcontrol⟩ := Operation.eq_of_press? hevent
    rw [Operation.move?_handle hcontrol] at hadmits
    rw [beq_iff_eq] at hb
    have hup := eq_none_of_admits hadmits hdown
    rw [hb, hK] at hup
    cases hup
  · cases hop : op.move? with
    | none => exact .inl (by rw [perform, hop]; exact hK)
    | some r =>
      obtain ⟨rfl, hcontrol⟩ := Operation.eq_of_move? hop
      rw [perform, hop]
      by_cases hb : b = r.keycode.base
      · subst hb
        rw [hop] at hadmits
        cases hdown : r.isDown with
        | true =>
          have hup := eq_none_of_admits hadmits hdown
          rw [hK] at hup
          cases hup
        | false =>
          obtain ⟨press, hpress, hkey, hplace⟩ := eq_some_of_admits hadmits hdown
          cases hK.symm.trans hpress
          exact .inr ⟨r, rfl, hdown, hcontrol, rfl, hkey, hplace⟩
      · exact .inl (by dsimp only; rw [move_of_ne K hb, hK])

end Keys

end LongPress
