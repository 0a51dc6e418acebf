import LongPress.Proofs.Carried
import LongPress.Proofs.Modifiers
import LongPress.Proofs.Order

/-!
# LongPress.Proofs.SingleRole

The shifter while dual role keys are not tracked.

`NeverTracks` says that the settings leave dual role keys alone at every time of a history.  Then
none is ever tracked or settled by an interruption (`NoDualRole.run`), so that a press settles what
waits and nothing else, and a release has only its own key to deal with.
-/

namespace LongPress

namespace Keycode

/-- A control key is no modifier key. -/
theorem modifierBit_of_isControl {k : Keycode} (h : k.isControl = true) : k.modifierBit = 0 := by
  have hnot : k.isModifier = false := by
    refine Bool.eq_false_iff.mpr fun hmod => ?_
    obtain ⟨j, rfl⟩ := eq_of_isModifier hmod
    have hall : ∀ j : Fin 8, (firstModifier + UInt16.ofNat j.val).isControl = false := by decide
    simp [hall] at h
  rw [modifierBit, hnot]
  rfl

end Keycode

namespace Shifter

variable {p : Policy} {s : Shifter} {event : Transition}

/-! ## Keys that are no modifier keys -/

/-- Unless a keyboard says otherwise, a modifier key has no shifted form. -/
theorem modifierBit_of_hasForms (hp : ∀ k, p.isExtra k = false) {k : Keycode}
    (h : s.hasForms p k = true) : k.modifierBit = 0 := by
  rw [Keycode.modifierBit, if_neg]
  intro hmod
  obtain ⟨j, rfl⟩ := Keycode.eq_of_isModifier hmod
  have hcode : ∀ j : Fin 8, formCode? (Keycode.firstModifier + UInt16.ofNat j.val) =
      some (Keycode.firstModifier + UInt16.ofNat j.val).base := by
    decide
  have hkind : ∀ j : Fin 8,
      Settings.isLetter (Keycode.firstModifier + UInt16.ofNat j.val).base = false ∧
        Settings.isDigit (Keycode.firstModifier + UInt16.ofNat j.val).base = false ∧
        Settings.isSymbol (Keycode.firstModifier + UInt16.ofNat j.val).base = false := by
    decide
  obtain ⟨hletter, hdigit, hsymbol⟩ := hkind j
  simp [hasForms, hcode, hp, Settings.admits, hletter, hdigit, hsymbol] at h

theorem noteModifier_of_modifierBit {k : Keycode} (h : k.modifierBit = 0) (isDown : Bool)
    (s : Shifter) : s.noteModifier k isDown = s := by
  have hsame : (if isDown then s.modifiers ||| k.modifierBit
      else s.modifiers &&& ~~~k.modifierBit) = s.modifiers := by
    rw [h]
    cases isDown <;> simp
  rw [noteModifier, hsame]

theorem dropped_of_modifierBit (h : event.keycode.modifierBit = 0) (s : Shifter) :
    s.dropped event = s := by
  have hleft : event.keycode ≠ Keycode.leftShift := by
    rintro e
    rw [e] at h
    exact absurd h (by decide)
  have hright : event.keycode ≠ Keycode.rightShift := by
    rintro e
    rw [e] at h
    exact absurd h (by decide)
  rw [dropped, dropSuppressed, if_neg hleft, if_neg hright]

/-! ## Operations while nothing is tracked -/

/-- A press settles what waits, and does what it does for its own key. -/
theorem handle_press (p : Policy) (h : s.tracked = none) (hdown : event.isDown = true) :
    s.handle p event = (s.settle p event.time false).pressOwn p event := by
  rw [handle, if_pos hdown, handlePress_eq, (clearedFor_of_tracked p event h).1]

theorem handle_release (p : Policy) (s : Shifter) (hup : event.isDown = false) :
    s.handle p event = s.handleRelease p event := if_neg (by simp [hup])

/-- A scan has only the key that waits to look at. -/
theorem scan_of_tracked (p : Policy) (now : Tick) (h : s.tracked = none) :
    s.scan p now = s.scanWaiting p now := by
  have hwaiting : (s.scanWaiting p now).tracked = none := by
    cases scanWaiting_cases p now s with
    | inl hcase => rw [hcase.1, h]
    | inr hcase =>
      obtain ⟨e, -, hscan, -⟩ := hcase
      rw [hscan]
      exact (agrees_decideKey p e now true s).tracked.trans h
  rw [scan, scanTracked, hwaiting]

theorem verdict_of_tracked (p : Policy) (keycode : Keycode) (v : Verdict) (pressTime : Tick)
    (switch : Switch) (now : Tick) (h : s.tracked = none) :
    s.verdict p keycode v pressTime switch now = (true, s) := by
  rw [verdict, trackedAs?, h]
  rfl

/-! ## No dual role keys -/

/-- At no time of a history are dual role keys tracked. -/
def NeverTracks (p : Policy) (s : Shifter) (history : List Operation) : Prop :=
  ∀ first, first <+: history → (s.run p first).settings.has Flag.dualRole = false

namespace NeverTracks

variable {op : Operation} {first rest history : List Operation}

theorem head (h : NeverTracks p s history) : s.settings.has Flag.dualRole = false :=
  h [] List.nil_prefix

theorem tail (h : NeverTracks p s (op :: rest)) : NeverTracks p (s.perform p op).2 rest :=
  fun first hfirst => h (op :: first) (List.cons_prefix_cons.mpr ⟨rfl, hfirst⟩)

theorem left (h : NeverTracks p s (first ++ rest)) : NeverTracks p s first :=
  fun before hbefore => h before (hbefore.trans (List.prefix_append first rest))

theorem right (h : NeverTracks p s (first ++ rest)) : NeverTracks p (s.run p first) rest := by
  intro before hbefore
  rw [← run_append]
  exact h _ ((List.prefix_append_right_inj first).mpr hbefore)

/-- It is enough to look at every history that the first operations make. -/
theorem of_inits (h : ∀ first ∈ history.inits, (s.run p first).settings.has Flag.dualRole = false) :
    NeverTracks p s history :=
  fun first hfirst => h first ((List.mem_inits first history).mpr hfirst)

end NeverTracks

/-- No dual role key is tracked, or settled by an interruption. -/
structure NoDualRole (s : Shifter) : Prop where
  tracked : s.tracked = none
  interrupted (b : UInt8) : s.interrupted b = false

theorem noDualRole_initial (settings : Settings) : NoDualRole (initial settings) where
  tracked := rfl
  interrupted b := by simp [initial, interrupted]

namespace NoDualRole

theorem tapped (h : NoDualRole s) (b : UInt8) : s.tapped.contains b = false :=
  (Bool.or_eq_false_iff.mp (h.interrupted b)).1

theorem held (h : NoDualRole s) (b : UInt8) : s.held.contains b = false :=
  (Bool.or_eq_false_iff.mp (h.interrupted b)).2

theorem perform (h : NoDualRole s) (hoff : s.settings.has Flag.dualRole = false)
    (op : Operation) : NoDualRole (s.perform p op).2 where
  tracked := tracked_perform op s h.tracked hoff
  interrupted b := by
    cases op with
    | loadSettings image => exact h.interrupted b
    | _ =>
      refine (keeps_perform p s (by nofun)).not_interrupted (h.interrupted b) fun x hx => ?_
      rw [h.tracked] at hx
      cases hx

theorem run (h : NoDualRole s) {history : List Operation} (hoff : NeverTracks p s history) :
    NoDualRole (s.run p history) := by
  induction history generalizing s with
  | nil => exact h
  | cons op rest ih => exact ih (h.perform hoff.head op) hoff.tail

end NoDualRole

end Shifter

end LongPress
