import LongPress.Proofs.Agreement

/-!
# LongPress.Proofs.Outcomes

What an interruption, a press and a release can come to.

`InterruptOutcome`, `PressOutcome` and `ReleaseOutcome` list the ways in which a tracked key and a
key that moves can be dealt with: when each way is taken, what is sent, what is answered and what
becomes of the shifter.  Every interruption, and every press and release of a key other than a
control key, is one of them (`interruptOutcome`, `pressOutcome`, `releaseOutcome`), so that a
property of moves is shown way by way.  A press is looked at once what waited is settled.
-/

namespace LongPress.Shifter

variable {p : Policy} {s : Shifter} {event : Transition}

/-! ## Interruptions -/

/-- The tracked key counts as settled by an interruption, and is tracked no more. -/
def marked (event : Transition) (s : Shifter) : Shifter :=
  { s.stopTracking with tapped := (s.tapped.add event.keycode.base).2 }

/-- The tracked key counts as held by an interruption, and is tracked no more. -/
def heldFor (event : Transition) (s : Shifter) : Shifter :=
  { s.stopTracking with
    held := (s.held.add event.keycode.base).2
    modifiers := s.modifiers ||| event.keycode.modifiers }

/-- The ways of an interruption. -/
inductive InterruptOutcome (p : Policy) (now : Tick) (s : Shifter) :
    List Sending → Shifter → Prop where
  | nothing (tracked : s.tracked = none) : InterruptOutcome p now s [] s
  | holds {e : Transition} (tracked : s.tracked = some e)
      (held : p.holdsWhenInterrupted e.keycode (s.usuallyHolds e.keycode) = true) :
      InterruptOutcome p now s [] (s.heldFor e)
  | types {e : Transition} (tracked : s.tracked = some e)
      (held : p.holdsWhenInterrupted e.keycode (s.usuallyHolds e.keycode) = false) :
      InterruptOutcome p now s ((s.marked e).resolveSends p e now) ((s.marked e).resolve p e now)

theorem interruptOutcome (p : Policy) (now : Tick) (s : Shifter) :
    InterruptOutcome p now s (s.interruptSends p now) (s.interrupt p now) := by
  unfold interruptSends interrupt
  cases ht : s.tracked with
  | none => exact .nothing ht
  | some e =>
    dsimp only
    split
    · next held => exact .holds ht held
    · next held => exact .types ht (Bool.eq_false_iff.mpr held)

/-! ## Time -/

/-- A scan decides what waits or does nothing to it. -/
theorem scanWaiting_cases (p : Policy) (now : Tick) (s : Shifter) :
    s.scanWaiting p now = s ∧ s.scanSends now = [] ∨
      ∃ e, s.waiting = some e ∧ s.scanWaiting p now = s.decideKey p e now true ∧
        s.scanSends now = [.key e.keycode (s.formAt e now)] := by
  unfold scanWaiting scanSends
  cases hw : s.waiting with
  | none => exact .inl ⟨rfl, rfl⟩
  | some e =>
    dsimp only
    split
    · exact .inr ⟨e, rfl, rfl, rfl⟩
    · exact .inl ⟨rfl, rfl⟩

/-- A scan hands the tracked key off or does nothing to it. -/
theorem scanTracked_cases (now : Tick) (s : Shifter) :
    s.scanTracked now = s ∨
      ∃ e, s.tracked = some e ∧
        s.scanTracked now = s.stopTracking.emit (.handOff e.keycode e.switch) := by
  unfold scanTracked
  cases ht : s.tracked with
  | none => exact .inl rfl
  | some e =>
    dsimp only
    split
    · exact .inr ⟨e, rfl, rfl⟩
    · exact .inl rfl

/-- What a decision and a hand-off keep, a scan keeps. -/
theorem scan_keeps {P : Shifter → Prop} {p : Policy} {now : Tick} {s : Shifter} (h : P s)
    (decided : ∀ e, s.waiting = some e → P (s.decideKey p e now true))
    (handedOff : ∀ t e, P t → t.tracked = some e →
      P (t.stopTracking.emit (.handOff e.keycode e.switch))) : P (s.scan p now) := by
  have hwaiting : P (s.scanWaiting p now) := by
    rcases scanWaiting_cases p now s with ⟨hscan, -⟩ | ⟨e, he, hscan, -⟩
    · rwa [hscan]
    · rw [hscan]
      exact decided e he
  unfold scan
  rcases scanTracked_cases now (s.scanWaiting p now) with hscan | ⟨e, he, hscan⟩
  · rwa [hscan]
  · rw [hscan]
    exact handedOff _ e hwaiting he

/-! ## Presses -/

/-- A press of a control key does what the key asks for. -/
theorem pressOwn_control (p : Policy) (s : Shifter) (hcontrol : event.keycode.isControl = true) :
    ∃ key, s.pressOwn p event = (false, s.control key) ∧
      s.ownSends p event = s.controlSends key := by
  rw [← ControlKey.isSome_ofKeycode?] at hcontrol
  obtain ⟨key, hkey⟩ := Option.isSome_iff_exists.mp hcontrol
  refine ⟨key, ?_, ?_⟩
  · rw [pressOwn, hkey]
  · rw [ownSends, hkey]

/-- The last key is forgotten by the press of a key that cannot repeat itself. -/
def forgotten (event : Transition) (s : Shifter) : Shifter :=
  { s.noteModifier event.keycode true with last := Keycode.noKey }

/-- The ways of a press. -/
inductive PressOutcome (p : Policy) (event : Transition) (s : Shifter) :
    List Sending → Bool × Shifter → Prop where
  /-- A dual role key is no concern of the shifter. -/
  | leaves (dual : event.keycode.isDualRole = true)
      (unfit : s.isEnabled = false ∨ s.settings.has Flag.dualRole = false ∨
        s.hasForms p event.keycode = false) :
      PressOutcome p event s [] (true, s)
  | repeatsDual (dual : event.keycode.isDualRole = true) (again : s.isRepeat event = true)
      (on : s.isEnabled = true) (forms : s.hasForms p event.keycode = true) :
      PressOutcome p event s [.key event.keycode s.lastShifted] (false, s.repeatLast p)
  | tracks (dual : event.keycode.isDualRole = true) (again : s.isRepeat event = false)
      (on : s.isEnabled = true) (tracking : s.settings.has Flag.dualRole = true)
      (forms : s.hasForms p event.keycode = true) :
      PressOutcome p event s [] (true, { s with tracked := some event })
  /-- A single role key has no shifted form. -/
  | ignores (single : event.keycode.isDualRole = false)
      (forms : s.hasForms p event.keycode = false) :
      PressOutcome p event s [] (true, s.forgotten event)
  /-- The feature is off. -/
  | passes (single : event.keycode.isDualRole = false) (forms : s.hasForms p event.keycode = true)
      (off : s.isEnabled = false) :
      PressOutcome p event s []
        (true,
          { s.noteModifier event.keycode true with
            passing := (s.passing.add event.keycode.base).2 })
  | bypasses (single : event.keycode.isDualRole = false) (forms : s.hasForms p event.keycode = true)
      (on : s.isEnabled = true) (held : (s.noteModifier event.keycode true).bypasses = true) :
      PressOutcome p event s [.key event.keycode false]
        (false, (s.forgotten event).keyDown p event.keycode false)
  | repeats (single : event.keycode.isDualRole = false) (forms : s.hasForms p event.keycode = true)
      (on : s.isEnabled = true) (again : s.isRepeat event = true) :
      PressOutcome p event s [.key event.keycode s.lastShifted]
        (false, (s.noteModifier event.keycode true).repeatLast p)
  | begins (single : event.keycode.isDualRole = false) (forms : s.hasForms p event.keycode = true)
      (on : s.isEnabled = true) (again : s.isRepeat event = false) :
      PressOutcome p event s [] (false, (s.noteModifier event.keycode true).begin event)

theorem ofKeycode?_eq_none {k : Keycode} (h : k.isControl = false) :
    ControlKey.ofKeycode? k = none := by
  rw [← Option.not_isSome_iff_eq_none, ControlKey.isSome_ofKeycode?, h]
  decide

theorem outcome_pressDualRole (dual : event.keycode.isDualRole = true) :
    PressOutcome p event s (s.pressDualRoleSends p event) (s.pressDualRole p event) := by
  unfold pressDualRole pressDualRoleSends
  split
  · next h =>
    refine .leaves dual ?_
    simpa [or_assoc] using h
  · next h =>
    simp only [Bool.or_eq_true, Bool.not_eq_true', not_or, Bool.not_eq_false] at h
    split
    · next again =>
      rw [last_of_isRepeat again]
      exact .repeatsDual dual again h.1.1 h.2
    · next again => exact .tracks dual (Bool.eq_false_iff.mpr again) h.1.1 h.1.2 h.2

theorem outcome_pressPlain (single : event.keycode.isDualRole = false)
    (forms : s.hasForms p event.keycode = true) :
    PressOutcome p event s ((s.noteModifier event.keycode true).pressPlainSends event)
      ((s.noteModifier event.keycode true).pressPlain p event) := by
  unfold pressPlain pressPlainSends
  split
  · next off => exact .passes single forms (by simpa [noteModifier] using off)
  · next on =>
    have hon : s.isEnabled = true := by simpa [noteModifier] using on
    split
    · next held => exact .bypasses single forms hon held
    · split
      · next again =>
        rw [last_of_isRepeat again]
        exact .repeats single forms hon again
      · next again => exact .begins single forms hon (Bool.eq_false_iff.mpr again)

/-- Every press of a key other than a control key goes one of these ways. -/
theorem pressOutcome (p : Policy) (s : Shifter) (hcontrol : event.keycode.isControl = false) :
    PressOutcome p event s (s.ownSends p event) (s.pressOwn p event) := by
  unfold ownSends pressOwn
  rw [ofKeycode?_eq_none hcontrol]
  dsimp only
  split
  · next dual => exact outcome_pressDualRole dual
  · next single =>
    have hsingle : event.keycode.isDualRole = false := Bool.eq_false_iff.mpr single
    split
    · next forms => exact outcome_pressPlain hsingle forms
    · next forms => exact .ignores hsingle (Bool.eq_false_iff.mpr forms)

/-! ## Releases -/

/-- The shifter once a shift key that goes up will not be given back. -/
def dropped (event : Transition) (s : Shifter) : Shifter :=
  { s with suppressed := (s.dropSuppressed event.keycode).suppressed }

theorem agrees_dropped (event : Transition) (s : Shifter) : Agrees s (s.dropped event) := by
  constructor <;> rfl

/-- The shifter that tracks the key no more. -/
def untracked (event : Transition) (s : Shifter) : Shifter :=
  if (s.trackedAs? event.keycode event.switch).isSome then s.stopTracking else s

theorem untracked_eq (event : Transition) (s : Shifter) :
    s.untracked event = { s with tracked := (s.untracked event).tracked } := by
  unfold untracked
  split <;> rfl

/-- The key that goes up is tracked no more. -/
theorem tracked_untracked (s : Shifter) {press : Transition} (hkey : event.keycode = press.keycode)
    (hplace : press.switch.samePlace event.switch = true) :
    (s.untracked event).tracked ≠ some press := by
  unfold untracked
  split
  · nofun
  · next hnot =>
    intro ht
    have hsome : (s.trackedAs? event.keycode event.switch).isSome = true := by
      simp [trackedAs?, ht, hkey, hplace]
    exact hnot hsome

/-- The shifter once the release of a single role key is noted. -/
def unpassed (event : Transition) (s : Shifter) : Shifter :=
  { (s.dropped event).noteModifier event.keycode false with
    passing := (s.passing.remove event.keycode.base).2 }

/-- The ways of a release. -/
inductive ReleaseOutcome (p : Policy) (event : Transition) (s : Shifter) :
    List Sending → Bool × Shifter → Prop where
  /-- An interruption has typed the key. -/
  | tapped (dual : event.keycode.isDualRole = true)
      (tapped : s.tapped.contains event.keycode.base = true) :
      ReleaseOutcome p event s []
        (false, { s.dropped event with tapped := (s.tapped.remove event.keycode.base).2 })
  /-- An interruption has held the key. -/
  | held (dual : event.keycode.isDualRole = true)
      (tapped : s.tapped.contains event.keycode.base = false)
      (held : s.held.contains event.keycode.base = true) :
      ReleaseOutcome p event s []
        (true,
          { s.dropped event with
            held := (s.held.remove event.keycode.base).2
            modifiers := s.modifiers &&& ~~~event.keycode.modifiers
            suppressed := (s.dropped event).suppressed &&& ~~~event.keycode.modifiers })
  | endsDual (dual : event.keycode.isDualRole = true)
      (tapped : s.tapped.contains event.keycode.base = false)
      (held : s.held.contains event.keycode.base = false) :
      ReleaseOutcome p event s (s.endKeySends event.keycode event.time)
        (!(((s.dropped event).untracked event).endKey p event.keycode event.time).1,
          (((s.dropped event).untracked event).endKey p event.keycode event.time).2)
  | ends (single : event.keycode.isDualRole = false) (forms : s.hasForms p event.keycode = true) :
      ReleaseOutcome p event s (s.endKeySends event.keycode event.time)
        (s.passing.contains event.keycode.base,
          ((s.unpassed event).endKey p event.keycode event.time).2)
  | ignores (single : event.keycode.isDualRole = false)
      (forms : s.hasForms p event.keycode = false) :
      ReleaseOutcome p event s [] (true, (s.dropped event).noteModifier event.keycode false)

theorem outcome_releaseDualRole (dual : event.keycode.isDualRole = true) :
    ReleaseOutcome p event s (s.releaseDualRoleSends event)
      ((s.dropped event).releaseDualRole p event) := by
  have htapped : (s.dropped event).tapped = s.tapped := rfl
  have hheld : (s.dropped event).held = s.held := rfl
  unfold releaseDualRole releaseDualRoleSends
  dsimp only
  rw [htapped, hheld]
  split
  · next tapped => exact .tapped dual tapped
  · next tapped =>
    have hnot := Bool.eq_false_iff.mpr tapped
    split
    · next held => exact .held dual hnot held
    · next held => exact .endsDual dual hnot (Bool.eq_false_iff.mpr held)

/-- Every release of a key other than a control key goes one of these ways. -/
theorem releaseOutcome (p : Policy) (s : Shifter) (hcontrol : event.keycode.isControl = false) :
    ReleaseOutcome p event s (s.handleReleaseSends p event) (s.handleRelease p event) := by
  have hrelease : s.handleRelease p event =
      if event.keycode.isDualRole then (s.dropped event).releaseDualRole p event
      else if s.hasForms p event.keycode then
        ((s.dropped event).noteModifier event.keycode false).releasePlain p event
      else (true, (s.dropped event).noteModifier event.keycode false) := by
    unfold handleRelease
    rw [hcontrol, dropSuppressed_eq]
    rfl
  rw [hrelease, handleReleaseSends, if_neg (by simp [hcontrol])]
  split
  · next dual => exact outcome_releaseDualRole dual
  · next single =>
    have hsingle : event.keycode.isDualRole = false := Bool.eq_false_iff.mpr single
    split
    · next forms =>
      have hends := ReleaseOutcome.ends (p := p) hsingle forms
      rwa [← CodeSet.remove_fst] at hends
    · next forms => exact .ignores hsingle (Bool.eq_false_iff.mpr forms)

/-- The release of a control key is no concern of anybody. -/
theorem handleRelease_control (p : Policy) (s : Shifter)
    (hcontrol : event.keycode.isControl = true) :
    s.handleRelease p event = (false, s) ∧ s.handleReleaseSends p event = [] := by
  constructor
  · rw [handleRelease, if_pos hcontrol]
  · rw [handleReleaseSends, if_pos hcontrol]

end LongPress.Shifter
