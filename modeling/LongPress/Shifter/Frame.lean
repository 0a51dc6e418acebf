import LongPress.Shifter.Input

/-!
# LongPress.Shifter.Frame

What sending, letting go and deciding a key leave alone.

`Agrees s t` says that two shifters have the same settings, track and wait for the same presses and
remember the same keys; they may differ in what is down, in shift, in the time of the last decision
and in the outbox.  Sending and letting go agree with their argument, and a decision with its
argument once the wait is over (`agrees_decideKey`).  It follows that a scan leaves nothing that is
due (`timeLeft_scan_ne_zero`).
-/

namespace LongPress.Shifter

/-- The same but for what is down, shift, the time and the outbox. -/
structure Agrees (s t : Shifter) : Prop where
  settings : t.settings = s.settings
  isEnabled : t.isEnabled = s.isEnabled
  waiting : t.waiting = s.waiting
  tracked : t.tracked = s.tracked
  last : t.last = s.last
  lastShifted : t.lastShifted = s.lastShifted
  oneShot : t.oneShot = s.oneShot
  passing : t.passing = s.passing
  tapped : t.tapped = s.tapped
  held : t.held = s.held

variable {s t u : Shifter}

theorem Agrees.refl : Agrees s s := by constructor <;> rfl

theorem Agrees.trans (h : Agrees s t) (h' : Agrees t u) : Agrees s u where
  settings := h'.settings.trans h.settings
  isEnabled := h'.isEnabled.trans h.isEnabled
  waiting := h'.waiting.trans h.waiting
  tracked := h'.tracked.trans h.tracked
  last := h'.last.trans h.last
  lastShifted := h'.lastShifted.trans h.lastShifted
  oneShot := h'.oneShot.trans h.oneShot
  passing := h'.passing.trans h.passing
  tapped := h'.tapped.trans h.tapped
  held := h'.held.trans h.held

/-! ## Keys and shift -/

theorem agrees_emit (s : Shifter) (r : Report) : Agrees s (s.emit r) := by
  constructor <;> rfl

theorem agrees_since (s : Shifter) (now : Tick) : Agrees s { s with since := now } := by
  constructor <;> rfl

theorem agrees_keyDown (p : Policy) (s : Shifter) (k : Keycode) (f : Bool) :
    Agrees s (s.keyDown p k f) := by
  unfold keyDown
  dsimp only
  split <;> constructor <;> rfl

theorem agrees_keyUp (p : Policy) (s : Shifter) (k : Keycode) : Agrees s (s.keyUp p k).2 := by
  unfold keyUp
  dsimp only
  split <;> constructor <;> rfl

theorem agrees_suppressShift (s : Shifter) : Agrees s s.suppressShift := by
  unfold suppressShift
  dsimp only
  split <;> constructor <;> rfl

theorem agrees_restoreShift (s : Shifter) : Agrees s s.restoreShift := by
  unfold restoreShift
  dsimp only
  split <;> constructor <;> rfl

/-! ## Decisions -/

/-- The form in which a press is decided. -/
def formAt (event : Transition) (now : Tick) (s : Shifter) : Bool :=
  decide (s.timeout ≤ now.since event.time) || s.lastShifted

/-- A decided key has just gone down. -/
def sendDecided (p : Policy) (event : Transition) (now : Tick) (s : Shifter) : Shifter :=
  let s := { s with waiting := none, lastShifted := s.formAt event now }
  s.suppressShift.keyDown p event.keycode s.lastShifted

/-- The time a tapped key stays down. -/
def pause (s : Shifter) : Shifter :=
  if s.settings.tapDelay = 0 then s else s.emit (.delay s.settings.tapDelay)

/-- Whether a decided key stays down for the host to repeat it. -/
def keepsDown (byScan : Bool) (s : Shifter) : Bool :=
  byScan && s.settings.has Flag.repeats && !s.settings.has Flag.noHostRepeat

theorem decideKey_eq (p : Policy) (event : Transition) (now : Tick) (byScan : Bool) (s : Shifter) :
    s.decideKey p event now byScan =
      { (if (s.sendDecided p event now).keepsDown byScan then s.sendDecided p event now
          else ((s.sendDecided p event now).pause.keyUp p event.keycode).2.restoreShift) with
        since := now } := rfl

theorem agrees_pause (s : Shifter) : Agrees s s.pause := by
  unfold pause
  split
  · exact .refl
  · exact agrees_emit s _

theorem agrees_sendDecided (p : Policy) (event : Transition) (now : Tick) (s : Shifter) :
    Agrees { s with waiting := none, lastShifted := s.formAt event now }
      (s.sendDecided p event now) :=
  (agrees_suppressShift _).trans (agrees_keyDown p _ _ _)

/-- A decision ends the wait and keeps the form. -/
theorem agrees_decideKey (p : Policy) (event : Transition) (now : Tick) (byScan : Bool)
    (s : Shifter) :
    Agrees { s with waiting := none, lastShifted := s.formAt event now }
      (s.decideKey p event now byScan) := by
  have hsent := agrees_sendDecided p event now s
  rw [decideKey_eq]
  split
  · exact hsent.trans (agrees_since _ now)
  · have hup := (hsent.trans (agrees_pause _)).trans (agrees_keyUp p _ event.keycode)
    exact (hup.trans (agrees_restoreShift _)).trans (agrees_since _ now)

/-! ## After a scan -/

theorem toNat_timeLeft_pos {limit passed : UInt16} (h : ¬ limit ≤ passed) :
    UInt16.ofNat (limit.toNat - passed.toNat) ≠ 0 := by
  intro e
  have hl := limit.toNat_lt
  have hlt : passed.toNat < limit.toNat := Nat.lt_of_not_le h
  have := congrArg UInt16.toNat e
  rw [UInt16.toNat_ofNat', UInt16.toNat_zero, Nat.mod_eq_of_lt (by omega)] at this
  omega

theorem timeToDecide_scanWaiting_ne_zero (p : Policy) (s : Shifter) (now : Tick) :
    (s.scanWaiting p now).timeToDecide now ≠ some 0 := by
  unfold scanWaiting
  split
  · next event hw =>
    split
    · simp [timeToDecide, (agrees_decideKey p event now true s).waiting]
    · next h =>
      simp only [timeToDecide, hw, Option.map_some, ne_eq, Option.some.injEq]
      exact toNat_timeLeft_pos h
  · next hw => simp [timeToDecide, hw]

theorem timeToHandOff_scanTracked_ne_zero (s : Shifter) (now : Tick) :
    (s.scanTracked now).timeToHandOff now ≠ some 0 := by
  unfold scanTracked
  split
  · split
    · unfold timeToHandOff; split <;> simp [stopTracking, emit]
    · assumption
  · next h => unfold timeToHandOff; split <;> simp [h]

theorem timeToDecide_scanTracked (s : Shifter) (now : Tick) :
    (s.scanTracked now).timeToDecide now = s.timeToDecide now := by
  unfold scanTracked
  split
  · split <;> rfl
  · rfl

/-- What is due is due for one of two reasons. -/
theorem timeLeft_eq_zero {now : Tick} (h : s.timeLeft now = some 0) :
    s.timeToDecide now = some 0 ∨ s.timeToHandOff now = some 0 := by
  unfold timeLeft at h
  split at h
  · split at h <;> simp_all
  · simp_all
  · simp_all

/-- After a scan nothing is due at the time of the scan. -/
theorem timeLeft_scan_ne_zero (p : Policy) (s : Shifter) (now : Tick) :
    (s.scan p now).timeLeft now ≠ some 0 := by
  intro hzero
  cases timeLeft_eq_zero hzero with
  | inl h =>
    rw [scan, timeToDecide_scanTracked] at h
    exact timeToDecide_scanWaiting_ne_zero p s now h
  | inr h => exact (s.scanWaiting p now).timeToHandOff_scanTracked_ne_zero now h

end LongPress.Shifter
