import LongPress.Proofs.Sending

/-!
# LongPress.Proofs.Agreement

What the parts of an operation leave alone.

Every function up to a decision agrees with its argument (`Agrees`), or with its argument after the
one change it is there for (`agrees_begin`, `agrees_settle`), so that nothing else has to be
unfolded to learn what it does to a press.
-/

namespace LongPress.Shifter

variable {p : Policy} {s t : Shifter}

/-! ## Modifiers and text -/

theorem agrees_noteModifier (k : Keycode) (isDown : Bool) (s : Shifter) :
    Agrees s (s.noteModifier k isDown) := by
  constructor <;> rfl

theorem agrees_typeText (text : List Char) (s : Shifter) : Agrees s (s.typeText text) := by
  unfold typeText
  induction text.filterMap keyOfChar? generalizing s with
  | nil => exact .refl
  | cons k ks ih =>
    rw [List.foldl_cons]
    exact ((agrees_emit s _).trans (agrees_emit _ _)).trans (ih _)

/-! ## Decisions -/

theorem agrees_letGo (p : Policy) (keycode : Keycode) (now : Tick) (s : Shifter) :
    Agrees s (s.letGo p keycode now).2 := by
  have hup := agrees_keyUp p s keycode
  unfold letGo
  dsimp only
  split
  · exact (hup.trans (agrees_restoreShift _)).trans (agrees_since _ now)
  · exact hup.trans (agrees_since _ now)

theorem agrees_repeatLast (p : Policy) (s : Shifter) : Agrees s (s.repeatLast p) :=
  (agrees_suppressShift s).trans (agrees_keyDown p _ _ _)

/-- A wait begins with the form the shift keys give it. -/
theorem agrees_begin (event : Transition) (s : Shifter) :
    Agrees
      { s with
        lastShifted := s.hasShift
        oneShot := (s.begin event).oneShot
        last := event.keycode
        waiting := some event }
      (s.begin event) := by
  unfold begin
  dsimp only
  split <;> constructor <;> rfl

/-- Whatever waits is decided; nothing else that the shifter remembers of presses changes. -/
theorem agrees_settle (p : Policy) (now : Tick) (byScan : Bool) (s : Shifter) :
    Agrees { s with waiting := none, lastShifted := (s.settle p now byScan).lastShifted }
      (s.settle p now byScan) := by
  unfold settle
  cases hw : s.waiting with
  | none => exact ⟨rfl, rfl, hw, rfl, rfl, rfl, rfl, rfl, rfl, rfl⟩
  | some event =>
    have h := agrees_decideKey p event now byScan s
    exact ⟨h.settings, h.isEnabled, h.waiting, h.tracked, h.last, rfl, h.oneShot, h.passing,
      h.tapped, h.held⟩

/-- The end of a key decides it if it waits. -/
theorem agrees_endKey (p : Policy) (keycode : Keycode) (now : Tick) (s : Shifter) :
    Agrees
      { s with
        waiting := (s.endKey p keycode now).2.waiting
        lastShifted := (s.endKey p keycode now).2.lastShifted }
      (s.endKey p keycode now).2 := by
  have hgone := agrees_letGo p keycode now s
  unfold endKey
  cases s.waiting with
  | none =>
    exact ⟨hgone.settings, hgone.isEnabled, rfl, hgone.tracked, hgone.last, rfl, hgone.oneShot,
      hgone.passing, hgone.tapped, hgone.held⟩
  | some event =>
    have h := agrees_decideKey p event now false s
    dsimp only
    split
    · exact ⟨h.settings, h.isEnabled, rfl, h.tracked, h.last, rfl, h.oneShot, h.passing, h.tapped,
        h.held⟩
    · exact ⟨hgone.settings, hgone.isEnabled, rfl, hgone.tracked, hgone.last, rfl, hgone.oneShot,
        hgone.passing, hgone.tapped, hgone.held⟩

/-- A key does not wait beyond its end. -/
theorem waiting_endKey {keycode : Keycode} {now : Tick} {e : Transition}
    (h : (s.endKey p keycode now).2.waiting = some e) :
    s.waiting = some e ∧ e.keycode ≠ keycode := by
  have hgone := (agrees_letGo p keycode now s).waiting
  unfold endKey at h
  cases hw : s.waiting with
  | none =>
    rw [hw] at h hgone
    simp [hgone] at h
  | some event =>
    rw [hw] at h hgone
    dsimp only at h
    split at h
    · rw [(agrees_decideKey p event now false s).waiting] at h
      cases h
    · next hne =>
      cases hgone.symm.trans h
      exact ⟨rfl, Ne.symm hne⟩

/-- A tracked key that is decided decides what waits first; the key is the last one, or none is. -/
theorem agrees_resolve (p : Policy) (event : Transition) (now : Tick) (s : Shifter) :
    Agrees
      { s with
        waiting := none
        lastShifted := (s.resolve p event now).lastShifted
        last := (s.resolve p event now).last
        oneShot := (s.resolve p event now).oneShot }
      (s.resolve p event now) := by
  have hs := agrees_settle p now false s
  unfold resolve
  dsimp only
  generalize s.settle p now false = settled at hs ⊢
  split
  · let noted : Shifter := { settled with last := Keycode.noKey }
    have h := (agrees_keyDown p noted event.keycode false).trans (agrees_keyUp p _ event.keycode)
    exact ⟨h.settings.trans hs.settings, h.isEnabled.trans hs.isEnabled,
      h.waiting.trans hs.waiting, h.tracked.trans hs.tracked, rfl, rfl, rfl,
      h.passing.trans hs.passing, h.tapped.trans hs.tapped, h.held.trans hs.held⟩
  · have hb := agrees_begin event settled
    have h := agrees_settle p now false (settled.begin event)
    exact ⟨(h.settings.trans hb.settings).trans hs.settings,
      (h.isEnabled.trans hb.isEnabled).trans hs.isEnabled, h.waiting,
      (h.tracked.trans hb.tracked).trans hs.tracked, rfl, rfl, rfl,
      (h.passing.trans hb.passing).trans hs.passing,
      (h.tapped.trans hb.tapped).trans hs.tapped, (h.held.trans hb.held).trans hs.held⟩

/-! ## Time and the feature's switch -/

/-- A scan may stop tracking a key. -/
theorem agrees_scanTracked (now : Tick) (s : Shifter) :
    Agrees { s with tracked := (s.scanTracked now).tracked } (s.scanTracked now) := by
  unfold scanTracked
  split
  · split <;> constructor <;> rfl
  · exact .refl

theorem agrees_enable (s : Shifter) : Agrees { s with isEnabled := true } s.enable :=
  agrees_restoreShift _

theorem agrees_disable (s : Shifter) : Agrees { s with isEnabled := false } s.disable :=
  agrees_restoreShift _

theorem agrees_toggle (s : Shifter) : Agrees { s with isEnabled := !s.isEnabled } s.toggle := by
  unfold toggle
  cases s.isEnabled with
  | true => exact agrees_disable s
  | false => exact agrees_enable s

/-- Whatever the settings and the switch are before a change, they are those of the result. -/
theorem Agrees.reset {g : Settings} {b : Bool}
    (h : Agrees { s with settings := g, isEnabled := b } t) :
    Agrees { s with settings := t.settings, isEnabled := t.isEnabled } t :=
  ⟨rfl, rfl, h.waiting, h.tracked, h.last, h.lastShifted, h.oneShot, h.passing, h.tapped, h.held⟩

/-- A control key changes the settings or the feature's switch. -/
theorem agrees_control (key : ControlKey) (s : Shifter) :
    Agrees { s with settings := (s.control key).settings, isEnabled := (s.control key).isEnabled }
      (s.control key) := by
  cases key with
  | shorter => exact .refl
  | longer => exact .refl
  | report => exact (agrees_typeText s.timeoutText s).reset
  | on => exact (agrees_enable s).reset
  | off => exact (agrees_disable s).reset
  | toggle => exact (agrees_toggle s).reset

end LongPress.Shifter
