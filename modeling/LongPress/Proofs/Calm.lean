import LongPress.Proofs.SingleRole

/-!
# LongPress.Proofs.Calm

What a shifter does while shift plays no part.

A shifter is calm while it is on, tracks nothing and has no shift held, taken back or ready.  Then
taking shift back and giving it back do nothing, and what is left of each function is an update of a
few fields.  `core` forgets what is down and what was said, which no decision depends on; the
lemmas of this module give the core after each function, ending with those after a press
(`core_pressOwn`), a release (`release_cases`) and a scan (`core_scan`).

Ordinary keys, which are neither shift keys nor control keys nor dual role keys, keep a shifter calm
(`Calm.handle`).
-/

namespace LongPress

namespace Keycode

/-- A key that is neither a shift key nor a control key and has a single role. -/
def isOrdinary (k : Keycode) : Bool :=
  k != leftShift && k != rightShift && !k.isControl && !k.isDualRole

theorem isOrdinary_iff {k : Keycode} :
    k.isOrdinary = true ↔
      k ≠ leftShift ∧ k ≠ rightShift ∧ k.isControl = false ∧ k.isDualRole = false := by
  simp [isOrdinary, and_assoc]

/-- An ordinary key has no shift bit. -/
theorem modifierBit_and_shiftBits {k : Keycode} (h : k.isOrdinary = true) :
    k.modifierBit &&& shiftBits = 0 := by
  obtain ⟨hleft, hright, -⟩ := isOrdinary_iff.mp h
  refine Modifiers.eq_of_bit fun i => ?_
  by_contra hbit
  simp only [Modifiers.bit_and, Modifiers.bit_zero, Bool.not_eq_false, Bool.and_eq_true] at hbit
  cases eq_of_shift hbit.1 hbit.2 with
  | inl hkey => exact hleft hkey
  | inr hkey => exact hright hkey

end Keycode

namespace Shifter

open Modifiers (bit)

variable {p : Policy} {s t : Shifter} {event : Transition} {k : Keycode} {now : Tick}

/-! ## The core -/

/-- The shifter but for what is down and what it has said. -/
def core (s : Shifter) : Shifter := { s with shifted := ∅, down := ∅, outbox := [] }

@[simp] theorem core_keyDown (p : Policy) (s : Shifter) (k : Keycode) (f : Bool) :
    core (s.keyDown p k f) = core s := by
  unfold keyDown; dsimp only; split <;> rfl

@[simp] theorem core_keyUp (p : Policy) (s : Shifter) (k : Keycode) :
    core (s.keyUp p k).2 = core s := by
  unfold keyUp; dsimp only; split <;> rfl

@[simp] theorem core_pause (s : Shifter) : core s.pause = core s := by
  unfold pause; split <;> rfl

theorem suppressShift_of_shiftless (h : s.modifiers &&& Keycode.shiftBits = 0) :
    s.suppressShift = s := if_pos h

theorem restoreShift_of_suppressed (h : s.suppressed = 0) : s.restoreShift = s := if_pos h

/-! ## Calm -/

/-- The feature is on, nothing is tracked and shift plays no part. -/
structure Calm (s : Shifter) : Prop where
  isEnabled : s.isEnabled = true
  tracked : s.tracked = none
  oneShot : s.oneShot = 0
  shiftless : s.modifiers &&& Keycode.shiftBits = 0
  suppressed : s.suppressed = 0

theorem calm_initial (settings : Settings) : Calm (initial settings) where
  isEnabled := rfl
  tracked := rfl
  oneShot := rfl
  shiftless := by simp [initial]
  suppressed := rfl

/-- To be calm is a matter of the core. -/
theorem calm_core : Calm (core s) ↔ Calm s :=
  ⟨fun h => ⟨h.1, h.2, h.3, h.4, h.5⟩, fun h => ⟨h.1, h.2, h.3, h.4, h.5⟩⟩

/-- The shifter whose wait for a press has ended. -/
def decided (event : Transition) (now : Tick) (s : Shifter) : Shifter :=
  { s with waiting := none, lastShifted := s.formAt event now, since := now }

/-- The shifter that waits for a press without shift. -/
def begun (event : Transition) (s : Shifter) : Shifter :=
  { s with
    lastShifted := false, last := event.keycode, since := event.time, waiting := some event }

/-- The shifter once a key goes up that may have been pressed while the feature was off. -/
def stopPassing (k : Keycode) (s : Shifter) : Shifter :=
  { s with passing := (s.passing.remove k.base).2 }

theorem settle_of_none (h : s.waiting = none) (byScan : Bool) : s.settle p now byScan = s := by
  rw [settle, h]

theorem settle_of_some (h : s.waiting = some event) (byScan : Bool) :
    s.settle p now byScan = s.decideKey p event now byScan := by
  rw [settle, h]

namespace Calm

theorem hasShift (h : Calm s) : s.hasShift = false := by
  simp [Shifter.hasShift, anyModifiers, h.oneShot, h.shiftless]

/-! ## Decisions -/

theorem core_sendDecided (h : Calm s) :
    core (s.sendDecided p event now) =
      core { s with waiting := none, lastShifted := s.formAt event now } := by
  unfold sendDecided
  dsimp only
  rw [core_keyDown, suppressShift_of_shiftless (by exact h.shiftless)]

theorem core_decideKey (h : Calm s) (byScan : Bool) :
    core (s.decideKey p event now byScan) = core (s.decided event now) := by
  have hsent : core (s.sendDecided p event now) =
      core { s with waiting := none, lastShifted := s.formAt event now } := h.core_sendDecided
  have hup : core ((s.sendDecided p event now).pause.keyUp p event.keycode).2 =
      core { s with waiting := none, lastShifted := s.formAt event now } := by
    rw [core_keyUp, core_pause, hsent]
  rw [decideKey_eq]
  split
  · exact congrArg (fun u : Shifter => { u with since := now }) hsent
  · have hzero : ((s.sendDecided p event now).pause.keyUp p event.keycode).2.suppressed = 0 :=
      (congrArg Shifter.suppressed hup).trans h.suppressed
    rw [restoreShift_of_suppressed hzero]
    exact congrArg (fun u : Shifter => { u with since := now }) hup

theorem core_letGo (h : Calm s) : core (s.letGo p k now).2 = core { s with since := now } := by
  have hup := core_keyUp p s k
  have hzero : (s.keyUp p k).2.suppressed = 0 :=
    (congrArg Shifter.suppressed hup).trans h.suppressed
  unfold letGo
  dsimp only
  rw [restoreShift_of_suppressed hzero, ite_self]
  exact congrArg (fun u : Shifter => { u with since := now }) hup

/-- The release of the key that waits decides it. -/
theorem core_endKey_self (h : Calm s) (hw : s.waiting = some event) :
    core (s.endKey p event.keycode now).2 = core (s.decided event now) := by
  unfold endKey
  rw [hw]
  dsimp only
  rw [if_pos rfl]
  exact h.core_decideKey false

/-- The release of any other key only tells the time. -/
theorem core_endKey_of_ne (h : Calm s) (hne : ∀ e, s.waiting = some e → k ≠ e.keycode) :
    core (s.endKey p k now).2 = core { s with since := now } := by
  unfold endKey
  split
  · next e hw =>
    rw [if_neg (hne e hw)]
    exact h.core_letGo
  · exact h.core_letGo

theorem core_repeatLast (h : Calm s) : core (s.repeatLast p) = core s := by
  unfold repeatLast
  dsimp only
  rw [core_keyDown, suppressShift_of_shiftless h.shiftless]

theorem begin_eq (h : Calm s) : s.begin event = s.begun event := by
  unfold begin
  rw [h.hasShift]
  dsimp only
  rw [if_pos (by simp [h.oneShot])]
  rfl

/-! ## Moves and time -/

/-- What a press sends for its own key: the key is sent at once, repeats itself, or is left. -/
theorem ownSends_eq (h : Calm s) (hp : ∀ k, p.isExtra k = false)
    (hkey : event.keycode.isOrdinary = true) :
    s.ownSends p event =
      if s.hasForms p event.keycode then
        if s.bypasses then [.key event.keycode false]
        else if s.isRepeat event then [.key s.last s.lastShifted] else []
      else [] := by
  obtain ⟨-, -, hcontrol, hsingle⟩ := Keycode.isOrdinary_iff.mp hkey
  unfold ownSends
  rw [ofKeycode?_eq_none hcontrol, hsingle]
  cases hforms : s.hasForms p event.keycode with
  | false =>
    have hnoted : (s.noteModifier event.keycode true).hasForms p event.keycode = false := hforms
    simp [hnoted]
  | true =>
    rw [noteModifier_of_modifierBit (modifierBit_of_hasForms hp hforms)]
    simp [hforms, pressPlainSends, h.isEnabled]

/-- What a press does for its own key, which begins to wait if it is not sent. -/
theorem core_pressOwn (h : Calm s) (hp : ∀ k, p.isExtra k = false)
    (hkey : event.keycode.isOrdinary = true) :
    core (s.pressOwn p event).2 =
      if s.hasForms p event.keycode then
        if s.bypasses then core { s with last := Keycode.noKey }
        else if s.isRepeat event then core s else core (s.begun event)
      else core (s.forgotten event) := by
  obtain ⟨-, -, hcontrol, hsingle⟩ := Keycode.isOrdinary_iff.mp hkey
  unfold pressOwn
  rw [ofKeycode?_eq_none hcontrol, hsingle]
  cases hforms : s.hasForms p event.keycode with
  | false =>
    have hnoted : (s.noteModifier event.keycode true).hasForms p event.keycode = false := hforms
    simp [hnoted, forgotten]
  | true =>
    rw [noteModifier_of_modifierBit (modifierBit_of_hasForms hp hforms)]
    simp only [hforms, pressPlain, h.isEnabled, if_true, if_false, Bool.not_true,
      Bool.false_eq_true]
    cases s.bypasses with
    | true => exact core_keyDown p _ event.keycode false
    | false =>
      cases s.isRepeat event with
      | true => exact h.core_repeatLast
      | false => exact congrArg core h.begin_eq

/-- A scan decides the key that waits once it is due. -/
theorem core_scan (h : Calm s) (hw : s.waiting = some event)
    (hdue : s.timeout ≤ now.since event.time) :
    core (s.scan p now) = core (s.decided event now) := by
  have hscan : s.scanWaiting p now = s.decideKey p event now true := by
    rw [scanWaiting, hw]
    exact if_pos hdue
  rw [scan_of_tracked p now h.tracked, hscan]
  exact h.core_decideKey true

/-- A scan does nothing while nothing is due. -/
theorem scan_eq (h : Calm s) (hidle : ∀ e, s.waiting = some e → ¬ s.timeout ≤ now.since e.time) :
    s.scan p now = s := by
  rw [scan_of_tracked p now h.tracked]
  unfold scanWaiting
  split
  · next e hw => exact if_neg (hidle e hw)
  · rfl

/-! ## Calm is kept -/

theorem of_core (h : Calm s) (hcore : core t = core s) : Calm t := by
  rw [← calm_core, hcore, calm_core]
  exact h

theorem decided (h : Calm s) : Calm (s.decided event now) := ⟨h.1, h.2, h.3, h.4, h.5⟩

theorem begun (h : Calm s) : Calm (s.begun event) := ⟨h.1, h.2, h.3, h.4, h.5⟩

theorem settle (h : Calm s) : Calm (s.settle p now false) := by
  cases hw : s.waiting with
  | none => rwa [settle_of_none hw]
  | some e =>
    rw [settle_of_some hw]
    exact h.decided.of_core (h.core_decideKey false)

theorem noteModifier (h : Calm s) (hkey : k.isOrdinary = true) (isDown : Bool) :
    Calm (s.noteModifier k isDown) := by
  refine ⟨h.1, h.2, h.3, ?_, h.5⟩
  have hbit := Keycode.modifierBit_and_shiftBits hkey
  cases isDown with
  | true =>
    show (s.modifiers ||| k.modifierBit) &&& Keycode.shiftBits = 0
    rw [Modifiers.and_shiftBits_or, h.shiftless, hbit, UInt8.or_self]
  | false =>
    show (s.modifiers &&& ~~~k.modifierBit) &&& Keycode.shiftBits = 0
    rw [UInt8.and_assoc, UInt8.and_comm (~~~k.modifierBit), ← UInt8.and_assoc, h.shiftless,
      UInt8.zero_and]

theorem dropped_eq (hkey : event.keycode.isOrdinary = true) (s : Shifter) :
    s.dropped event = s := by
  obtain ⟨hleft, hright, -⟩ := Keycode.isOrdinary_iff.mp hkey
  rw [dropped, dropSuppressed, if_neg hleft, if_neg hright]

theorem stopPassing (h : Calm s) (k : Keycode) : Calm (s.stopPassing k) :=
  ⟨h.1, h.2, h.3, h.4, h.5⟩

theorem endKey (h : Calm s) : Calm (s.endKey p k now).2 := by
  have htold : Calm { s with since := now } := ⟨h.1, h.2, h.3, h.4, h.5⟩
  by_cases hself : ∃ e, s.waiting = some e ∧ k = e.keycode
  · obtain ⟨e, hw, rfl⟩ := hself
    exact h.decided.of_core (h.core_endKey_self hw)
  · exact htold.of_core (h.core_endKey_of_ne fun e hw hk => hself ⟨e, hw, hk⟩)

theorem pressOwn (h : Calm s) (hp : ∀ k, p.isExtra k = false)
    (hkey : event.keycode.isOrdinary = true) : Calm (s.pressOwn p event).2 := by
  have hcore := h.core_pressOwn hp hkey
  split at hcore
  · split at hcore
    · have hforgotten : Calm { s with last := Keycode.noKey } := ⟨h.1, h.2, h.3, h.4, h.5⟩
      exact hforgotten.of_core hcore
    · split at hcore
      · exact h.of_core hcore
      · exact h.begun.of_core hcore
  · have hnoted := h.noteModifier hkey true
    have hforgotten : Calm (s.forgotten event) :=
      ⟨hnoted.1, hnoted.2, hnoted.3, hnoted.4, hnoted.5⟩
    exact hforgotten.of_core hcore

/-- A press settles what waits and then does what it does for its own key. -/
theorem press_eq (h : Calm s) (p : Policy) (event : Transition) (hdown : event.isDown = true) :
    s.sends p (.handle event) =
        s.settleSends event.time ++ (s.settle p event.time false).ownSends p event ∧
      (s.perform p (.handle event)).2 = ((s.settle p event.time false).pressOwn p event).2 := by
  obtain ⟨-, hsends⟩ := clearedFor_of_tracked p event h.tracked
  constructor
  · rw [sends, if_pos hdown, hsends]
  · rw [perform, handle_press p h.tracked hdown]

/-- The release of a key with a shifted form ends the key; that of any other is noted. -/
theorem release_cases (s : Shifter) (hp : ∀ k, p.isExtra k = false)
    (hkey : event.keycode.isOrdinary = true) (hup : event.isDown = false) :
    (s.hasForms p event.keycode = true ∧
        s.sends p (.handle event) = s.endKeySends event.keycode event.time ∧
        (s.perform p (.handle event)).2 =
          ((s.stopPassing event.keycode).endKey p event.keycode event.time).2) ∨
      (s.hasForms p event.keycode = false ∧ s.sends p (.handle event) = [] ∧
        (s.perform p (.handle event)).2 = s.noteModifier event.keycode false) := by
  obtain ⟨-, -, hcontrol, hsingle⟩ := Keycode.isOrdinary_iff.mp hkey
  have ho := releaseOutcome p s hcontrol
  rw [sends, if_neg (by simp [hup]), perform, handle_release p s hup]
  generalize s.handleReleaseSends p event = l, s.handleRelease p event = r at ho ⊢
  cases ho with
  | tapped dual => simp [hsingle] at dual
  | held dual => simp [hsingle] at dual
  | endsDual dual => simp [hsingle] at dual
  | ends _ forms =>
    have hunpassed : s.unpassed event = s.stopPassing event.keycode := by
      rw [unpassed, dropped_eq hkey, noteModifier_of_modifierBit (modifierBit_of_hasForms hp forms)]
      rfl
    exact .inl ⟨forms, rfl, by rw [hunpassed]⟩
  | ignores _ forms => exact .inr ⟨forms, rfl, by rw [dropped_eq hkey]⟩

/-- The moves of ordinary keys keep a shifter calm. -/
theorem handle (h : Calm s) (hp : ∀ k, p.isExtra k = false)
    (hkey : event.keycode.isOrdinary = true) : Calm (s.perform p (.handle event)).2 := by
  cases hdown : event.isDown with
  | true =>
    rw [(h.press_eq p event hdown).2]
    exact h.settle.pressOwn hp hkey
  | false =>
    cases release_cases s hp hkey hdown with
    | inl hcase =>
      rw [hcase.2.2]
      exact (h.stopPassing event.keycode).endKey
    | inr hcase =>
      rw [hcase.2.2]
      exact h.noteModifier hkey false

theorem scan (h : Calm s) : Calm (s.scan p now) := by
  by_cases hdue : ∃ e, s.waiting = some e ∧ s.timeout ≤ now.since e.time
  · obtain ⟨e, hw, hle⟩ := hdue
    exact h.decided.of_core (h.core_scan hw hle)
  · rw [h.scan_eq fun e hw hle => hdue ⟨e, hw, hle⟩]
    exact h

/-- Only a press that begins to wait leaves something waiting. -/
theorem waiting_pressOwn (h : Calm s) (hp : ∀ k, p.isExtra k = false)
    (hkey : event.keycode.isOrdinary = true) (hw : s.waiting = none) {e : Transition}
    (he : (s.pressOwn p event).2.waiting = some e) :
    e = event ∧ (s.pressOwn p event).2.last = e.keycode ∧
      (s.pressOwn p event).2.hasForms p e.keycode = true := by
  have hcore := h.core_pressOwn hp hkey
  have hnot : ∀ {t : Shifter}, core (s.pressOwn p event).2 = core t → t.waiting ≠ none := by
    intro t hc ht
    have hwaiting : (s.pressOwn p event).2.waiting = t.waiting := (congrArg Shifter.waiting hc :)
    rw [he, ht] at hwaiting
    cases hwaiting
  split at hcore
  · next hforms =>
    split at hcore
    · exact (hnot hcore hw).elim
    · split at hcore
      · exact (hnot hcore hw).elim
      · have hwaiting : (s.pressOwn p event).2.waiting = some event :=
          (congrArg Shifter.waiting hcore :)
        cases he.symm.trans hwaiting
        exact ⟨rfl, (congrArg Shifter.last hcore :),
          (congrArg (hasForms p event.keycode) hcore :).trans hforms⟩
  · exact (hnot hcore hw).elim

end Calm

end Shifter

end LongPress
