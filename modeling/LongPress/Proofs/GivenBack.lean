import LongPress.Proofs.Host

/-!
# LongPress.Proofs.GivenBack

Shift that was taken back is given back.

Shift is taken back when a key is sent, and given back when that key is let go.  A key that a scan
sends stays down in the meantime, and the release that ends it is recognised by the last key.  So
while shift is taken back, a key waits or the last key is down, unless the last key was forgotten
(`Recalls`); every operation keeps that (`Recalls.perform`).

* `shift_given_back` — when no key waits or is down, nothing is taken back, provided that the last
  key was not forgotten.

The press of a key without a shifted form forgets the last key, and with it that there is something
to give back (`shift_kept_after_escape`).
-/

namespace LongPress

/-- Whether an operation is the release of a dual role key. -/
def Operation.releasesDualRole : Operation → Bool
  | .handle event => !event.isDown && event.keycode.isDualRole
  | _ => false

/-- Basic keys are told apart by their bases. -/
theorem Keycode.base_inj {j k : Keycode} (hj : j ≤ Keycode.lastBasic) (hk : k ≤ Keycode.lastBasic)
    (h : j.base = k.base) : j = k := by
  have hmod : j.toNat % 256 = k.toNat % 256 := by simpa [Keycode.base] using congrArg UInt8.toNat h
  have hj' : j.toNat ≤ 254 := hj
  have hk' : k.toNat ≤ 254 := hk
  exact UInt16.toNat_inj.mp (by omega)

namespace Shifter

open Modifiers (bit)

variable {s t : Shifter} {event : Transition} {l : List Sending} {k : Keycode}

/-- Unless a keyboard says otherwise, a key with a shifted form and a single role is basic. -/
theorem le_lastBasic_of_hasForms (single : k.isDualRole = false)
    (forms : s.hasForms Policy.stock k = true) : k ≤ Keycode.lastBasic := by
  by_contra hgt
  simp [hasForms, formCode?, single, hgt, Policy.stock] at forms

/-! ## Taking back and giving back -/

theorem suppressed_restoreShift (s : Shifter) : s.restoreShift.suppressed = 0 := by
  unfold restoreShift
  dsimp only
  split
  · assumption
  · rfl

theorem suppressed_keyUp (p : Policy) (s : Shifter) (k : Keycode) :
    (s.keyUp p k).2.suppressed = s.suppressed := by
  unfold keyUp; dsimp only; split <;> rfl

theorem suppressed_typeText (text : List Char) (s : Shifter) :
    (s.typeText text).suppressed = s.suppressed := by
  unfold typeText
  induction text.filterMap keyOfChar? generalizing s with
  | nil => rfl
  | cons k ks ih => exact ih _

theorem suppressed_dropped (event : Transition) (h : s.suppressed = 0) :
    (s.dropped event).suppressed = 0 := by
  unfold dropped dropSuppressed
  split
  · simp [h]
  · split <;> simp [h]

/-! ## The last key -/

/-- The shifter knows for which key shift is taken back: the key waits, or it is the last key and
is down.  It cannot know once the last key was forgotten. -/
structure Recalls (s : Shifter) : Prop where
  basic : s.last ≤ Keycode.lastBasic
  waits : ∀ e, s.waiting = some e → s.last = e.keycode
  shift : s.suppressed = 0 ∨ s.waiting ≠ none ∨ s.last = Keycode.noKey ∨
    s.down.contains s.last.base = true

theorem recalls_initial (settings : Settings) : Recalls (initial settings) where
  basic := by simp [initial, Keycode.noKey, Keycode.lastBasic]
  waits := by simp [initial]
  shift := .inl rfl

namespace Recalls

/-- Nothing changes but that more may be down, and less taken back. -/
theorem congr (h : Recalls s) (waiting : t.waiting = s.waiting) (last : t.last = s.last)
    (suppressed : s.suppressed = 0 → t.suppressed = 0)
    (down : ∀ c, s.down.contains c = true → t.down.contains c = true) : Recalls t where
  basic := last ▸ h.basic
  waits := by rw [waiting, last]; exact h.waits
  shift := by
    rw [waiting, last]
    exact h.shift.imp suppressed (.imp_right (.imp_right (down _)))

/-- A decided key is let go and shift is given back, or the key stays down. -/
theorem decideKey (h : Recalls s) (hw : s.waiting = some event) (now : Tick) (byScan : Bool) :
    Recalls (s.decideKey Policy.stock event now byScan) := by
  have ha := agrees_decideKey Policy.stock event now byScan s
  have hnone : (s.decideKey Policy.stock event now byScan).waiting = none := ha.waiting
  have hlast : (s.decideKey Policy.stock event now byScan).last = s.last := ha.last
  refine ⟨hlast ▸ h.basic, by simp [hnone], ?_⟩
  rw [hlast, h.waits event hw, decideKey_eq]
  split
  · obtain ⟨hdown, -⟩ := sendDecided_eq (c := event.keycode.base) Policy.stock event now s
    have hcode : decide (event.keycode.base =
        (Policy.stock.stroke event.keycode (s.formAt event now)).code) = true :=
      decide_eq_true rfl
    rw [hcode, Bool.true_or] at hdown
    exact .inr (.inr (.inr hdown))
  · exact .inl (suppressed_restoreShift _)

theorem settle (h : Recalls s) (now : Tick) (byScan : Bool) :
    Recalls (s.settle Policy.stock now byScan) := by
  unfold Shifter.settle
  split
  · next hw => exact h.decideKey hw now byScan
  · exact h

/-- The last key gives shift back as it goes up; every other basic key has another code. -/
theorem letGo (h : Recalls s) (hk : k ≤ Keycode.lastBasic) (now : Tick) :
    Recalls (s.letGo Policy.stock k now).2 := by
  have ha := agrees_letGo Policy.stock k now s
  refine ⟨ha.last ▸ h.basic, by rw [ha.waiting, ha.last]; exact h.waits, ?_⟩
  rw [ha.waiting, ha.last]
  unfold Shifter.letGo
  dsimp only
  split
  · exact .inl (suppressed_restoreShift _)
  · next hne =>
    have hcode : s.last.base ≠ k.base := fun hbase => hne (Keycode.base_inj hk h.basic hbase.symm)
    rw [suppressed_keyUp]
    refine h.shift.imp_right (.imp_right (.imp_right fun hdown => ?_))
    simp [contains_keyUp, strokeToRelease, Policy.stock, hcode, hdown]

theorem endKey (h : Recalls s) (hk : k ≤ Keycode.lastBasic) (now : Tick) :
    Recalls (s.endKey Policy.stock k now).2 := by
  unfold Shifter.endKey
  split
  · next hw =>
    split
    · exact h.decideKey hw now false
    · exact h.letGo hk now
  · exact h.letGo hk now

theorem repeatLast (h : Recalls s) : Recalls (s.repeatLast Policy.stock) := by
  have ha := agrees_repeatLast Policy.stock s
  refine ⟨ha.last ▸ h.basic, by rw [ha.waiting, ha.last]; exact h.waits, ?_⟩
  have hdown : (s.repeatLast Policy.stock).down.contains s.last.base = true := by
    have hshift := (agrees_suppressShift s).last
    simp [Shifter.repeatLast, contains_keyDown, hshift, Policy.stock]
  rw [ha.last]
  exact .inr (.inr (.inr hdown))

/-! ## Operations -/

theorem control (h : Recalls s) (key : ControlKey) : Recalls (s.control key) := by
  have ha := agrees_control key s
  have hof : (s.suppressed = 0 → (s.control key).suppressed = 0) → Recalls (s.control key) :=
    fun hs => h.congr ha.waiting ha.last hs fun c hc => by rwa [down_control]
  cases key with
  | shorter => exact hof id
  | longer => exact hof id
  | report => exact hof fun hzero => (suppressed_typeText _ s).trans hzero
  | on => exact hof fun _ => suppressed_restoreShift _
  | off => exact hof fun _ => suppressed_restoreShift _
  | toggle =>
    refine hof fun _ => ?_
    show s.toggle.suppressed = 0
    unfold toggle
    split <;> exact suppressed_restoreShift _

theorem pressed (h : Recalls s) {r : Bool × Shifter} (o : PressOutcome Policy.stock event s l r)
    (hw : s.waiting = none) : Recalls r.2 := by
  have hforgotten : Recalls (s.forgotten event) :=
    ⟨by simp [forgotten, Keycode.noKey, Keycode.lastBasic],
      by simp [forgotten, noteModifier, hw], .inr (.inr (.inl rfl))⟩
  cases o with
  | leaves => exact h
  | repeatsDual => exact h.repeatLast
  | tracks => exact h.congr rfl rfl id fun _ => id
  | ignores => exact hforgotten
  | passes => exact h.congr rfl rfl id fun _ => id
  | bypasses =>
    have ha := agrees_keyDown Policy.stock (s.forgotten event) event.keycode false
    exact ⟨ha.last ▸ hforgotten.basic, by rw [ha.waiting, ha.last]; exact hforgotten.waits,
      .inr (.inr (.inl (ha.last.trans rfl)))⟩
  | repeats =>
    have hnoted : Recalls (s.noteModifier event.keycode true) := h.congr rfl rfl id fun _ => id
    exact hnoted.repeatLast
  | begins single forms =>
    have ha := agrees_begin event (s.noteModifier event.keycode true)
    have hlast := ha.last
    have hwaiting := ha.waiting
    exact ⟨hlast ▸ le_lastBasic_of_hasForms single forms, by simp [hlast, hwaiting],
      .inr (.inl (by simp [hwaiting]))⟩

theorem handlePress (h : Recalls s) (hfree : NoDualRole s) (hdown : event.isDown = true) :
    Recalls (s.handle Policy.stock event).2 := by
  have hsettled := h.settle event.time false
  have hw := (agrees_settle Policy.stock event.time false s).waiting
  rw [handle_press Policy.stock hfree.tracked hdown]
  cases hcontrol : event.keycode.isControl with
  | true =>
    obtain ⟨key, hkey, -⟩ :=
      pressOwn_control Policy.stock (s.settle Policy.stock event.time false) hcontrol
    rw [hkey]
    exact hsettled.control key
  | false => exact hsettled.pressed (pressOutcome Policy.stock _ hcontrol) hw

theorem released (h : Recalls s) {r : Bool × Shifter}
    (o : ReleaseOutcome Policy.stock event s l r) (single : event.keycode.isDualRole = false) :
    Recalls r.2 := by
  have hdropped : Recalls ((s.dropped event).noteModifier event.keycode false) :=
    h.congr rfl rfl (suppressed_dropped event) fun _ => id
  cases o with
  | tapped dual => simp [single] at dual
  | held dual => simp [single] at dual
  | endsDual dual => simp [single] at dual
  | ends _ forms =>
    have hunpassed : Recalls (s.unpassed event) := hdropped.congr rfl rfl id fun _ => id
    exact hunpassed.endKey (le_lastBasic_of_hasForms single forms) event.time
  | ignores => exact hdropped

theorem perform (h : Recalls s) (hfree : NoDualRole s) {op : Operation}
    (hop : op.releasesDualRole = false) : Recalls (s.perform Policy.stock op).2 := by
  cases op with
  | handle event =>
    cases hdown : event.isDown with
    | true => exact h.handlePress hfree hdown
    | false =>
      have single : event.keycode.isDualRole = false := by
        simpa [Operation.releasesDualRole, hdown] using hop
      rw [Shifter.perform, handle_release Policy.stock s hdown]
      cases hcontrol : event.keycode.isControl with
      | true => rwa [(handleRelease_control Policy.stock s hcontrol).1]
      | false => exact h.released (releaseOutcome Policy.stock s hcontrol) single
  | scan now =>
    rw [Shifter.perform, scan_of_tracked Policy.stock now hfree.tracked]
    cases scanWaiting_cases Policy.stock now s with
    | inl hcase => rwa [hcase.1]
    | inr hcase =>
      obtain ⟨e, hw, hscan, -⟩ := hcase
      rw [hscan]
      exact h.decideKey hw now true
  | verdict keycode v pressTime switch now =>
    rwa [Shifter.perform,
      verdict_of_tracked Policy.stock keycode v pressTime switch now hfree.tracked]
  | enable => exact h.control .on
  | disable => exact h.control .off
  | toggle => exact h.control .toggle
  | _ => exact h.congr rfl rfl id fun _ => id

theorem run (h : Recalls s) (hfree : NoDualRole s) {history : List Operation}
    (hdual : ∀ op ∈ history, op.releasesDualRole = false)
    (hoff : NeverTracks Policy.stock s history) : Recalls (s.run Policy.stock history) := by
  induction history generalizing s with
  | nil => exact h
  | cons op rest ih =>
    exact ih (h.perform hfree (hdual op List.mem_cons_self)) (hfree.perform hoff.head op)
      (fun op' hmem => hdual op' (List.mem_cons_of_mem op hmem)) hoff.tail

end Recalls

/-! ## At rest -/

/-- **Shift is given back.**  In a history that does not set the modifiers, lets no dual role key
go and never tracks one, when no key waits, no code is down and the last key is known:

* nothing is taken back;
* the modifiers are those whose keys are down;
* the host takes just these for held. -/
theorem shift_given_back (settings : Settings) (history : List Operation)
    (hset : ∀ bits, .setModifiers bits ∉ history)
    (hdual : ∀ op ∈ history, op.releasesDualRole = false)
    (hoff : NeverTracks Policy.stock (initial settings) history)
    (hwaiting : ((initial settings).run Policy.stock history).waiting = none)
    (hdown : ((initial settings).run Policy.stock history).down = ∅)
    (hlast : ((initial settings).run Policy.stock history).last ≠ Keycode.noKey) :
    ((initial settings).run Policy.stock history).suppressed = 0 ∧
      (∀ i : Fin 8, bit ((initial settings).run Policy.stock history).modifiers i =
        isHeld (Keycode.firstModifier + UInt16.ofNat i.val) history) ∧
      hostModifiers ((initial settings).relayedAll Policy.stock history) =
        ((initial settings).run Policy.stock history).modifiers := by
  have hfree := noDualRole_initial settings
  have hrecalls := (recalls_initial settings).run hfree hdual hoff
  have hzero : ((initial settings).run Policy.stock history).suppressed = 0 := by
    simpa [hwaiting, hdown, hlast] using hrecalls.shift
  refine ⟨hzero, fun i => ?_, host_run hfree (fun _ => rfl) hset hoff⟩
  rw [← bit_claimed_run hset hoff i, claimed, hzero, UInt8.or_zero]

/-- A letter is held with shift until a scan sends it, and let go. -/
def heldCapital : List Operation :=
  [.handle (.press 0xe1 0 0 0), .handle (.press 4 0 1 10), .scan 200, .handle (.release 4 0 1 220)]

/-- Shift is taken back for the letter, and given back as it goes up. -/
theorem shift_given_back_of_heldCapital :
    ((initial {}).run Policy.stock (heldCapital.take 3)).suppressed = Keycode.leftShiftBit ∧
      ((initial {}).run Policy.stock heldCapital).suppressed = 0 ∧
      hostModifiers ((initial {}).relayedAll Policy.stock heldCapital) = Keycode.leftShiftBit := by
  obtain ⟨hzero, -, hhost⟩ := shift_given_back {} heldCapital (by simp [heldCapital]) (by decide)
    (.of_inits (by decide)) (by decide) (by decide) (by decide)
  exact ⟨by decide, hzero, hhost.trans (by decide)⟩

/-- Escape, which has no shifted form, is tapped while a letter is held with shift. -/
def heldCapitalThenEscape : List Operation :=
  [.handle (.press 0xe1 0 0 0), .handle (.press 4 0 1 10), .scan 200,
    .handle (.press 0x29 0 2 300), .handle (.release 0x29 0 2 310), .handle (.release 4 0 1 320)]

/-- Escape makes the shifter forget the letter, and shift stays taken back when every key but the
shift key is up. -/
theorem shift_kept_after_escape :
    NeverTracks Policy.stock (initial {}) heldCapitalThenEscape ∧
      ((initial {}).run Policy.stock heldCapitalThenEscape).waiting = none ∧
      ((initial {}).run Policy.stock heldCapitalThenEscape).down = ∅ ∧
      isShiftHeld heldCapitalThenEscape = true ∧
      ((initial {}).run Policy.stock heldCapitalThenEscape).suppressed = Keycode.leftShiftBit ∧
      hostModifiers ((initial {}).relayedAll Policy.stock heldCapitalThenEscape) = 0 :=
  ⟨.of_inits (by decide), by decide, by decide, by decide, by decide, by decide⟩

end Shifter

end LongPress
