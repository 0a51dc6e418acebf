import LongPress.Proofs.Modifiers

/-!
# LongPress.Proofs.Telling

What the host learns of the modifiers.

The host learns of modifiers from two kinds of messages: transitions of modifier keys that are
forwarded, and reports that take shift back or give it back.  `hear` is what one message does to the
modifiers that the host takes for held.

`Tells s t` says that what is reported from `s` to `t` carries all that happens to the modifiers in
between, and that the host holds no shift whenever a key goes down.  Every part of an operation
tells, but for three things: the move of a modifier key itself, the key of a press that is sent at
once, and the text of the timeout.
-/

namespace LongPress

/-! ## What a message does to the modifiers -/

namespace Modifiers

/-- The modifiers once a modifier key has moved.  Other keys change nothing. -/
def move (m : Modifiers) (event : Transition) : Modifiers :=
  if event.isDown then m ||| event.keycode.modifierBit else m &&& ~~~event.keycode.modifierBit

/-- The modifiers that count as held after a message. -/
def hear (m : Modifiers) : Report → Modifiers
  | .modifiers bits true => m ||| bits
  | .modifiers bits false => m &&& ~~~bits
  | .forward event => move m event
  | _ => m

/-- The modifiers once an operation has moved a key. -/
def after (m : Modifiers) : Operation → Modifiers
  | .handle event => move m event
  | _ => m

theorem move_of_modifierBit {event : Transition} (h : event.keycode.modifierBit = 0)
    (m : Modifiers) : move m event = m := by
  unfold move
  rw [h]
  refine eq_of_bit fun i => ?_
  split
  · simp
  · rw [bit_and_not]
    simp

end Modifiers

/-- The modifiers that the host takes for held after a list of messages. -/
def hostModifiers (messages : List Report) : Modifiers := messages.foldl Modifiers.hear 0

/-- The host, which holds `m` at first, holds no shift whenever a key goes down. -/
def Unshifted : Modifiers → List Report → Prop
  | _, [] => True
  | m, r :: rs =>
    (r.down?.isSome = true → m &&& Keycode.shiftBits = 0) ∧ Unshifted (Modifiers.hear m r) rs

theorem unshifted_append (m : Modifiers) (rs us : List Report) :
    Unshifted m (rs ++ us) ↔ Unshifted m rs ∧ Unshifted (rs.foldl Modifiers.hear m) us := by
  induction rs generalizing m with
  | nil => exact ⟨fun h => ⟨trivial, h⟩, fun h => h.2⟩
  | cons r rs ih => rw [List.cons_append, Unshifted, Unshifted, ih, and_assoc, List.foldl_cons]

/-- What the host holds at the report of a key that goes down. -/
theorem Unshifted.at_down {m : Modifiers} {rs us : List Report} {stroke : Stroke}
    (h : Unshifted m (rs ++ .key stroke true :: us)) :
    rs.foldl Modifiers.hear m &&& Keycode.shiftBits = 0 := by
  obtain ⟨-, hdown, -⟩ := (unshifted_append m rs _).mp h
  exact hdown rfl

theorem Unshifted.dropLast {m : Modifiers} {rs : List Report} (h : Unshifted m rs) :
    Unshifted m rs.dropLast := by
  cases hrs : rs.getLast? with
  | none => rwa [List.getLast?_eq_none_iff.mp hrs] at h ⊢
  | some r =>
    obtain ⟨us, rfl⟩ := List.getLast?_eq_some_iff.mp hrs
    rw [List.dropLast_concat]
    exact ((unshifted_append m us [r]).mp h).1

namespace Shifter

open Modifiers (bit)

variable {p : Policy} {s t u : Shifter}

/-! ## Telling the host -/

/-- From `s` to `t` the host is told of all that happens to the modifiers, and holds no shift when a
key goes down. -/
def Tells (s t : Shifter) : Prop :=
  ∃ rs, t.outbox = s.outbox ++ rs ∧ rs.foldl Modifiers.hear s.modifiers = t.modifiers ∧
    Unshifted s.modifiers rs

/-- Nothing is reported and the modifiers stay. -/
theorem Tells.quiet (outbox : t.outbox = s.outbox) (modifiers : t.modifiers = s.modifiers) :
    Tells s t :=
  ⟨[], by rw [outbox, List.append_nil], modifiers.symm, trivial⟩

theorem Tells.refl : Tells s s := .quiet rfl rfl

theorem Tells.trans (h : Tells s t) (h' : Tells t u) : Tells s u := by
  obtain ⟨rs, hrs, hhost, hclean⟩ := h
  obtain ⟨us, hus, hhost', hclean'⟩ := h'
  refine ⟨rs ++ us, by rw [hus, hrs, List.append_assoc], ?_, ?_⟩
  · rw [List.foldl_append, hhost, hhost']
  · rw [unshifted_append, hhost]
    exact ⟨hclean, hclean'⟩

/-- Something is reported that puts no key down and has nothing to do with the modifiers. -/
theorem Tells.say (s : Shifter) {r : Report} (hdown : r.down?.isSome = false)
    (hhear : ∀ m, Modifiers.hear m r = m) : Tells s (s.emit r) :=
  ⟨[r], rfl, hhear s.modifiers, fun hsome => by simp [hdown] at hsome, trivial⟩

/-- With the shift keys taken back no shift is held. -/
theorem shiftless_suppressShift (s : Shifter) :
    s.suppressShift.modifiers &&& Keycode.shiftBits = 0 := by
  unfold suppressShift
  dsimp only
  split
  · next hzero => exact hzero
  · refine Modifiers.eq_of_bit fun i => ?_
    rw [emit, Modifiers.bit_and, Modifiers.bit_and_not, Modifiers.bit_and, Modifiers.bit_zero]
    cases bit s.modifiers i <;> cases bit Keycode.shiftBits i <;> rfl

theorem tells_suppressShift (s : Shifter) : Tells s s.suppressShift := by
  unfold suppressShift
  dsimp only
  split
  · exact .refl
  · exact ⟨[.modifiers (s.modifiers &&& Keycode.shiftBits) false], rfl, rfl, nofun, trivial⟩

theorem tells_restoreShift (s : Shifter) : Tells s s.restoreShift := by
  unfold restoreShift
  dsimp only
  split
  · exact .refl
  · exact ⟨[.modifiers s.suppressed true], rfl, rfl, nofun, trivial⟩

theorem modifiers_keyDown (p : Policy) (s : Shifter) (k : Keycode) (f : Bool) :
    (s.keyDown p k f).modifiers = s.modifiers := by
  unfold keyDown; dsimp only; split <;> rfl

theorem modifiers_keyUp (p : Policy) (s : Shifter) (k : Keycode) :
    (s.keyUp p k).2.modifiers = s.modifiers := by
  unfold keyUp; dsimp only; split <;> rfl

/-- The reports of a key that goes down: it may have to go up first. -/
theorem outbox_keyDown (p : Policy) (s : Shifter) (k : Keycode) (f : Bool) :
    ∃ ups, (s.keyDown p k f).outbox = s.outbox ++ ups ++ [.key (p.stroke k f) true] ∧
      Unshifted s.modifiers ups ∧ ups.foldl Modifiers.hear s.modifiers = s.modifiers := by
  rw [keyDown_outbox]
  refine ⟨_, rfl, ?_⟩
  split
  · exact ⟨⟨nofun, trivial⟩, rfl⟩
  · exact ⟨trivial, rfl⟩

theorem tells_keyDown (p : Policy) (k : Keycode) (f : Bool)
    (h : s.modifiers &&& Keycode.shiftBits = 0) : Tells s (s.keyDown p k f) := by
  obtain ⟨ups, houtbox, hclean, hhost⟩ := outbox_keyDown p s k f
  rw [List.append_assoc] at houtbox
  refine ⟨_, houtbox, ?_, (unshifted_append _ _ _).mpr ⟨hclean, ?_⟩⟩
  · rw [List.foldl_append, hhost, modifiers_keyDown]
    rfl
  · rw [hhost]
    exact ⟨fun _ => h, trivial⟩

theorem tells_keyUp (p : Policy) (s : Shifter) (k : Keycode) : Tells s (s.keyUp p k).2 := by
  refine ⟨_, keyUp_outbox p s k, ?_⟩
  rw [modifiers_keyUp]
  split
  · exact ⟨rfl, nofun, trivial⟩
  · exact ⟨rfl, trivial⟩

theorem tells_pause (s : Shifter) : Tells s s.pause := by
  unfold pause
  split
  · exact .refl
  · exact .say s rfl fun _ => rfl

/-! ### Decisions -/

theorem tells_sendDecided (p : Policy) (event : Transition) (now : Tick) (s : Shifter) :
    Tells s (s.sendDecided p event now) := by
  let noted : Shifter := { s with waiting := none, lastShifted := s.formAt event now }
  have hnoted : Tells s noted := .quiet rfl rfl
  exact (hnoted.trans (tells_suppressShift noted)).trans
    (tells_keyDown p event.keycode _ (shiftless_suppressShift noted))

theorem tells_decideKey (p : Policy) (event : Transition) (now : Tick) (byScan : Bool)
    (s : Shifter) : Tells s (s.decideKey p event now byScan) := by
  have hsent := tells_sendDecided p event now s
  rw [decideKey_eq]
  split
  · exact hsent.trans (.quiet rfl rfl)
  · have hup := (hsent.trans (tells_pause _)).trans (tells_keyUp p _ event.keycode)
    exact (hup.trans (tells_restoreShift _)).trans (.quiet rfl rfl)

theorem tells_settle (p : Policy) (now : Tick) (byScan : Bool) (s : Shifter) :
    Tells s (s.settle p now byScan) := by
  unfold settle
  split
  · exact tells_decideKey p _ now byScan s
  · exact .refl

theorem tells_letGo (p : Policy) (k : Keycode) (now : Tick) (s : Shifter) :
    Tells s (s.letGo p k now).2 := by
  have hup := tells_keyUp p s k
  unfold letGo
  dsimp only
  split
  · exact (hup.trans (tells_restoreShift _)).trans (.quiet rfl rfl)
  · exact hup.trans (.quiet rfl rfl)

theorem tells_endKey (p : Policy) (k : Keycode) (now : Tick) (s : Shifter) :
    Tells s (s.endKey p k now).2 := by
  unfold endKey
  split
  · split
    · exact tells_decideKey p _ now false s
    · exact tells_letGo p k now s
  · exact tells_letGo p k now s

theorem tells_begin (event : Transition) (s : Shifter) : Tells s (s.begin event) := by
  let noted : Shifter :=
    { s with lastShifted := s.hasShift, oneShot := s.oneShot &&& ~~~Keycode.shiftBits }
  have hnoted : Tells s noted := .quiet rfl rfl
  have hsaid : Tells s (noted.emit (.clearOneShot Keycode.shiftBits)) :=
    hnoted.trans (.say noted rfl fun _ => rfl)
  unfold begin
  dsimp only
  split
  · exact hnoted.trans (.quiet rfl rfl)
  · exact hsaid.trans (.quiet rfl rfl)

theorem tells_repeatLast (p : Policy) (s : Shifter) : Tells s (s.repeatLast p) :=
  (tells_suppressShift s).trans (tells_keyDown p _ _ (shiftless_suppressShift s))

theorem tells_scan (p : Policy) (now : Tick) (s : Shifter) : Tells s (s.scan p now) := by
  have hwaiting : Tells s (s.scanWaiting p now) := by
    unfold scanWaiting
    split
    · split
      · exact tells_decideKey p _ now true s
      · exact .refl
    · exact .refl
  unfold scan
  cases scanTracked_cases now (s.scanWaiting p now) with
  | inl hscan => rwa [hscan]
  | inr hcase =>
    obtain ⟨e, -, hscan⟩ := hcase
    rw [hscan]
    have hstopped : Tells (s.scanWaiting p now) (s.scanWaiting p now).stopTracking := .quiet rfl rfl
    exact (hwaiting.trans hstopped).trans (.say _ rfl fun _ => rfl)

/-! ### Control keys -/

theorem tells_turned (on : Bool) (s : Shifter) :
    Tells s { s with isEnabled := on }.restoreShift := by
  have hset : Tells s { s with isEnabled := on } := .quiet rfl rfl
  exact hset.trans (tells_restoreShift _)

theorem tells_toggle (s : Shifter) : Tells s s.toggle := by
  unfold toggle
  split
  · exact tells_turned false s
  · exact tells_turned true s

/-- Typing the timeout puts keys down whatever is held, and leaves the modifiers alone. -/
theorem outbox_typeText (text : List Char) (s : Shifter) :
    ∃ rs, (s.typeText text).outbox = s.outbox ++ rs ∧
      rs.foldl Modifiers.hear s.modifiers = (s.typeText text).modifiers := by
  unfold typeText
  induction text.filterMap keyOfChar? generalizing s with
  | nil => exact ⟨[], (List.append_nil _).symm, rfl⟩
  | cons k ks ih =>
    obtain ⟨rs, hrs, hhost⟩ :=
      ih ((s.emit (.key ⟨k.base, false⟩ true)).emit (.key ⟨k.base, false⟩ false))
    refine ⟨.key ⟨k.base, false⟩ true :: .key ⟨k.base, false⟩ false :: rs, ?_, ?_⟩
    · rw [List.foldl_cons, hrs]
      simp [emit]
    · exact hhost

/-- A control key tells the host of the modifiers; all but one of them type nothing. -/
theorem outbox_control (key : ControlKey) (s : Shifter) :
    ∃ rs, (s.control key).outbox = s.outbox ++ rs ∧
      rs.foldl Modifiers.hear s.modifiers = (s.control key).modifiers ∧
      (key ≠ .report → Unshifted s.modifiers rs) := by
  have hof : ∀ {t : Shifter}, Tells s t → ∃ rs, t.outbox = s.outbox ++ rs ∧
      rs.foldl Modifiers.hear s.modifiers = t.modifiers ∧
      (key ≠ .report → Unshifted s.modifiers rs) := by
    rintro t ⟨rs, hrs, hhost, hclean⟩
    exact ⟨rs, hrs, hhost, fun _ => hclean⟩
  cases key with
  | shorter => exact hof (.quiet rfl rfl)
  | longer => exact hof (.quiet rfl rfl)
  | report =>
    obtain ⟨rs, hrs, hhost⟩ := outbox_typeText s.timeoutText s
    exact ⟨rs, hrs, hhost, fun hne => absurd rfl hne⟩
  | on => exact hof (tells_turned true s)
  | off => exact hof (tells_turned false s)
  | toggle => exact hof (tells_toggle s)

end Shifter

end LongPress
