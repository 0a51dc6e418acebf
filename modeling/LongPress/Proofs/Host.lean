import LongPress.Proofs.SingleRole
import LongPress.Proofs.Telling

/-!
# LongPress.Proofs.Host

The host and the shifter agree on the modifiers.

`relayed` lists the messages that an operation sends to the host, in their order.  While dual role
keys are not tracked, three things hold after every history:

* the modifiers that count as held are those of the keys that are down, taken back or not
  (`claimed_perform`);
* the host takes for held what the shifter has in `modifiers` (`Relays.host`);
* the host holds no shift when a key goes down, unless a modifier other than shift has the key sent
  at once (`Relays.unshifted`).

The main statement puts them together:

* `modifiers_accounted` — for every history that leaves the modifiers alone.
-/

namespace LongPress

namespace Keycode

open Modifiers (bit)

/-- The bit of a modifier key is that of its place among the modifier keys. -/
theorem bit_modifierBit (k : Keycode) (i : Fin 8) :
    bit k.modifierBit i = decide (k = firstModifier + UInt16.ofNat i.val) := by
  cases hmod : k.isModifier with
  | true =>
    obtain ⟨j, rfl⟩ := eq_of_isModifier hmod
    have hall : ∀ j i : Fin 8, bit (firstModifier + UInt16.ofNat j.val).modifierBit i =
        decide (firstModifier + UInt16.ofNat j.val = firstModifier + UInt16.ofNat i.val) := by
      decide
    exact hall j i
  | false =>
    have hall : ∀ i : Fin 8, (firstModifier + UInt16.ofNat i.val).isModifier = true := by decide
    have hne : k ≠ firstModifier + UInt16.ofNat i.val := by
      rintro rfl
      simp [hall] at hmod
    rw [modifierBit, hmod, decide_eq_false hne]
    exact Modifiers.bit_zero i

end Keycode

namespace Modifiers

/-- The move of a modifier key sets its bit. -/
theorem bit_move (m : Modifiers) (event : Transition) (i : Fin 8) :
    bit (move m event) i =
      if event.keycode = Keycode.firstModifier + UInt16.ofNat i.val then event.isDown
      else bit m i := by
  unfold move
  split
  · next hdown =>
    rw [bit_or, Keycode.bit_modifierBit, hdown]
    split <;> simp [*]
  · next hup =>
    rw [bit_and_not, Keycode.bit_modifierBit, Bool.eq_false_iff.mpr hup]
    split <;> simp [*]

theorem bit_foldl_after (m : Modifiers) (history : List Operation) (i : Fin 8) :
    bit (history.foldl after m) i =
      (movesOf (Keycode.firstModifier + UInt16.ofNat i.val) history).getLastD (bit m i) := by
  induction history generalizing m with
  | nil => rfl
  | cons op rest ih =>
    rw [List.foldl_cons, ih, movesOf_cons]
    cases op with
    | handle event =>
      rw [after, bit_move, Operation.moveOf?]
      split
      · rw [Option.toList_some, List.singleton_append, List.getLastD_cons]
      · rfl
    | _ => rfl

end Modifiers

namespace Shifter

open Modifiers (bit)

/-! ## Messages -/

/-- The transition that an operation forwards. -/
def forwarded? (p : Policy) (s : Shifter) (op : Operation) : Option Transition :=
  match op, (s.perform p op).1 with
  | .handle event, .usual true => some event
  | _, _ => none

/-- All that the host gets of an operation: the reports, and after them the transition if it is
forwarded. -/
def relayed (p : Policy) (s : Shifter) (op : Operation) : List Report :=
  s.reported p op ++ (s.forwarded? p op).toList.map .forward

/-- All that the host gets of a history. -/
def relayedAll (p : Policy) : Shifter → List Operation → List Report
  | _, [] => []
  | s, op :: rest => s.relayed p op ++ relayedAll p (s.perform p op).2 rest

/-- Whether an operation is a press that is sent at once, for the sake of a modifier other than
shift.  Its own key goes down in its last report. -/
def sendsAtOnce (p : Policy) (s : Shifter) : Operation → Bool
  | .handle event =>
    let s := s.clearedFor p event
    event.isDown && !event.keycode.isControl && !event.keycode.isDualRole &&
      s.hasForms p event.keycode && s.isEnabled && (s.noteModifier event.keycode true).bypasses
  | _ => false

variable {p : Policy} {s t : Shifter} {event : Transition}

/-! ## The modifiers that count as held -/

/-- Only shift is taken back. -/
def TakesShiftOnly (s : Shifter) : Prop :=
  ∀ i, bit s.suppressed i = true → bit Keycode.shiftBits i = true

theorem takesShiftOnly_initial (settings : Settings) : TakesShiftOnly (initial settings) := by
  intro i hi
  simp [initial] at hi

theorem bit_suppressed_dropped (h : TakesShiftOnly s) (i : Nat) :
    bit (s.dropped event).suppressed i =
      (bit s.suppressed i && !bit event.keycode.modifierBit i) := by
  rw [Bool.eq_iff_iff, Bool.and_eq_true, Bool.not_eq_true']
  constructor
  · intro hi
    obtain ⟨hold, hnot⟩ := bit_dropped hi
    exact ⟨hold, hnot (h i hold)⟩
  · rintro ⟨hold, hnot⟩
    unfold dropped dropSuppressed
    split
    · next hkey =>
      rw [hkey] at hnot
      rw [Modifiers.bit_and_not, hold, Bool.true_and, Bool.not_eq_true']
      exact hnot
    · split
      · next hkey =>
        rw [hkey] at hnot
        rw [Modifiers.bit_and_not, hold, Bool.true_and, Bool.not_eq_true']
        exact hnot
      · exact hold

/-- A modifier key that goes up is counted no more, taken back or not. -/
theorem claimed_released (h : TakesShiftOnly s) (hup : event.isDown = false) :
    ((s.dropped event).noteModifier event.keycode false).claimed =
      Modifiers.move s.claimed event := by
  refine Modifiers.eq_of_bit fun i => ?_
  have hdropped : bit (s.dropped event).suppressed i =
      (bit s.suppressed i && !bit event.keycode.modifierBit i) := bit_suppressed_dropped h i
  rw [Modifiers.move, if_neg (by simp [hup]), Modifiers.bit_and_not, claimed, claimed,
    Modifiers.bit_or, Modifiers.bit_or]
  show (bit (s.modifiers &&& ~~~event.keycode.modifierBit) i ||
    bit (s.dropped event).suppressed i) = _
  rw [Modifiers.bit_and_not, hdropped, Bool.and_or_distrib_right]

theorem claimed_pressed (s : Shifter) (hdown : event.isDown = true) :
    (s.noteModifier event.keycode true).claimed = Modifiers.move s.claimed event := by
  refine Modifiers.eq_of_bit fun i => ?_
  rw [Modifiers.move, if_pos hdown]
  simp only [claimed, noteModifier, if_true, Modifiers.bit_or]
  exact Bool.or_right_comm _ _ _

theorem PressOutcome.steady {l : List Sending} {r : Bool × Shifter}
    (o : PressOutcome p event s l r) : Steady (s.noteModifier event.keycode true) r.2 := by
  have hdual : event.keycode.isDualRole = true → s.noteModifier event.keycode true = s :=
    fun dual => noteModifier_of_modifierBit (Keycode.modifierBit_of_isDualRole dual) true s
  cases o with
  | leaves dual =>
    rw [hdual dual]
    exact .refl
  | repeatsDual dual =>
    rw [hdual dual]
    exact steady_repeatLast p s
  | tracks dual =>
    rw [hdual dual]
    exact .of_eq rfl rfl
  | ignores => exact .of_eq rfl rfl
  | passes => exact .of_eq rfl rfl
  | bypasses =>
    have hforgotten : Steady (s.noteModifier event.keycode true) (s.forgotten event) :=
      .of_eq rfl rfl
    exact hforgotten.trans (steady_keyDown p event.keycode false _)
  | repeats => exact steady_repeatLast p _
  | begins => exact steady_begin event _

/-- Whether a release ends the hold of a dual role key that an interruption holds. -/
def endsHold (event : Transition) (s : Shifter) : Bool :=
  event.keycode.isDualRole && !s.tapped.contains event.keycode.base &&
    s.held.contains event.keycode.base

theorem ReleaseOutcome.steady {l : List Sending} {r : Bool × Shifter}
    (o : ReleaseOutcome p event s l r) (hnot : s.endsHold event = false) :
    Steady ((s.dropped event).noteModifier event.keycode false) r.2 := by
  cases o with
  | tapped dual =>
    rw [noteModifier_of_modifierBit (Keycode.modifierBit_of_isDualRole dual)]
    exact .of_eq rfl rfl
  | held dual tapped held => simp [endsHold, dual, tapped, held] at hnot
  | endsDual dual =>
    rw [noteModifier_of_modifierBit (Keycode.modifierBit_of_isDualRole dual)]
    have huntracked : Steady (s.dropped event) ((s.dropped event).untracked event) := by
      rw [untracked_eq]
      exact .of_eq rfl rfl
    exact huntracked.trans (steady_endKey p event.keycode event.time _)
  | ends =>
    have hunpassed : Steady ((s.dropped event).noteModifier event.keycode false)
        (s.unpassed event) := .of_eq rfl rfl
    exact hunpassed.trans (steady_endKey p event.keycode event.time _)
  | ignores => exact .refl

/-- The modifiers that count as held change as the modifier keys move. -/
theorem claimed_handle (h : NoDualRole s) (hshift : TakesShiftOnly s) (event : Transition) :
    (s.handle p event).2.claimed = Modifiers.move s.claimed event ∧
      TakesShiftOnly (s.handle p event).2 := by
  have hsettled := steady_settle p event.time false s
  cases hdown : event.isDown with
  | true =>
    rw [handle_press p h.tracked hdown]
    cases hcontrol : event.keycode.isControl with
    | true =>
      obtain ⟨key, hkey, -⟩ := pressOwn_control p (s.settle p event.time false) hcontrol
      have hall := hsettled.trans (steady_control key _)
      rw [hkey, Modifiers.move_of_modifierBit (Keycode.modifierBit_of_isControl hcontrol)]
      exact ⟨hall.claimed, hall.shift hshift⟩
    | false =>
      have hown := (pressOutcome p (s.settle p event.time false) hcontrol).steady
      refine ⟨?_, hown.shift (hsettled.shift hshift)⟩
      rw [hown.claimed, claimed_pressed _ hdown, hsettled.claimed]
  | false =>
    rw [handle_release p s hdown]
    cases hcontrol : event.keycode.isControl with
    | true =>
      rw [(handleRelease_control p s hcontrol).1,
        Modifiers.move_of_modifierBit (Keycode.modifierBit_of_isControl hcontrol)]
      exact ⟨rfl, hshift⟩
    | false =>
      have hown := (releaseOutcome p s hcontrol).steady (by simp [endsHold, h.held])
      refine ⟨?_, hown.shift fun i hi => hshift i (bit_dropped hi).1⟩
      rw [hown.claimed, claimed_released hshift hdown]

/-- Every operation but the setting of modifiers. -/
theorem claimed_perform (h : NoDualRole s) (hshift : TakesShiftOnly s) {op : Operation}
    (hset : ∀ bits, op ≠ .setModifiers bits) :
    (s.perform p op).2.claimed = Modifiers.after s.claimed op ∧
      TakesShiftOnly (s.perform p op).2 := by
  have hof : ∀ {t : Shifter}, Steady s t → t.claimed = s.claimed ∧ TakesShiftOnly t :=
    fun hs => ⟨hs.claimed, hs.shift hshift⟩
  cases op with
  | handle event => exact claimed_handle h hshift event
  | scan now =>
    rw [perform, scan_of_tracked p now h.tracked]
    cases scanWaiting_cases p now s with
    | inl hcase =>
      rw [hcase.1]
      exact ⟨rfl, hshift⟩
    | inr hcase =>
      obtain ⟨e, -, hscan, -⟩ := hcase
      rw [hscan]
      exact hof (steady_decideKey p e now true s)
  | verdict keycode v pressTime switch now =>
    rw [perform, verdict_of_tracked p keycode v pressTime switch now h.tracked]
    exact ⟨rfl, hshift⟩
  | setModifiers bits => exact absurd rfl (hset bits)
  | enable => exact hof (steady_control .on s)
  | disable => exact hof (steady_control .off s)
  | toggle => exact hof (steady_control .toggle s)
  | _ => exact hof (.of_eq rfl rfl)

/-! ## What an operation relays -/

/-- The host learns of all that an operation does to the modifiers, and holds no shift when a key
goes down; the key of a press that is sent at once is not looked at. -/
structure Relays (p : Policy) (s : Shifter) (op : Operation) : Prop where
  host : (s.relayed p op).foldl Modifiers.hear s.modifiers = (s.perform p op).2.modifiers
  unshifted : op.typesTimeout = false → Unshifted s.modifiers
    (if s.sendsAtOnce p op then (s.reported p op).dropLast else s.reported p op)

/-- What follows an answer: the transition, if it goes on. -/
def sentOn (event : Transition) (goesOn : Bool) : List Report :=
  if goesOn then [.forward event] else []

theorem forwarded?_handle (p : Policy) (s : Shifter) (event : Transition) :
    (s.forwarded? p (.handle event)).toList.map Report.forward =
      sentOn event (s.handle p event).1 := by
  unfold forwarded? sentOn
  simp only [perform]
  cases (s.handle p event).1 <;> rfl

theorem reported_eq {op : Operation} {rs : List Report}
    (h : (s.perform p op).2.outbox = s.outbox ++ rs) : s.reported p op = rs := by
  rw [reported, h, List.drop_left]

/-- An operation that answers nothing and tells the host everything. -/
theorem Relays.of_tells {op : Operation} (h : Tells s (s.perform p op).2)
    (hforward : s.forwarded? p op = none) : Relays p s op := by
  obtain ⟨rs, hrs, hhost, hclean⟩ := h
  refine ⟨?_, fun _ => ?_⟩
  · rw [relayed, reported_eq hrs, hforward, List.foldl_append, hhost]
    rfl
  · rw [reported_eq hrs]
    split
    · exact hclean.dropLast
    · exact hclean

/-- From `s` to the state of an answer the host is told of the modifiers, the transition that goes
on included, and holds no shift when a key goes down; the reports in `apart` come last and are not
looked at. -/
def Answers (event : Transition) (s : Shifter) (apart : List Report) (r : Bool × Shifter) : Prop :=
  ∃ rs, r.2.outbox = s.outbox ++ (rs ++ apart) ∧
    (rs ++ apart ++ sentOn event r.1).foldl Modifiers.hear s.modifiers = r.2.modifiers ∧
    Unshifted s.modifiers rs

/-- A key that is no modifier key may go on or not. -/
theorem Tells.answers (h : Tells s t) (hbit : event.keycode.modifierBit = 0) (goesOn : Bool) :
    Answers event s [] (goesOn, t) := by
  obtain ⟨rs, hrs, hhost, hclean⟩ := h
  refine ⟨rs, by rw [hrs, List.append_nil], ?_, hclean⟩
  rw [List.append_nil, List.foldl_append, hhost, sentOn]
  split
  · exact Modifiers.move_of_modifierBit hbit _
  · rfl

/-- Something may be told before the answer. -/
theorem Answers.after {apart : List Report} {r : Bool × Shifter} (h : Answers event t apart r)
    (hs : Tells s t) : Answers event s apart r := by
  obtain ⟨rs, hrs, hhost, hclean⟩ := hs
  obtain ⟨us, hus, hhost', hclean'⟩ := h
  refine ⟨rs ++ us, by rw [hus, hrs]; simp only [List.append_assoc], ?_, ?_⟩
  · rw [List.append_assoc, List.append_assoc, List.foldl_append, hhost, ← List.append_assoc, hhost']
  · rw [unshifted_append, hhost]
    exact ⟨hclean, hclean'⟩

theorem Answers.relays {apart : List Report} (h : Answers event s apart (s.handle p event))
    (hnone : s.sendsAtOnce p (.handle event) = false → apart = [])
    (hone : s.sendsAtOnce p (.handle event) = true → ∃ r, apart = [r]) :
    Relays p s (.handle event) := by
  obtain ⟨rs, hrs, hhost, hclean⟩ := h
  have hreported : s.reported p (.handle event) = rs ++ apart := reported_eq hrs
  refine ⟨?_, fun _ => ?_⟩
  · rw [relayed, forwarded?_handle, hreported]
    exact hhost
  · rw [hreported]
    split
    · next honce =>
      obtain ⟨r, rfl⟩ := hone honce
      rwa [List.dropLast_concat]
    · next hnot =>
      rw [hnone (Bool.eq_false_iff.mpr hnot), List.append_nil]
      exact hclean

/-- Every press but one that is sent at once. -/
theorem PressOutcome.answers {l : List Sending} {r : Bool × Shifter}
    (o : PressOutcome p event s l r) (hp : ∀ k, p.isExtra k = false) (hdown : event.isDown = true)
    (hwaits : event.keycode.isDualRole = false → s.hasForms p event.keycode = true →
      s.isEnabled = true → (s.noteModifier event.keycode true).bypasses = false) :
    Answers event s [] r := by
  have hdual := Keycode.modifierBit_of_isDualRole (k := event.keycode)
  have hbit : s.hasForms p event.keycode = true → event.keycode.modifierBit = 0 :=
    modifierBit_of_hasForms hp
  cases o with
  | leaves dual => exact (Tells.refl (s := s)).answers (hdual dual) _
  | repeatsDual dual => exact (tells_repeatLast p s).answers (hdual dual) _
  | tracks dual =>
    have htracked : Tells s { s with tracked := some event } := .quiet rfl rfl
    exact htracked.answers (hdual dual) _
  | ignores =>
    refine ⟨[], (List.append_nil _).symm, ?_, trivial⟩
    show Modifiers.move s.modifiers event = (s.noteModifier event.keycode true).modifiers
    rw [Modifiers.move, if_pos hdown]
    rfl
  | passes _ forms =>
    rw [noteModifier_of_modifierBit (hbit forms)]
    have hpassed : Tells s { s with passing := (s.passing.add event.keycode.base).2 } :=
      .quiet rfl rfl
    exact hpassed.answers (hbit forms) _
  | bypasses single forms on held => simp [hwaits single forms on] at held
  | repeats _ forms =>
    rw [noteModifier_of_modifierBit (hbit forms)]
    exact (tells_repeatLast p s).answers (hbit forms) _
  | begins _ forms =>
    rw [noteModifier_of_modifierBit (hbit forms)]
    exact (tells_begin event s).answers (hbit forms) _

/-- A press that is sent at once puts its own key down last. -/
theorem pressOwn_atOnce (hp : ∀ k, p.isExtra k = false)
    (hcontrol : event.keycode.isControl = false) (single : event.keycode.isDualRole = false)
    (forms : s.hasForms p event.keycode = true) (on : s.isEnabled = true)
    (held : (s.noteModifier event.keycode true).bypasses = true) :
    Answers event s [.key (p.stroke event.keycode false) true] (s.pressOwn p event) := by
  have hnoted := noteModifier_of_modifierBit (modifierBit_of_hasForms hp forms) true s
  rw [hnoted] at held
  have hpress : s.pressOwn p event =
      (false, { s with last := Keycode.noKey }.keyDown p event.keycode false) := by
    rw [pressOwn, ofKeycode?_eq_none hcontrol]
    simp only [single, Bool.false_eq_true, if_false, hnoted, forms, if_true, pressPlain, on,
      Bool.not_true, held]
  obtain ⟨ups, houtbox, hclean, hhost⟩ :=
    outbox_keyDown p { s with last := Keycode.noKey } event.keycode false
  rw [hpress]
  refine ⟨ups, by rw [houtbox, List.append_assoc], ?_, hclean⟩
  rw [modifiers_keyDown, List.append_assoc, List.foldl_append]
  exact congrArg (fun m => Modifiers.hear m (.key (p.stroke event.keycode false) true)) hhost

theorem ReleaseOutcome.answers {l : List Sending} {r : Bool × Shifter}
    (o : ReleaseOutcome p event s l r) (h : NoDualRole s) (hp : ∀ k, p.isExtra k = false)
    (hup : event.isDown = false) : Answers event s [] r := by
  cases o with
  | tapped _ tapped => simp [h.tapped] at tapped
  | held _ _ held => simp [h.held] at held
  | endsDual dual =>
    have hbit := Keycode.modifierBit_of_isDualRole dual
    have huntracked : Tells s ((s.dropped event).untracked event) := by
      rw [dropped_of_modifierBit hbit, untracked_eq]
      exact .quiet rfl rfl
    exact (huntracked.trans (tells_endKey p event.keycode event.time _)).answers hbit _
  | ends _ forms =>
    have hbit := modifierBit_of_hasForms hp forms
    have hunpassed : Tells s (s.unpassed event) := by
      rw [unpassed, dropped_of_modifierBit hbit, noteModifier_of_modifierBit hbit]
      exact .quiet rfl rfl
    exact (hunpassed.trans (tells_endKey p event.keycode event.time _)).answers hbit _
  | ignores =>
    refine ⟨[], (List.append_nil _).symm, ?_, trivial⟩
    show Modifiers.move s.modifiers event = s.modifiers &&& ~~~event.keycode.modifierBit
    rw [Modifiers.move, if_neg (by simp [hup])]

/-- A press of any key but a control key. -/
theorem relays_press (h : NoDualRole s) (hp : ∀ k, p.isExtra k = false)
    (hdown : event.isDown = true) (hcontrol : event.keycode.isControl = false) :
    Relays p s (.handle event) := by
  obtain ⟨hcleared, -⟩ := clearedFor_of_tracked p event h.tracked
  have hsettled := tells_settle p event.time false s
  have hanswer := handle_press p h.tracked hdown
  have honce : s.sendsAtOnce p (.handle event) = true ↔
      event.keycode.isDualRole = false ∧
        (s.settle p event.time false).hasForms p event.keycode = true ∧
        (s.settle p event.time false).isEnabled = true ∧
        ((s.settle p event.time false).noteModifier event.keycode true).bypasses = true := by
    simp [sendsAtOnce, hcleared, hdown, hcontrol, and_assoc]
  cases hsent : s.sendsAtOnce p (.handle event) with
  | true =>
    obtain ⟨single, forms, on, held⟩ := honce.mp hsent
    have hown := (pressOwn_atOnce hp hcontrol single forms on held).after hsettled
    rw [← hanswer] at hown
    exact hown.relays (by simp [hsent]) fun _ => ⟨_, rfl⟩
  | false =>
    have hown := (pressOutcome p (s.settle p event.time false) hcontrol).answers hp hdown
      fun single forms on => Bool.eq_false_iff.mpr fun held => by
        simp [honce.mpr ⟨single, forms, on, held⟩] at hsent
    have hall := hown.after hsettled
    rw [← hanswer] at hall
    exact hall.relays (fun _ => rfl) (by simp [hsent])

/-- A control key, the one that types the timeout included. -/
theorem relays_control (h : NoDualRole s) (hcontrol : event.keycode.isControl = true) :
    Relays p s (.handle event) := by
  have hnot : s.sendsAtOnce p (.handle event) = false := by simp [sendsAtOnce, hcontrol]
  cases hdown : event.isDown with
  | false =>
    have hanswer : s.handle p event = (false, s) := by
      rw [handle_release p s hdown, (handleRelease_control p s hcontrol).1]
    have hkept : Tells s (s.perform p (.handle event)).2 := by
      rw [perform, hanswer]
      exact .refl
    refine .of_tells hkept ?_
    simp only [forwarded?, perform, hanswer]
  | true =>
    obtain ⟨rs, hrs, hhost, hclean⟩ := tells_settle p event.time false s
    obtain ⟨key, hkey⟩ : ∃ key, ControlKey.ofKeycode? event.keycode = some key := by
      rwa [← ControlKey.isSome_ofKeycode?, Option.isSome_iff_exists] at hcontrol
    obtain ⟨us, hus, hhost', hclean'⟩ := outbox_control key (s.settle p event.time false)
    have hanswer : s.handle p event = (false, (s.settle p event.time false).control key) := by
      rw [handle_press p h.tracked hdown, pressOwn, hkey]
    have hreported : s.reported p (.handle event) = rs ++ us := by
      refine reported_eq ?_
      rw [perform, hanswer, hus, hrs, List.append_assoc]
    refine ⟨?_, fun htypes => ?_⟩
    · rw [relayed, forwarded?_handle, hreported, hanswer, List.foldl_append, List.foldl_append,
        hhost, hhost', perform, hanswer]
      rfl
    · have hne : key ≠ .report := by
        rintro rfl
        exact Operation.keycode_of_typesTimeout hdown htypes
          (ControlKey.keycode_of_ofKeycode? hkey).symm
      rw [hreported, if_neg (by simp [hnot]), unshifted_append, hhost]
      exact ⟨hclean, hclean' hne⟩

/-- Every operation but the setting of modifiers. -/
theorem relays_perform (h : NoDualRole s) (hp : ∀ k, p.isExtra k = false) {op : Operation}
    (hset : ∀ bits, op ≠ .setModifiers bits) : Relays p s op := by
  cases op with
  | handle event =>
    cases hcontrol : event.keycode.isControl with
    | true => exact relays_control h hcontrol
    | false =>
      cases hdown : event.isDown with
      | true => exact relays_press h hp hdown hcontrol
      | false =>
        have hnot : s.sendsAtOnce p (.handle event) = false := by simp [sendsAtOnce, hdown]
        have hown := (releaseOutcome p s hcontrol).answers h hp hdown
        rw [← handle_release p s hdown] at hown
        exact hown.relays (fun _ => rfl) (by simp [hnot])
  | scan now => exact .of_tells (tells_scan p now s) rfl
  | verdict keycode v pressTime switch now =>
    refine .of_tells ?_ rfl
    rw [perform, verdict_of_tracked p keycode v pressTime switch now h.tracked]
    exact .refl
  | setModifiers bits => exact absurd rfl (hset bits)
  | enable => exact .of_tells (tells_turned true s) rfl
  | disable => exact .of_tells (tells_turned false s) rfl
  | toggle => exact .of_tells (tells_toggle s) rfl
  | _ => exact .of_tells (.quiet rfl rfl) rfl

/-! ## Histories -/

theorem host_run (h : NoDualRole s) (hp : ∀ k, p.isExtra k = false) {history : List Operation}
    (hset : ∀ bits, .setModifiers bits ∉ history) (hoff : NeverTracks p s history) :
    (s.relayedAll p history).foldl Modifiers.hear s.modifiers = (s.run p history).modifiers := by
  induction history generalizing s with
  | nil => rfl
  | cons op rest ih =>
    have hop : Relays p s op :=
      relays_perform h hp fun bits he => hset bits (he ▸ List.mem_cons_self)
    rw [relayedAll, List.foldl_append, hop.host, run_cons]
    exact ih (h.perform hoff.head op) (fun bits hmem => hset bits (List.mem_cons_of_mem op hmem))
      hoff.tail

theorem claimed_run (h : NoDualRole s) (hshift : TakesShiftOnly s) {history : List Operation}
    (hset : ∀ bits, .setModifiers bits ∉ history) (hoff : NeverTracks p s history) :
    (s.run p history).claimed = history.foldl Modifiers.after s.claimed ∧
      TakesShiftOnly (s.run p history) := by
  induction history generalizing s with
  | nil => exact ⟨rfl, hshift⟩
  | cons op rest ih =>
    have hop : ∀ bits, op ≠ .setModifiers bits :=
      fun bits he => hset bits (he ▸ List.mem_cons_self)
    obtain ⟨hclaimed, hshift'⟩ := claimed_perform (p := p) h hshift hop
    rw [List.foldl_cons, ← hclaimed, run_cons]
    exact ih (h.perform hoff.head op) hshift'
      (fun bits hmem => hset bits (List.mem_cons_of_mem op hmem)) hoff.tail

/-- A modifier counts as held after a history if its key went down in its last move. -/
theorem bit_claimed_run {settings : Settings} {history : List Operation}
    (hset : ∀ bits, .setModifiers bits ∉ history)
    (hoff : NeverTracks p (initial settings) history) (i : Fin 8) :
    bit ((initial settings).run p history).claimed i =
      isHeld (Keycode.firstModifier + UInt16.ofNat i.val) history := by
  obtain ⟨hclaimed, -⟩ :=
    claimed_run (noDualRole_initial settings) (takesShiftOnly_initial settings) hset hoff
  have hnone : bit (initial settings).claimed i = false := by simp [claimed, initial]
  rw [hclaimed, Modifiers.bit_foldl_after, hnone, isHeld]

/-- **The modifiers are accounted for.**  In a history that neither sets the modifiers nor types the
timeout, and never tracks dual role keys:

* the modifiers that count as held, taken back or not, are those whose keys went down in their last
  moves;
* the host takes for held what the shifter has in `modifiers`;
* nothing but shift is taken back;
* the host holds no shift at any report of a key going down, unless it is the last report of a
  press that is sent at once. -/
theorem modifiers_accounted (settings : Settings) (history : List Operation)
    (hset : ∀ bits, .setModifiers bits ∉ history)
    (htypes : ∀ op ∈ history, op.typesTimeout = false)
    (hoff : NeverTracks Policy.stock (initial settings) history) :
    (∀ i : Fin 8,
      bit (((initial settings).run Policy.stock history).modifiers |||
          ((initial settings).run Policy.stock history).suppressed) i =
        isHeld (Keycode.firstModifier + UInt16.ofNat i.val) history) ∧
      hostModifiers ((initial settings).relayedAll Policy.stock history) =
        ((initial settings).run Policy.stock history).modifiers ∧
      ((initial settings).run Policy.stock history).suppressed &&& ~~~Keycode.shiftBits = 0 ∧
      ∀ (before : List Operation) (op : Operation) (after : List Operation) (rs us : List Report)
          (stroke : Stroke), history = before ++ op :: after →
        ((initial settings).run Policy.stock before).reported Policy.stock op =
          rs ++ .key stroke true :: us →
        (((initial settings).run Policy.stock before).sendsAtOnce Policy.stock op = true →
          us ≠ []) →
        hostModifiers ((initial settings).relayedAll Policy.stock before ++ rs) &&&
          Keycode.shiftBits = 0 := by
  have hp : ∀ k, Policy.stock.isExtra k = false := fun _ => rfl
  have hfree := noDualRole_initial settings
  obtain ⟨-, hshift⟩ := claimed_run hfree (takesShiftOnly_initial settings) hset hoff
  refine ⟨bit_claimed_run hset hoff, host_run hfree hp hset hoff, ?_, ?_⟩
  · refine Modifiers.eq_of_bit fun i => ?_
    rw [Modifiers.bit_and_not, Modifiers.bit_zero, Bool.and_eq_false_imp]
    exact fun hi => by simp [hshift i hi]
  · rintro before op after rs us stroke rfl hreported honce
    have hset' : ∀ bits, .setModifiers bits ∉ before :=
      fun bits hmem => hset bits (List.mem_append_left _ hmem)
    have hop : op ∈ before ++ op :: after := List.mem_append_right _ List.mem_cons_self
    have hrelays := relays_perform (hfree.run hoff.left) hp fun bits he => hset bits (he ▸ hop)
    have hclean := hrelays.unshifted (htypes op hop)
    have hbefore : hostModifiers ((initial settings).relayedAll Policy.stock before) =
        ((initial settings).run Policy.stock before).modifiers := host_run hfree hp hset' hoff.left
    rw [hostModifiers, List.foldl_append, ← hostModifiers, hbefore]
    rw [hreported] at hclean
    split at hclean
    · next hsent =>
      rw [List.dropLast_append_of_ne_nil (List.cons_ne_nil _ _),
        List.dropLast_cons_of_ne_nil (honce hsent)] at hclean
      exact hclean.at_down
    · exact hclean.at_down

/-- Shift is taken back for a letter that is held and goes up before it; then a letter is tapped
with the other shift, and a third sent at once with control. -/
def shiftedTyping : List Operation :=
  [.handle (.press 0xe1 0 0 0), .handle (.press 4 0 1 10), .scan 200,
    .handle (.release 0xe1 0 0 210), .handle (.release 4 0 1 220), .handle (.press 0xe5 0 2 230),
    .handle (.press 5 0 3 240), .handle (.release 5 0 3 250), .handle (.press 0xe0 0 4 260),
    .handle (.press 6 0 5 270)]

theorem modifiers_accounted_of_shiftedTyping :
    (∀ bits, .setModifiers bits ∉ shiftedTyping) ∧
      (∀ op ∈ shiftedTyping, op.typesTimeout = false) ∧
      NeverTracks Policy.stock (initial {}) shiftedTyping ∧
      ((initial {}).run Policy.stock (shiftedTyping.take 3)).suppressed = Keycode.leftShiftBit ∧
      bit (((initial {}).run Policy.stock shiftedTyping).modifiers |||
        ((initial {}).run Policy.stock shiftedTyping).suppressed) 5 = true ∧
      hostModifiers ((initial {}).relayedAll Policy.stock shiftedTyping) = 0x21 ∧
      hostModifiers ((initial {}).relayedAll Policy.stock (shiftedTyping.take 7) ++
        [.modifiers Keycode.rightShiftBit false]) &&& Keycode.shiftBits = 0 := by
  have hset : ∀ bits, .setModifiers bits ∉ shiftedTyping := by simp [shiftedTyping]
  have htypes : ∀ op ∈ shiftedTyping, op.typesTimeout = false := by decide
  have hoff : NeverTracks Policy.stock (initial {}) shiftedTyping := .of_inits (by decide)
  obtain ⟨hheld, hhost, -, hclean⟩ := modifiers_accounted {} shiftedTyping hset htypes hoff
  have hmodifiers : ((initial {}).run Policy.stock shiftedTyping).modifiers = 0x21 := by decide
  refine ⟨hset, htypes, hoff, by decide, (hheld 5).trans (by decide), hhost.trans hmodifiers, ?_⟩
  exact hclean (shiftedTyping.take 7) (.handle (.release 5 0 3 250)) (shiftedTyping.drop 8)
    [.modifiers Keycode.rightShiftBit false]
    [.key ⟨5, true⟩ false, .modifiers Keycode.rightShiftBit true] ⟨5, true⟩ rfl (by decide)
    (by decide)

end Shifter

end LongPress
