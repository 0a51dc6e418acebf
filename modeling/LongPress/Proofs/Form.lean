import LongPress.Proofs.Host

/-!
# LongPress.Proofs.Form

The form in which a press that waited is sent.

The form depends on two moments.  At the press the shift keys and the one-shot modifiers are noted
(`deferred_press`); at the decision the time since the press is compared with the timeout
(`waits_perform`).  Nothing in between changes what was noted (`waits_run`).

* `form_of_decidedBy` — a press is sent shifted if it was held for the timeout, or if at the press
  the host held shift or a one-shot shift was ready.

The host holds no shift that is taken back, so the shift keys themselves decide the form only while
none of them is.
-/

namespace LongPress.Shifter

open Modifiers (bit)

variable {p : Policy} {s : Shifter} {event press : Transition} {op : Operation}
  {between : List Operation}

/-! ## The press -/

/-- Shift is held or ready as a one-shot modifier. -/
theorem hasShift_iff (s : Shifter) :
    s.hasShift = true ↔
      s.modifiers &&& Keycode.shiftBits ≠ 0 ∨ s.oneShot &&& Keycode.shiftBits ≠ 0 := by
  rw [hasShift, anyModifiers, Modifiers.and_shiftBits_or, bne_iff_ne, ne_eq, UInt8.or_eq_zero_iff,
    not_and_or]

theorem modifiers_begin (event : Transition) (s : Shifter) :
    (s.begin event).modifiers = s.modifiers := by
  unfold begin; dsimp only; split <;> rfl

theorem suppressed_begin (event : Transition) (s : Shifter) :
    (s.begin event).suppressed = s.suppressed := by
  unfold begin; dsimp only; split <;> rfl

/-- A press waits if it begins to, and in no other way. -/
theorem PressOutcome.eq_begin {l : List Sending} {r : Bool × Shifter}
    (o : PressOutcome p event s l r) (hw : s.waiting = none) {w : Transition}
    (h : r.2.waiting = some w) :
    w = event ∧ event.keycode.isDualRole = false ∧ s.hasForms p event.keycode = true ∧
      r.2 = (s.noteModifier event.keycode true).begin event := by
  have hnot : ∀ {t : Shifter}, r.2.waiting = t.waiting → t.waiting = s.waiting → False := by
    intro t ht hs
    rw [ht, hs, hw] at h
    cases h
  cases o with
  | leaves => exact (hnot (t := s) rfl rfl).elim
  | repeatsDual => exact (hnot (agrees_repeatLast p s).waiting rfl).elim
  | tracks => exact (hnot (t := s) rfl rfl).elim
  | ignores => exact (hnot (t := s) rfl rfl).elim
  | passes => exact (hnot (t := s) rfl rfl).elim
  | bypasses => exact (hnot (agrees_keyDown p _ event.keycode false).waiting rfl).elim
  | repeats => exact (hnot (agrees_repeatLast p _).waiting rfl).elim
  | begins single forms =>
    rw [(agrees_begin event _).waiting] at h
    cases h
    exact ⟨rfl, single, forms, rfl⟩

/-- A press that waits after a press is that press, of a key with a single role and a shifted form;
its wait begins once what waited is settled. -/
theorem begun_of_waiting (h : NoDualRole s) (hdown : event.isDown = true) {w : Transition}
    (hw : (s.perform p (.handle event)).2.waiting = some w) :
    w = event ∧ event.keycode.isControl = false ∧ event.keycode.isDualRole = false ∧
      s.hasForms p event.keycode = true ∧
      (s.perform p (.handle event)).2 =
        ((s.settle p event.time false).noteModifier event.keycode true).begin event := by
  have hsettled := agrees_settle p event.time false s
  have hforms : (s.settle p event.time false).hasForms p event.keycode =
      s.hasForms p event.keycode := hasForms_congr (by rw [hsettled.settings]) _
  rw [perform, handle_press p h.tracked hdown] at hw ⊢
  rw [← hforms]
  replace hsettled := hsettled.waiting
  generalize s.settle p event.time false = settled at hsettled hw ⊢
  cases hcontrol : event.keycode.isControl with
  | true =>
    obtain ⟨key, hkey, -⟩ := pressOwn_control p settled hcontrol
    rw [hkey, (agrees_control key settled).waiting, hsettled] at hw
    cases hw
  | false =>
    obtain ⟨hwait, single, forms, hbegun⟩ := (pressOutcome p settled hcontrol).eq_begin hsettled hw
    exact ⟨hwait, rfl, single, forms, hbegun⟩

/-- A press that waits leaves the shifter as its wait begins, once what waited is settled. -/
theorem deferred_press (h : NoDualRole s) (hp : ∀ k, p.isExtra k = false)
    (hdown : press.isDown = true) (hdefers : (s.perform p (.handle press)).2.waiting = some press) :
    (s.perform p (.handle press)).2 = (s.settle p press.time false).begin press := by
  obtain ⟨-, -, -, forms, hbegun⟩ := begun_of_waiting h hdown hdefers
  rw [hbegun, noteModifier_of_modifierBit (modifierBit_of_hasForms hp forms)]

/-! ## The wait -/

/-- The end of a key decides the key itself, and leaves the wait of every other key alone. -/
theorem waits_endKey (p : Policy) (k : Keycode) (now : Tick) (s : Shifter) :
    ((s.endKey p k now).2.waiting = s.waiting ∧ (s.endKey p k now).2.lastShifted = s.lastShifted) ∨
      ∃ e, s.waiting = some e ∧ (s.endKey p k now).2.waiting = none ∧
        s.endKeySends k now = [.key e.keycode (s.formAt e now)] := by
  have hgone := agrees_letGo p k now s
  unfold endKey endKeySends
  cases hw : s.waiting with
  | none => exact .inl ⟨hgone.waiting.trans hw, hgone.lastShifted⟩
  | some e =>
    dsimp only
    split
    · exact .inr ⟨e, rfl, (agrees_decideKey p e now false s).waiting, rfl⟩
    · exact .inl ⟨hgone.waiting.trans hw, hgone.lastShifted⟩

theorem ReleaseOutcome.waits {l : List Sending} {r : Bool × Shifter}
    (o : ReleaseOutcome p event s l r) (h : NoDualRole s) :
    (r.2.waiting = s.waiting ∧ r.2.lastShifted = s.lastShifted) ∨
      ∃ e, s.waiting = some e ∧ r.2.waiting = none ∧
        l = [.key e.keycode (s.formAt e event.time)] := by
  cases o with
  | tapped _ tapped => simp [h.tapped] at tapped
  | held _ _ held => simp [h.held] at held
  | endsDual =>
    have hends := waits_endKey p event.keycode event.time ((s.dropped event).untracked event)
    rw [untracked_eq] at hends ⊢
    exact hends
  | ends => exact waits_endKey p event.keycode event.time (s.unpassed event)
  | ignores => exact .inl ⟨rfl, rfl⟩

/-- Whatever is no press leaves the press that waits alone, or decides it by the time it tells. -/
theorem waits_perform (h : NoDualRole s) (hop : op.isPress = false) :
    ((s.perform p op).2.waiting = s.waiting ∧ (s.perform p op).2.lastShifted = s.lastShifted) ∨
      ∃ e now, s.waiting = some e ∧ (s.perform p op).2.waiting = none ∧ op.time? = some now ∧
        s.sends p op = [.key e.keycode (s.formAt e now)] := by
  have hof : ∀ {t : Shifter} {g : Settings} {b : Bool},
      Agrees { s with settings := g, isEnabled := b } t →
        t.waiting = s.waiting ∧ t.lastShifted = s.lastShifted :=
    fun ha => ⟨ha.waiting, ha.lastShifted⟩
  cases op with
  | handle event =>
    rw [perform, handle_release p s hop, sends, if_neg (by simpa [Operation.isPress] using hop)]
    cases hcontrol : event.keycode.isControl with
    | true =>
      rw [(handleRelease_control p s hcontrol).1]
      exact .inl ⟨rfl, rfl⟩
    | false =>
      refine ((releaseOutcome p s hcontrol).waits h).imp_right ?_
      rintro ⟨e, hw, hnone, hsends⟩
      exact ⟨e, event.time, hw, hnone, rfl, hsends⟩
  | scan now =>
    rw [perform, scan_of_tracked p now h.tracked]
    cases scanWaiting_cases p now s with
    | inl hcase =>
      rw [hcase.1]
      exact .inl ⟨rfl, rfl⟩
    | inr hcase =>
      obtain ⟨e, hw, hscan, hsends⟩ := hcase
      rw [hscan]
      exact .inr ⟨e, now, hw, (agrees_decideKey p e now true s).waiting, rfl, hsends⟩
  | verdict keycode v pressTime switch now =>
    rw [perform, verdict_of_tracked p keycode v pressTime switch now h.tracked]
    exact .inl ⟨rfl, rfl⟩
  | enable => exact .inl (hof (agrees_enable s))
  | disable => exact .inl (hof (agrees_disable s))
  | toggle => exact .inl (hof (agrees_toggle s))
  | _ => exact .inl ⟨rfl, rfl⟩

/-- While a press waits, the form noted for it stays. -/
theorem waits_run (h : NoDualRole s) (hoff : NeverTracks p s between)
    (hbetween : ∀ o ∈ between, o.isPress = false)
    (hw : (s.run p between).waiting = some press) :
    s.waiting = some press ∧ (s.run p between).lastShifted = s.lastShifted := by
  induction between generalizing s with
  | nil => exact ⟨hw, rfl⟩
  | cons o rest ih =>
    obtain ⟨hwaiting, hform⟩ := ih (h.perform hoff.head o) hoff.tail
      (fun o' ho' => hbetween o' (List.mem_cons_of_mem o ho')) hw
    rw [run_cons, hform]
    cases waits_perform (p := p) h (hbetween o List.mem_cons_self) with
    | inl hcase => exact ⟨hcase.1.symm.trans hwaiting, hcase.2⟩
    | inr hcase =>
      obtain ⟨e, now, -, hnone, -⟩ := hcase
      simp [hnone] at hwaiting

/-! ## The decision -/

/-- From the state `s` a press is deferred, waits through `between` and is decided by `op`. -/
structure DecidedBy (p : Policy) (s : Shifter) (press : Transition) (between : List Operation)
    (op : Operation) : Prop where
  isDown : press.isDown = true
  defers : (s.perform p (.handle press)).2.waiting = some press
  noPress : ∀ o ∈ between, o.isPress = false
  waits : (s.run p (.handle press :: between)).waiting = some press
  ends : op.isPress = true ∨ (s.run p (.handle press :: (between ++ [op]))).waiting ≠ some press

/-- A press settles what waits before all else. -/
theorem sends_press (p : Policy) (s : Shifter) (hop : op.isPress = true) :
    ∃ now rest, op.time? = some now ∧ s.sends p op = s.settleSends now ++ rest := by
  cases op with
  | handle event =>
    have hsends : s.sends p (.handle event) = s.handlePressSends p event := if_pos hop
    rw [hsends, handlePressSends]
    exact ⟨event.time, _, rfl, rfl⟩
  | _ => cases hop

/-- The operation that decides a press sends it first, in the form of the time it tells. -/
theorem DecidedBy.sends (h : DecidedBy p s press between op) (hfree : NoDualRole s)
    (hoff : NeverTracks p s (.handle press :: between)) :
    ∃ now rest, op.time? = some now ∧
      (s.run p (.handle press :: between)).sends p op =
        .key press.keycode ((s.run p (.handle press :: between)).formAt press now) :: rest := by
  have hends := h.ends
  have hw := h.waits
  have hlast : s.run p (.handle press :: (between ++ [op])) =
      ((s.run p (.handle press :: between)).perform p op).2 := by
    rw [← List.cons_append, run_append]
    rfl
  rw [hlast] at hends
  have hfree' : NoDualRole (s.run p (.handle press :: between)) := hfree.run hoff
  generalize s.run p (.handle press :: between) = t at hends hw hfree' ⊢
  cases hop : op.isPress with
  | true =>
    obtain ⟨now, rest, htime, hsends⟩ := sends_press p t hop
    refine ⟨now, rest, htime, ?_⟩
    rw [hsends, settleSends, hw]
    rfl
  | false =>
    have hdecided := hends.resolve_left (by simp [hop])
    cases waits_perform (p := p) hfree' hop with
    | inl hcase => exact absurd (hcase.1.trans hw) hdecided
    | inr hcase =>
      obtain ⟨e, now, hwe, -, htime, hsends⟩ := hcase
      cases hw.symm.trans hwe
      exact ⟨now, [], htime, hsends⟩

/-- The form noted at the press is that of the shift keys and the one-shot modifiers, once what
waited is settled. -/
theorem DecidedBy.noted (h : DecidedBy p s press between op) (hfree : NoDualRole s)
    (hoff : NeverTracks p s (.handle press :: between)) (hp : ∀ k, p.isExtra k = false) :
    (s.run p (.handle press :: between)).lastShifted = true ↔
      (s.perform p (.handle press)).2.modifiers &&& Keycode.shiftBits ≠ 0 ∨
        s.oneShot &&& Keycode.shiftBits ≠ 0 := by
  have hbegun := deferred_press hfree hp h.isDown h.defers
  obtain ⟨-, hform⟩ := waits_run (hfree.perform hoff.head _) hoff.tail h.noPress h.waits
  have hsettled := agrees_settle p press.time false s
  rw [run_cons, hform, hbegun, (agrees_begin press _).lastShifted, modifiers_begin,
    ← hsettled.oneShot]
  exact hasShift_iff _

/-- At the press the modifiers that count as held are those from before it. -/
theorem DecidedBy.claimed (h : DecidedBy p s press between op) (hfree : NoDualRole s)
    (hp : ∀ k, p.isExtra k = false) :
    (s.perform p (.handle press)).2.claimed = s.claimed := by
  rw [deferred_press hfree hp h.isDown h.defers, Shifter.claimed, modifiers_begin,
    suppressed_begin]
  exact (steady_settle p press.time false s).claimed

/-- The key of a press that waited is sent first when it is decided.  It is sent shifted if the
timeout has passed, or by the shift that was noted. -/
theorem DecidedBy.form (h : DecidedBy p s press between op) (hfree : NoDualRole s)
    (hoff : NeverTracks p s (.handle press :: between)) (hp : ∀ k, p.isExtra k = false) :
    ∃ now shifted rest, op.time? = some now ∧
      downs ((s.run p (.handle press :: between)).reported p op) =
        p.stroke press.keycode shifted :: rest ∧
      (shifted = true ↔ (s.run p (.handle press :: between)).timeout ≤ now.since press.time ∨
        (s.perform p (.handle press)).2.modifiers &&& Keycode.shiftBits ≠ 0 ∨
        s.oneShot &&& Keycode.shiftBits ≠ 0) := by
  obtain ⟨now, rest, htime, hsends⟩ := h.sends hfree hoff
  refine ⟨now, (s.run p (.handle press :: between)).formAt press now,
    rest.map (Sending.stroke p), htime, ?_, ?_⟩
  · rw [downs_reported, hsends, List.map_cons, Sending.stroke]
  · rw [← h.noted hfree hoff hp, formAt, Bool.or_eq_true, decide_eq_true_eq]

/-- A shift key is down exactly if a shift counts as held. -/
theorem isShiftHeld_iff {settings : Settings} {history : List Operation}
    (hset : ∀ bits, .setModifiers bits ∉ history)
    (hoff : NeverTracks p (initial settings) history) :
    isShiftHeld history = true ↔
      ((initial settings).run p history).claimed &&& Keycode.shiftBits ≠ 0 := by
  have hleft := bit_claimed_run hset hoff 1
  have hright := bit_claimed_run hset hoff 5
  rw [Modifiers.and_shiftBits_ne_zero, isShiftHeld, Bool.or_eq_true]
  exact or_congr (Bool.eq_iff_iff.mp hleft.symm) (Bool.eq_iff_iff.mp hright.symm)

/-- **The form of a press that waited.**  In a history that does not set the modifiers before the
press, and never tracks dual role keys, the operation that decides a press tells the time, and
first of all sends the key of the press:

* the key is sent shifted exactly if the timeout has passed since the press, or if at the press the
  host held shift or a one-shot shift was ready;
* so it is sent shifted only if the timeout has passed, a shift key was down or a one-shot shift
  was ready;
* the converse holds unless shift is taken back while the wait begins. -/
theorem form_of_decidedBy (settings : Settings) (before between : List Operation)
    (press : Transition) (op : Operation) (hset : ∀ bits, .setModifiers bits ∉ before)
    (hoff : NeverTracks Policy.stock (initial settings) (before ++ .handle press :: between))
    (h : DecidedBy Policy.stock ((initial settings).run Policy.stock before) press between op) :
    ∃ now shifted rest, op.time? = some now ∧
      downs (((initial settings).run Policy.stock
        (before ++ .handle press :: between)).reported Policy.stock op) =
          ⟨press.keycode.base, shifted⟩ :: rest ∧
      (shifted = true ↔
        ((initial settings).run Policy.stock (before ++ .handle press :: between)).timeout ≤
            now.since press.time ∨
          hostModifiers ((initial settings).relayedAll Policy.stock (before ++ [.handle press])) &&&
            Keycode.shiftBits ≠ 0 ∨
          ((initial settings).run Policy.stock before).oneShot &&& Keycode.shiftBits ≠ 0) ∧
      (shifted = true →
        ((initial settings).run Policy.stock (before ++ .handle press :: between)).timeout ≤
            now.since press.time ∨
          isShiftHeld before = true ∨
          ((initial settings).run Policy.stock before).oneShot &&& Keycode.shiftBits ≠ 0) ∧
      (((initial settings).run Policy.stock (before ++ [.handle press])).suppressed = 0 →
        ((initial settings).run Policy.stock (before ++ .handle press :: between)).timeout ≤
            now.since press.time ∨
          isShiftHeld before = true ∨
          ((initial settings).run Policy.stock before).oneShot &&& Keycode.shiftBits ≠ 0 →
        shifted = true) := by
  have hp : ∀ k, Policy.stock.isExtra k = false := fun _ => rfl
  have hpressed : NeverTracks Policy.stock (initial settings) (before ++ [.handle press]) := by
    rw [List.append_cons] at hoff
    exact hoff.left
  have hfree := (noDualRole_initial settings).run (p := Policy.stock) hoff.left
  have hset' : ∀ bits, .setModifiers bits ∉ before ++ [.handle press] := by simpa using hset
  have hhost : hostModifiers _ = _ := host_run (noDualRole_initial settings) hp hset' hpressed
  have hclaimed := h.claimed hfree hp
  obtain ⟨now, shifted, rest, htime, hdowns, hform⟩ := h.form hfree hoff.right hp
  rw [← run_append] at hdowns hform
  have hstep : ((initial settings).run Policy.stock (before ++ [.handle press])) =
      (((initial settings).run Policy.stock before).perform Policy.stock (.handle press)).2 := by
    rw [run_append, run_cons, run_nil]
  rw [← hstep] at hform hclaimed
  refine ⟨now, shifted, rest, htime, hdowns, ?_, fun hshifted => ?_, fun hgiven hwhy => ?_⟩
  · rw [hhost]
    exact hform
  · rw [isShiftHeld_iff hset hoff.left, ← hclaimed, claimed, Modifiers.and_shiftBits_or, ne_eq,
      UInt8.or_eq_zero_iff, not_and_or]
    rcases hform.mp hshifted with htime | hheld | hready
    · exact .inl htime
    · exact .inr (.inl (.inl hheld))
    · exact .inr (.inr hready)
  · rw [isShiftHeld_iff hset hoff.left, ← hclaimed, claimed, hgiven, UInt8.or_zero] at hwhy
    exact hform.mpr hwhy

/-- A letter is pressed with shift and let go before the timeout. -/
theorem form_of_decidedBy_of_capital :
    DecidedBy Policy.stock
        ((initial {}).run Policy.stock [.handle (.press 0xe1 0 0 0)]) (.press 4 0 1 10) [.scan 50]
        (.handle (.release 4 0 1 60)) ∧
      ∃ rest, downs (((initial {}).run Policy.stock [.handle (.press 0xe1 0 0 0),
        .handle (.press 4 0 1 10), .scan 50]).reported Policy.stock
          (.handle (.release 4 0 1 60))) = ⟨4, true⟩ :: rest := by
  have hdecided : DecidedBy Policy.stock
      ((initial {}).run Policy.stock [.handle (.press 0xe1 0 0 0)]) (.press 4 0 1 10) [.scan 50]
      (.handle (.release 4 0 1 60)) :=
    ⟨rfl, by decide, by decide, by decide, .inr (by decide)⟩
  obtain ⟨now, shifted, rest, -, hdowns, -, -, hwhy⟩ :=
    form_of_decidedBy {} [.handle (.press 0xe1 0 0 0)] [.scan 50] (.press 4 0 1 10)
      (.handle (.release 4 0 1 60)) (by simp) (.of_inits (by decide)) hdecided
  have hshifted : shifted = true := hwhy (by decide) (.inr (.inl (by decide)))
  subst hshifted
  exact ⟨hdecided, rest, hdowns⟩

/-- While a letter is held down by a scan the shift key is taken back, and a second letter is typed
plain although the shift key is down. -/
theorem plain_while_shift_is_down :
    DecidedBy Policy.stock
        ((initial {}).run Policy.stock [.handle (.press 0xe1 0 0 0), .handle (.press 4 0 1 10),
          .scan 200]) (.press 5 0 2 300) [] (.handle (.release 5 0 2 320)) ∧
      isShiftHeld [.handle (.press 0xe1 0 0 0), .handle (.press 4 0 1 10), .scan 200] = true ∧
      downs (((initial {}).run Policy.stock [.handle (.press 0xe1 0 0 0),
        .handle (.press 4 0 1 10), .scan 200, .handle (.press 5 0 2 300)]).reported Policy.stock
          (.handle (.release 5 0 2 320))) = [⟨5, false⟩] :=
  ⟨⟨rfl, by decide, by decide, by decide, .inr (by decide)⟩, by decide, by decide⟩

end LongPress.Shifter
