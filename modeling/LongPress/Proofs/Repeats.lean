import LongPress.Proofs.Endings
import LongPress.Proofs.Level
import LongPress.Proofs.Passing

/-!
# LongPress.Proofs.Repeats

Which press a repetition goes back to.

A press repeats itself only if its key is the `last` one.  That is recorded when a press begins to
wait and when a tracked press is decided; a press of another key with a single role replaces the
record or deletes it.  Three kinds of presses spare it, though: of control keys, of dual role keys,
and of keys with forms while the feature is off (`sparesLast`).  So a repetition need not follow the
press before it, but it follows an earlier press of its own key with only such presses in between.

* `repeat_follows_press` — the main statement;
* `repeat_after_other_key` — the press just before a repetition can be of another key.
-/

namespace LongPress

/-- A press is tracked at last if it was at first, or if it started in between. -/
theorem Course.tracked_or_started {a b : Option Transition} {ms : List Milestone}
    {press : Transition} (h : Course a ms b) (hb : b = some press) :
    a = some press ∨ .started press ∈ ms := by
  induction h with
  | nil => exact .inl hb
  | started e _ ih =>
    cases ih hb with
    | inl he =>
      cases he
      exact .inr List.mem_cons_self
    | inr hmem => exact .inr (List.mem_cons_of_mem _ hmem)
  | ended how _ ih =>
    cases ih hb with
    | inl he => cases he
    | inr hmem => exact .inr (List.mem_cons_of_mem _ hmem)

namespace Shifter

variable {p : Policy} {s s₀ t : Shifter} {event press : Transition} {op : Operation} {k : Keycode}
  {history : List Operation} {l : List Sending}

/-! ## Repetitions -/

/-- Whether a press is sent at once as a repetition of the last key. -/
def repeats (p : Policy) (press : Transition) (s : Shifter) : Bool :=
  let t := s.clearedFor p press
  !press.keycode.isControl && t.isEnabled && t.hasForms p press.keycode && t.isRepeat press &&
    if press.keycode.isDualRole then t.settings.has Flag.dualRole
    else !(t.noteModifier press.keycode true).bypasses

theorem handle_of_repeats (hdown : press.isDown = true) (h : s.repeats p press = true) :
    (s.clearedFor p press).last = press.keycode ∧
      s.handle p press =
        (false, ((s.clearedFor p press).noteModifier press.keycode true).repeatLast p) := by
  rw [handle, if_pos hdown, handlePress_eq]
  unfold repeats at h
  generalize s.clearedFor p press = t at h ⊢
  simp only [Bool.and_eq_true, Bool.not_eq_true'] at h
  obtain ⟨⟨⟨⟨hcontrol, hon⟩, hforms⟩, hagain⟩, hway⟩ := h
  refine ⟨last_of_isRepeat hagain, ?_⟩
  cases hdual : press.keycode.isDualRole with
  | true =>
    rw [if_pos hdual] at hway
    rw [pressOwn_of_isDualRole p t hdual, pressDualRole, if_neg (by simp [hon, hway, hforms]),
      if_pos hagain, noteModifier_of_modifierBit (Keycode.modifierBit_of_isDualRole hdual)]
  | false =>
    rw [if_neg (by simp [hdual]), Bool.not_eq_true'] at hway
    have hnoted := agrees_noteModifier press.keycode true t
    have hforms' : (t.noteModifier press.keycode true).hasForms p press.keycode = true := hforms
    have hagain' : (t.noteModifier press.keycode true).isRepeat press = true := hagain
    rw [pressOwn, ofKeycode?_eq_none hcontrol]
    dsimp only
    rw [if_neg (by simp [hdual]), if_pos hforms', pressPlain,
      if_neg (by simp [hnoted.isEnabled, hon]), if_neg (by simp [hway]), if_pos hagain']

/-- Whether a press leaves the last key as it is, whatever key that is. -/
def sparesLast (p : Policy) (press : Transition) (s : Shifter) : Bool :=
  press.keycode.isControl || press.keycode.isDualRole ||
    (s.hasForms p press.keycode && !s.isEnabled)

/-- A key was pressed in a history, and each press since then left it the key to be repeated: it
spared the last key, or was made at the place of the tracked key itself. -/
def LastPressed (p : Policy) (s : Shifter) (history : List Operation) (k : Keycode) : Prop :=
  ∃ before press between, history = before ++ .handle press :: between ∧ press.isDown = true ∧
    press.keycode = k ∧
    ∀ first event rest, between = first ++ .handle event :: rest → event.isDown = true →
      let t := s.run p (before ++ .handle press :: first)
      t.sparesLast p event = true ∨ (t.trackedAs? k event.switch).isSome = true

namespace LastPressed

theorem of_press (p : Policy) (s : Shifter) (history : List Operation)
    (hdown : press.isDown = true) :
    LastPressed p s (history ++ [.handle press]) press.keycode :=
  ⟨history, press, [], rfl, hdown, rfl, fun first event rest heq => by simp at heq⟩

/-- An operation goes by, which is no press, or a press that leaves the key to be repeated. -/
theorem concat (h : LastPressed p s history k)
    (hop : ∀ event, op = .handle event → event.isDown = true →
      (s.run p history).sparesLast p event = true ∨
        ((s.run p history).trackedAs? k event.switch).isSome = true) :
    LastPressed p s (history ++ [op]) k := by
  obtain ⟨before, press, between, rfl, hdown, hkey, hall⟩ := h
  refine ⟨before, press, between ++ [op], by simp, hdown, hkey, ?_⟩
  intro first event rest heq hevent
  cases List.eq_nil_or_concat rest with
  | inl hnil =>
    subst hnil
    obtain ⟨rfl, hop'⟩ := List.append_inj' heq rfl
    exact hop event (List.singleton_inj.mp hop') hevent
  | inr hconcat =>
    obtain ⟨rest, last, rfl⟩ := hconcat
    rw [List.concat_eq_append, ← List.cons_append, ← List.append_assoc] at heq
    obtain ⟨hbetween, -⟩ := List.append_inj' heq rfl
    exact hall first event rest hbetween hevent

theorem concat_of_not_press (h : LastPressed p s history k) (hop : op.isPress = false) :
    LastPressed p s (history ++ [op]) k := by
  refine h.concat ?_
  rintro event rfl hdown
  exact absurd (hop.symm.trans hdown) Bool.false_ne_true

end LastPressed

/-! ## The last key -/

/-- The keys that can be the last one without a press of their own: the one that is, none, and the
one that is tracked. -/
def MayBecomeLast (s : Shifter) (k : Keycode) : Prop :=
  k = s.last ∨ k = Keycode.noKey ∨ ∃ e, s.tracked = some e ∧ k = e.keycode

/-- A tracked key that is decided is the last one, or none is. -/
theorem last_resolve (p : Policy) (event : Transition) (now : Tick) (s : Shifter) :
    (s.resolve p event now).last = Keycode.noKey ∨
      (s.resolve p event now).last = event.keycode := by
  unfold resolve
  dsimp only
  generalize s.settle p now false = settled
  split
  · refine .inl ?_
    rw [(agrees_keyUp p _ event.keycode).last, (agrees_keyDown p _ event.keycode false).last]
  · refine .inr ?_
    rw [(agrees_settle p now false (settled.begin event)).last]
    exact (agrees_begin event settled).last

theorem last_clearedFor (p : Policy) (event : Transition) (s : Shifter) :
    s.MayBecomeLast (s.clearedFor p event).last := by
  have hsettled := (agrees_settle p event.time false s).last
  have hclears := clears p event s
  generalize s.interruptEnds p event = ms at hclears
  generalize s.clearedSends p event = l at hclears
  generalize s.clearedFor p event = t at hclears ⊢
  cases hclears with
  | nothing => exact .inl hsettled
  | holds => exact .inl hsettled
  | @types e tracked =>
    cases last_resolve p e event.time ((s.settle p event.time false).marked e) with
    | inl hnone => exact .inr (.inl hnone)
    | inr hkey => exact .inr (.inr ⟨e, tracked, hkey⟩)

/-- After a press of a key other than a control key none is the last one, or the key is, if it has
a single role and forms, or the one that was, if the press spares it. -/
theorem PressOutcome.last {r : Bool × Shifter} (o : PressOutcome p event s l r) :
    r.2.last = Keycode.noKey ∨
      r.2.last = event.keycode ∧ s.isFormed p event.keycode.base event.keycode = true ∨
      r.2.last = s.last ∧ s.sparesLast p event = true := by
  have hnoted := agrees_noteModifier event.keycode true s
  cases o with
  | leaves dual => exact .inr (.inr ⟨rfl, by simp [sparesLast, dual]⟩)
  | repeatsDual dual =>
    exact .inr (.inr ⟨(agrees_repeatLast p s).last, by simp [sparesLast, dual]⟩)
  | tracks dual => exact .inr (.inr ⟨rfl, by simp [sparesLast, dual]⟩)
  | ignores => exact .inl rfl
  | passes _ forms off => exact .inr (.inr ⟨rfl, by simp [sparesLast, forms, off]⟩)
  | bypasses => exact .inl (agrees_keyDown p (s.forgotten event) event.keycode false).last
  | repeats single forms _ again =>
    exact .inr (.inl ⟨(agrees_repeatLast p _).last.trans (last_of_isRepeat again),
      isFormed_iff.mpr ⟨single, forms, rfl⟩⟩)
  | begins single forms =>
    exact .inr (.inl ⟨(agrees_begin event _).last, isFormed_iff.mpr ⟨single, forms, rfl⟩⟩)

theorem sparesLast_clearedFor (p : Policy) (event press : Transition) (s : Shifter) :
    (s.clearedFor p event).sparesLast p press = s.sparesLast p press := by
  obtain ⟨-, hon, -⟩ := clearedFor_keeps p event s
  rw [sparesLast, sparesLast, hasForms_clearedFor, hon]

/-- After a press none is the last key, or its own is, or one that could become it, if the press
spares it. -/
theorem last_press (p : Policy) (s : Shifter) (hdown : event.isDown = true) :
    (s.perform p (.handle event)).2.last = Keycode.noKey ∨
      (s.perform p (.handle event)).2.last = event.keycode ∧
        s.isFormed p event.keycode.base event.keycode = true ∨
      s.MayBecomeLast (s.perform p (.handle event)).2.last ∧ s.sparesLast p event = true := by
  have hcleared := last_clearedFor p event s
  rw [← sparesLast_clearedFor p event, perform_press p s hdown, handlePress_eq]
  cases hcontrol : event.keycode.isControl with
  | true =>
    obtain ⟨key, hkey, -⟩ := pressOwn_control p (s.clearedFor p event) hcontrol
    rw [hkey]
    dsimp only
    rw [(agrees_control key _).last]
    exact .inr (.inr ⟨hcleared, by simp [sparesLast, hcontrol]⟩)
  | false =>
    rw [← isFormed_clearedFor p event]
    have houtcome := pressOutcome p (s.clearedFor p event) hcontrol
    rcases houtcome.last with hnone | hkey | ⟨hlast, hspares⟩
    · exact .inl hnone
    · exact .inr (.inl hkey)
    · exact .inr (.inr ⟨hlast ▸ hcleared, hspares⟩)

theorem ReleaseOutcome.last {r : Bool × Shifter} (o : ReleaseOutcome p event s l r) :
    r.2.last = s.last := by
  cases o with
  | tapped => rfl
  | held => rfl
  | endsDual => rw [(agrees_endKey p event.keycode event.time _).last, untracked_eq]; rfl
  | ends => exact (agrees_endKey p event.keycode event.time (s.unpassed event)).last
  | ignores => rfl

/-- Any operation but a press leaves the last key to those that can become it. -/
theorem last_perform (p : Policy) (s : Shifter) (hop : op.isPress = false) :
    s.MayBecomeLast (s.perform p op).2.last := by
  cases op with
  | handle event =>
    have hup : event.isDown = false := hop
    rw [perform_release p s hup]
    cases hcontrol : event.keycode.isControl with
    | true =>
      rw [(handleRelease_control p s hcontrol).1]
      exact .inl rfl
    | false => exact .inl (releaseOutcome p s hcontrol).last
  | scan now =>
    exact .inl (scan_keeps (P := fun t => t.last = s.last) rfl
      (fun e _ => (agrees_decideKey p e now true s).last) fun _ _ ht _ => ht)
  | verdict keycode v pressTime switch now =>
    show s.MayBecomeLast (s.verdict p keycode v pressTime switch now).2.last
    unfold verdict
    split
    · exact .inl rfl
    · next e he =>
      cases v with
      | tap => exact .inl rfl
      | hold =>
        cases last_resolve p (e.pressedAt pressTime) now s.stopTracking with
        | inl hnone => exact .inr (.inl hnone)
        | inr hkey => exact .inr (.inr ⟨e, eq_of_trackedAs? he, hkey⟩)
  | enable => exact .inl (agrees_control .on s).last
  | disable => exact .inl (agrees_control .off s).last
  | toggle => exact .inl (agrees_control .toggle s).last
  | _ => exact .inl rfl

/-! ## The press that a repetition goes back to -/

/-- After a press that one is tracked, or the press that was, if the two were made at one place. -/
theorem tracked_press {e : Transition} (hdown : event.isDown = true)
    (he : (s.perform p (.handle event)).2.tracked = some e) :
    event = e ∨ s.tracked = some e ∧ e.switch.samePlace event.switch = true := by
  have hsettled := (agrees_settle p event.time false s).tracked
  have hclears := clears p event s
  rw [perform_press p s hdown, handlePress_eq, tracked_pressOwn_eq] at he
  generalize s.interruptEnds p event = ms at hclears
  generalize s.clearedSends p event = l at hclears
  generalize s.clearedFor p event = t at hclears he
  split at he
  · exact .inl (Option.some.inj he)
  · refine .inr ?_
    cases hclears with
    | nothing here =>
      have htracked : s.tracked = some e := hsettled.symm.trans he
      exact ⟨htracked, here e htracked⟩
    | holds => cases he
    | @types x =>
      rw [(agrees_resolve p x event.time _).tracked] at he
      cases he

/-- Any operation but a press tracks only what was tracked. -/
theorem tracked_of_perform {e : Transition} (hop : op.isPress = false)
    (he : (s.perform p op).2.tracked = some e) : s.tracked = some e := by
  refine ((course_perform p s op).tracked_or_started he).resolve_right fun hstarted => ?_
  obtain ⟨rfl, hdown, -⟩ := tracked_of_started hstarted
  exact Bool.false_ne_true (hop.symm.trans hdown)

/-- What is recorded of keys goes back to presses. -/
structure Recorded (p : Policy) (s₀ : Shifter) (history : List Operation) (s : Shifter) :
    Prop where
  last : s.last ≠ Keycode.noKey → LastPressed p s₀ history s.last
  tracked {e : Transition} : s.tracked = some e → LastPressed p s₀ history e.keycode

namespace Recorded

theorem of_mayBecomeLast (h : Recorded p s₀ history s) (hk : s.MayBecomeLast k)
    (hne : k ≠ Keycode.noKey) : LastPressed p s₀ history k := by
  rcases hk with rfl | rfl | ⟨e, he, rfl⟩
  · exact h.last hne
  · exact absurd rfl hne
  · exact h.tracked he

theorem initial (p : Policy) (settings : Settings) :
    Recorded p (initial settings) [] (initial settings) where
  last hne := absurd rfl hne
  tracked := nofun

theorem after_press (h : Recorded p s₀ history (s₀.run p history)) (hdown : event.isDown = true) :
    Recorded p s₀ (history ++ [.handle event])
      ((s₀.run p history).perform p (.handle event)).2 where
  last hne := by
    rcases last_press p (s₀.run p history) hdown with hnone | ⟨hkey, -⟩ | ⟨hlast, hspares⟩
    · exact absurd hnone hne
    · rw [hkey]
      exact .of_press p s₀ history hdown
    · refine (h.of_mayBecomeLast hlast hne).concat fun e he _ => .inl ?_
      cases he
      exact hspares
  tracked {e} he := by
    rcases tracked_press hdown he with rfl | ⟨htracked, hplace⟩
    · exact .of_press p s₀ history hdown
    · refine (h.tracked htracked).concat fun x hx _ => .inr ?_
      cases hx
      rw [trackedAs?_eq_some_iff.mpr ⟨htracked, rfl, hplace⟩]
      rfl

theorem after_other (h : Recorded p s₀ history (s₀.run p history)) (hop : op.isPress = false) :
    Recorded p s₀ (history ++ [op]) ((s₀.run p history).perform p op).2 where
  last hne := (h.of_mayBecomeLast (last_perform p _ hop) hne).concat_of_not_press hop
  tracked he := (h.tracked (tracked_of_perform hop he)).concat_of_not_press hop

theorem run (p : Policy) (settings : Settings) (history : List Operation) :
    Recorded p (Shifter.initial settings) history ((Shifter.initial settings).run p history) := by
  induction history using List.reverseRecOn with
  | nil => exact .initial p settings
  | append_singleton history op ih =>
    rw [run_append, run_cons, run_nil]
    cases hop : op.isPress with
    | false => exact ih.after_other hop
    | true =>
      cases op with
      | handle event => exact ih.after_press hop
      | _ => cases hop

end Recorded

/-- **A repetition follows a press of its own key.**  A press that repeats the last key is not
passed on, and sends the key at once in its last form.  The key was pressed before, and every press
since then is one of a control key, of a dual role key, or of a key with forms while the feature is
off, or it was made at the key's own place while the key was tracked. -/
theorem repeat_follows_press (p : Policy) (hp : p.isExtra Keycode.noKey = false)
    (settings : Settings) (history : List Operation) (press : Transition)
    (hdown : press.isDown = true)
    (hrepeats : ((initial settings).run p history).repeats p press = true) :
    let s := (initial settings).run p history
    (s.clearedFor p press).last = press.keycode ∧
      s.handle p press =
        (false, ((s.clearedFor p press).noteModifier press.keycode true).repeatLast p) ∧
      LastPressed p (initial settings) history press.keycode := by
  intro s
  obtain ⟨hlast, hhandle⟩ := handle_of_repeats hdown hrepeats
  have hforms : s.hasForms p press.keycode = true := by
    have h := hrepeats
    simp only [repeats, Bool.and_eq_true] at h
    rw [← hasForms_clearedFor p press]
    exact h.1.1.2
  have hkey : press.keycode ≠ Keycode.noKey := by
    intro hnone
    rw [hnone, hasForms_noKey hp] at hforms
    cases hforms
  have hbecomes : s.MayBecomeLast press.keycode := hlast ▸ last_clearedFor p press s
  exact ⟨hlast, hhandle, (Recorded.run p settings history).of_mayBecomeLast hbecomes hkey⟩

/-- A letter is tapped, then a layer-tap key. -/
def tapsTwo : List Operation :=
  [.handle (.press 4 0 0 0), .handle (.release 4 0 0 10),
    .handle (.press (Keycode.layerTap 1 41) 0 1 20),
    .handle (.release (Keycode.layerTap 1 41) 0 1 25)]

theorem repeat_follows_press_of_tapsTwo :
    ((initial {}).run .stock tapsTwo).repeats .stock (.press 4 0 0 30) = true ∧
      (((initial {}).run .stock tapsTwo).handle .stock (.press 4 0 0 30)).1 = false ∧
      LastPressed .stock (initial {}) tapsTwo 4 := by
  have hrepeats : ((initial {}).run .stock tapsTwo).repeats .stock (.press 4 0 0 30) = true := by
    decide
  obtain ⟨-, hhandle, hpressed⟩ :=
    repeat_follows_press .stock rfl {} tapsTwo (.press 4 0 0 30) rfl hrepeats
  exact ⟨hrepeats, congrArg Prod.fst hhandle, hpressed⟩

/-- The press just before a repetition need not be of the same key. -/
theorem repeat_after_other_key :
    ¬ ∀ (settings : Settings) (history : List Operation) (press : Transition),
      press.isDown = true → ((initial settings).run .stock history).repeats .stock press = true →
      ∀ before other between, history = before ++ .handle other :: between →
        other.isDown = true → (∀ op ∈ between, op.isPress = false) →
        other.keycode = press.keycode := by
  intro h
  have hsame := h {} tapsTwo (.press 4 0 0 30) rfl (by decide) (tapsTwo.take 2)
    (.press (Keycode.layerTap 1 41) 0 1 20) (tapsTwo.drop 3) rfl rfl (by decide)
  exact absurd hsame (by decide)

end Shifter

end LongPress
