import LongPress.Proofs.History
import LongPress.Proofs.Outcomes

/-!
# LongPress.Proofs.Ownership

Whatever the shifter remembers of a key, it remembers of a key that is down.

`Owned p K s` says of each slot and each set of bases whose press it belongs to, where `K` are the
keys that are down: a single role key with a shifted form may wait or pass, a dual role key may be
tracked, or settled by an interruption in one of two ways.  A move that comes at its time, and every
other operation but the loading of settings, keeps this (`Owned.perform`).
-/

namespace LongPress.Shifter

/-! ## Which keys have forms -/

variable {p : Policy} {K : Keys} {s t : Shifter} {event e : Transition} {b : UInt8}

/-- Only the switches tell whether a key has a shifted form. -/
theorem hasForms_congr (h : t.settings.switches = s.settings.switches) (k : Keycode) :
    t.hasForms p k = s.hasForms p k := by
  have hhas : t.settings.has = s.settings.has := by
    funext mask
    simp only [Settings.has, h]
  have hadmits : t.settings.admits = s.settings.admits := by
    funext code
    simp only [Settings.admits, hhas]
  simp only [hasForms, hadmits, hhas]

theorem switches_setTimeout (s : Shifter) (ms : UInt16) :
    (s.setTimeout ms).settings.switches = s.settings.switches :=
  Slot.get_set_of_ne (by decide) _ _

theorem switches_control (key : ControlKey) (s : Shifter) :
    (s.control key).settings.switches = s.settings.switches := by
  cases key with
  | shorter => exact switches_setTimeout s _
  | longer => exact switches_setTimeout s _
  | report => rw [control, (agrees_typeText _ s).settings]
  | on => rw [control, (agrees_enable s).settings]
  | off => rw [control, (agrees_disable s).settings]
  | toggle => rw [control, (agrees_toggle s).settings]

/-! ## Owners -/

/-- Each slot and each set speaks of keys that are down. -/
structure Owned (p : Policy) (K : Keys) (s : Shifter) : Prop where
  waiting {e : Transition} : s.waiting = some e →
    K e.keycode.base = some e ∧ e.keycode.isDualRole = false ∧ s.hasForms p e.keycode = true
  tracked {e : Transition} : s.tracked = some e →
    K e.keycode.base = some e ∧ e.keycode.isDualRole = true ∧
      s.tapped.contains e.keycode.base = false ∧ s.held.contains e.keycode.base = false
  passing {b : UInt8} : s.passing.contains b = true →
    ∃ e, K b = some e ∧ e.keycode.isDualRole = false ∧ s.hasForms p e.keycode = true
  tapped {b : UInt8} : s.tapped.contains b = true →
    ∃ e, K b = some e ∧ e.keycode.isDualRole = true ∧ s.held.contains b = false
  held {b : UInt8} : s.held.contains b = true →
    ∃ e, K b = some e ∧ e.keycode.isDualRole = true

theorem owned_initial (p : Policy) (settings : Settings) : Owned p .up (initial settings) where
  waiting := nofun
  tracked := nofun
  passing h := by simp [initial] at h
  tapped h := by simp [initial] at h
  held h := by simp [initial] at h

namespace Owned

/-- A slot may be emptied and a set may lose bases. -/
theorem mono (h : Owned p K s) (switches : t.settings.switches = s.settings.switches)
    (waiting : ∀ e, t.waiting = some e → s.waiting = some e)
    (tracked : ∀ e, t.tracked = some e → s.tracked = some e)
    (passing : ∀ b, t.passing.contains b = true → s.passing.contains b = true)
    (tapped : ∀ b, t.tapped.contains b = true → s.tapped.contains b = true)
    (held : ∀ b, t.held.contains b = true → s.held.contains b = true) : Owned p K t where
  waiting hw := by
    rw [hasForms_congr switches]
    exact h.waiting (waiting _ hw)
  tracked ht := by
    obtain ⟨hK, hdual, htapped, hheld⟩ := h.tracked (tracked _ ht)
    exact ⟨hK, hdual, Bool.eq_false_iff.mpr fun hb => by simp [tapped _ hb] at htapped,
      Bool.eq_false_iff.mpr fun hb => by simp [held _ hb] at hheld⟩
  passing hb := by
    obtain ⟨e, he, hsingle, hforms⟩ := h.passing (passing _ hb)
    exact ⟨e, he, hsingle, by rwa [hasForms_congr switches]⟩
  tapped hb := by
    obtain ⟨e, he, hdual, hheld⟩ := h.tapped (tapped _ hb)
    exact ⟨e, he, hdual, Bool.eq_false_iff.mpr fun hb' => by simp [held _ hb'] at hheld⟩
  held hb := h.held (held _ hb)

/-- Only the slots, the sets and the switches are asked. -/
theorem congr (h : Owned p K s) (switches : t.settings.switches = s.settings.switches)
    (waiting : t.waiting = s.waiting) (tracked : t.tracked = s.tracked)
    (passing : t.passing = s.passing) (tapped : t.tapped = s.tapped) (held : t.held = s.held) :
    Owned p K t :=
  h.mono switches (fun _ he => waiting ▸ he) (fun _ he => tracked ▸ he)
    (fun _ hb => passing ▸ hb) (fun _ hb => tapped ▸ hb) (fun _ hb => held ▸ hb)

theorem of_agrees (h : Owned p K s) (ha : Agrees s t) : Owned p K t :=
  h.congr (by rw [ha.settings]) ha.waiting ha.tracked ha.passing ha.tapped ha.held

/-- A base that is up is in no slot and in no set. -/
theorem not_of_up (h : Owned p K s) (hup : K b = none) :
    s.passing.contains b = false ∧ s.tapped.contains b = false ∧ s.held.contains b = false := by
  refine ⟨?_, ?_, ?_⟩
  · refine Bool.eq_false_iff.mpr fun hb => ?_
    obtain ⟨e, he, -⟩ := h.passing hb
    simp [hup] at he
  · refine Bool.eq_false_iff.mpr fun hb => ?_
    obtain ⟨e, he, -⟩ := h.tapped hb
    simp [hup] at he
  · refine Bool.eq_false_iff.mpr fun hb => ?_
    obtain ⟨e, he, -⟩ := h.held hb
    simp [hup] at he

/-- The key that waits and the key that is tracked have two bases. -/
theorem base_ne (h : Owned p K s) {w e : Transition} (hw : s.waiting = some w)
    (ht : s.tracked = some e) : w.keycode.base ≠ e.keycode.base := by
  intro hb
  obtain ⟨hKw, hsingle, -⟩ := h.waiting hw
  obtain ⟨hKe, hdual, -⟩ := h.tracked ht
  rw [hb, hKe] at hKw
  cases hKw
  simp [hdual] at hsingle

/-! ### Keys that go down or up -/

/-- A key that goes down leaves what is said of the others. -/
theorem press (h : Owned p K s) (hup : K event.keycode.base = none) :
    Owned p (K.move event) s where
  waiting hw := ⟨Keys.move_of_eq_some hup (h.waiting hw).1, (h.waiting hw).2⟩
  tracked ht := ⟨Keys.move_of_eq_some hup (h.tracked ht).1, (h.tracked ht).2⟩
  passing hb := by
    obtain ⟨e, he, hrest⟩ := h.passing hb
    exact ⟨e, Keys.move_of_eq_some hup he, hrest⟩
  tapped hb := by
    obtain ⟨e, he, hrest⟩ := h.tapped hb
    exact ⟨e, Keys.move_of_eq_some hup he, hrest⟩
  held hb := by
    obtain ⟨e, he, hrest⟩ := h.held hb
    exact ⟨e, Keys.move_of_eq_some hup he, hrest⟩

/-- A key that goes up may be forgotten once nothing is said of it. -/
theorem forget (h : Owned p K s) {press : Transition} (hK : K event.keycode.base = some press)
    (waiting : s.waiting ≠ some press) (tracked : s.tracked ≠ some press)
    (passing : s.passing.contains event.keycode.base = false)
    (tapped : s.tapped.contains event.keycode.base = false)
    (held : s.held.contains event.keycode.base = false) : Owned p (K.move event) s where
  waiting {e} hw := by
    have hne : e.keycode.base ≠ event.keycode.base := by
      intro hb
      have he := (h.waiting hw).1
      rw [hb, hK] at he
      exact waiting (hw.trans he.symm)
    rw [Keys.move_of_ne K hne]
    exact h.waiting hw
  tracked {e} ht := by
    have hne : e.keycode.base ≠ event.keycode.base := by
      intro hb
      have he := (h.tracked ht).1
      rw [hb, hK] at he
      exact tracked (ht.trans he.symm)
    rw [Keys.move_of_ne K hne]
    exact h.tracked ht
  passing hb := by
    rw [Keys.move_of_ne K (by rintro rfl; simp [passing] at hb)]
    exact h.passing hb
  tapped hb := by
    rw [Keys.move_of_ne K (by rintro rfl; simp [tapped] at hb)]
    exact h.tapped hb
  held hb := by
    rw [Keys.move_of_ne K (by rintro rfl; simp [held] at hb)]
    exact h.held hb

/-- A dual role key neither waits nor passes. -/
theorem not_of_dualRole (h : Owned p K s) {press : Transition} (hK : K b = some press)
    (hdual : press.keycode.isDualRole = true) :
    s.waiting ≠ some press ∧ s.passing.contains b = false := by
  refine ⟨fun hw => ?_, Bool.eq_false_iff.mpr fun hb => ?_⟩
  · have hsingle := (h.waiting hw).2.1
    simp [hdual] at hsingle
  · obtain ⟨e, he, hsingle, -⟩ := h.passing hb
    cases hK.symm.trans he
    simp [hdual] at hsingle

/-- A single role key is neither tracked nor settled by an interruption. -/
theorem not_of_single (h : Owned p K s) {press : Transition} (hK : K b = some press)
    (hsingle : press.keycode.isDualRole = false) :
    s.tracked ≠ some press ∧ s.tapped.contains b = false ∧ s.held.contains b = false := by
  refine ⟨fun ht => ?_, Bool.eq_false_iff.mpr fun hb => ?_, Bool.eq_false_iff.mpr fun hb => ?_⟩
  · have hdual := (h.tracked ht).2.1
    simp [hsingle] at hdual
  · obtain ⟨e, he, hdual, -⟩ := h.tapped hb
    cases hK.symm.trans he
    simp [hsingle] at hdual
  · obtain ⟨e, he, hdual⟩ := h.held hb
    cases hK.symm.trans he
    simp [hsingle] at hdual

/-- A key without a shifted form neither waits nor passes. -/
theorem not_of_plain (h : Owned p K s) {press : Transition} (hK : K b = some press)
    (hforms : s.hasForms p press.keycode = false) :
    s.waiting ≠ some press ∧ s.passing.contains b = false := by
  refine ⟨fun hw => ?_, Bool.eq_false_iff.mpr fun hb => ?_⟩
  · have hwaits := (h.waiting hw).2.2
    simp [hforms] at hwaits
  · obtain ⟨e, he, -, hpasses⟩ := h.passing hb
    cases hK.symm.trans he
    simp [hforms] at hpasses

/-- A key that an interruption has settled is tracked no more. -/
theorem not_tracked (h : Owned p K s) {press : Transition}
    (hsettled : s.tapped.contains press.keycode.base = true ∨
      s.held.contains press.keycode.base = true) : s.tracked ≠ some press := by
  intro ht
  obtain ⟨-, -, htapped, hheld⟩ := h.tracked ht
  simp [htapped, hheld] at hsettled

/-! ### Decisions -/

theorem endWait (h : Owned p K s) : Owned p K { s with waiting := none } :=
  h.mono rfl nofun (fun _ => id) (fun _ => id) (fun _ => id) fun _ => id

theorem stopTracking (h : Owned p K s) : Owned p K s.stopTracking :=
  h.mono rfl (fun _ => id) nofun (fun _ => id) (fun _ => id) fun _ => id

theorem decideKey (h : Owned p K s) (event : Transition) (now : Tick) (byScan : Bool) :
    Owned p K (s.decideKey p event now byScan) := by
  have ha := agrees_decideKey p event now byScan s
  exact h.endWait.congr (by rw [ha.settings]) ha.waiting ha.tracked ha.passing ha.tapped ha.held

theorem settle (h : Owned p K s) (now : Tick) (byScan : Bool) :
    Owned p K (s.settle p now byScan) := by
  have ha := agrees_settle p now byScan s
  exact h.endWait.congr (by rw [ha.settings]) ha.waiting ha.tracked ha.passing ha.tapped ha.held

theorem resolve (h : Owned p K s) (event : Transition) (now : Tick) :
    Owned p K (s.resolve p event now) := by
  have ha := agrees_resolve p event now s
  exact h.endWait.congr (by rw [ha.settings]) ha.waiting ha.tracked ha.passing ha.tapped ha.held

theorem marked (h : Owned p K s) (ht : s.tracked = some e) : Owned p K (s.marked e) := by
  obtain ⟨hK, hdual, -, hheld⟩ := h.tracked ht
  refine ⟨h.waiting, nofun, h.passing, fun {b} hb => ?_, h.held⟩
  rw [Shifter.marked, CodeSet.contains_add, Bool.or_eq_true, decide_eq_true_eq] at hb
  cases hb with
  | inl heq =>
    subst heq
    exact ⟨e, hK, hdual, hheld⟩
  | inr hb => exact h.tapped hb

theorem heldFor (h : Owned p K s) (ht : s.tracked = some e) : Owned p K (s.heldFor e) := by
  obtain ⟨hK, hdual, htapped, -⟩ := h.tracked ht
  refine ⟨h.waiting, nofun, h.passing, fun {b} hb => ?_, fun {b} hb => ?_⟩
  · obtain ⟨x, hx, hd, hnot⟩ := h.tapped hb
    have hne : b ≠ e.keycode.base := by
      rintro rfl
      simp [Shifter.heldFor, Shifter.stopTracking, htapped] at hb
    exact ⟨x, hx, hd, by simpa [Shifter.heldFor, hne] using hnot⟩
  · rw [Shifter.heldFor, CodeSet.contains_add, Bool.or_eq_true, decide_eq_true_eq] at hb
    cases hb with
    | inl heq =>
      subst heq
      exact ⟨e, hK, hdual⟩
    | inr hb => exact h.held hb

/-- An interrupted key is tracked no more; it is held or typed. -/
theorem interrupted (h : Owned p K s) {l : List Sending} {now : Tick}
    (o : InterruptOutcome p now s l t) : Owned p K t := by
  cases o with
  | nothing => exact h
  | holds tracked => exact h.heldFor tracked
  | types tracked => exact (h.marked tracked).resolve _ now

/-! ### Presses -/

theorem clearedFor (h : Owned p K s) (event : Transition) : Owned p K (s.clearedFor p event) := by
  unfold Shifter.clearedFor
  dsimp only
  split
  · exact h.settle event.time false
  · exact (h.settle event.time false).interrupted (interruptOutcome p event.time _)

theorem control (h : Owned p K s) (key : ControlKey) : Owned p K (s.control key) := by
  have ha := agrees_control key s
  exact h.congr (switches_control key s) ha.waiting ha.tracked ha.passing ha.tapped ha.held

/-- A press may begin to wait if its key is down and has forms. -/
theorem begin (h : Owned p K s) (hK : K event.keycode.base = some event)
    (hsingle : event.keycode.isDualRole = false) (hforms : s.hasForms p event.keycode = true) :
    Owned p K (s.begin event) := by
  have ha := agrees_begin event s
  have hbegun : Owned p K { s with waiting := some event } := by
    refine ⟨fun hw => ?_, h.tracked, h.passing, h.tapped, h.held⟩
    cases hw
    exact ⟨hK, hsingle, hforms⟩
  exact hbegun.congr (by rw [ha.settings]) ha.waiting ha.tracked ha.passing ha.tapped ha.held

theorem repeatLast (h : Owned p K s) : Owned p K (s.repeatLast p) :=
  h.of_agrees (agrees_repeatLast p s)

/-- A press whose key was up, once what waited is settled. -/
theorem pressed (h : Owned p K s) {l : List Sending} {r : Bool × Shifter}
    (o : PressOutcome p event s l r) (hup : K event.keycode.base = none)
    (hdown : event.isDown = true) : Owned p (K.move event) r.2 := by
  obtain ⟨-, htapped, hheld⟩ := h.not_of_up hup
  have hpressed := h.press hup
  have hK := K.move_press hdown
  have hnoted := hpressed.of_agrees (agrees_noteModifier event.keycode true s)
  cases o with
  | leaves => exact hpressed
  | repeatsDual => exact hpressed.repeatLast
  | tracks dual =>
    refine ⟨hpressed.waiting, fun ht => ?_, hpressed.passing, hpressed.tapped, hpressed.held⟩
    cases ht
    exact ⟨hK, dual, htapped, hheld⟩
  | ignores => exact hnoted.congr rfl rfl rfl rfl rfl rfl
  | passes single forms =>
    refine ⟨hnoted.waiting, hnoted.tracked, fun {b} hb => ?_, hnoted.tapped, hnoted.held⟩
    rw [CodeSet.contains_add, Bool.or_eq_true, decide_eq_true_eq] at hb
    cases hb with
    | inl heq =>
      subst heq
      exact ⟨event, hK, single, forms⟩
    | inr hb => exact hnoted.passing hb
  | bypasses =>
    have hforgotten : Owned p (K.move event) (s.forgotten event) :=
      hnoted.congr rfl rfl rfl rfl rfl rfl
    exact hforgotten.of_agrees (agrees_keyDown p _ event.keycode false)
  | repeats => exact hnoted.repeatLast
  | begins single forms => exact hnoted.begin hK single forms

theorem handlePress (h : Owned p K s) (hup : K event.keycode.base = none)
    (hdown : event.isDown = true) (hcontrol : event.keycode.isControl = false) :
    Owned p (K.move event) (s.handlePress p event).2 := by
  rw [handlePress_eq]
  exact (h.clearedFor event).pressed (pressOutcome p _ hcontrol) hup hdown

/-- A control key that goes down. -/
theorem handlePress_control (h : Owned p K s) (hcontrol : event.keycode.isControl = true) :
    Owned p K (s.handlePress p event).2 := by
  obtain ⟨key, hkey, -⟩ := pressOwn_control p (s.clearedFor p event) hcontrol
  rw [handlePress_eq, hkey]
  exact (h.clearedFor event).control key

/-! ### Releases -/

theorem endKey (h : Owned p K s) (keycode : Keycode) (now : Tick) :
    Owned p K (s.endKey p keycode now).2 := by
  have ha := agrees_endKey p keycode now s
  exact h.mono (by rw [ha.settings]) (fun _ he => (waiting_endKey he).1)
    (fun _ he => ha.tracked ▸ he) (fun _ hb => ha.passing ▸ hb) (fun _ hb => ha.tapped ▸ hb)
    fun _ hb => ha.held ▸ hb

theorem untracked (h : Owned p K s) (event : Transition) : Owned p K (s.untracked event) := by
  unfold Shifter.untracked
  split
  · exact h.stopTracking
  · exact h

theorem unpassed (h : Owned p K s) (event : Transition) : Owned p K (s.unpassed event) := by
  refine h.mono rfl (fun _ => id) (fun _ => id) (fun b hb => ?_) (fun _ => id) fun _ => id
  rw [Shifter.unpassed, CodeSet.contains_remove, Bool.and_eq_true] at hb
  exact hb.2

/-- The end of a key that is not tracked leaves no trace of it if the sets have none. -/
theorem forget_endKey (h : Owned p K s) {press : Transition}
    (hK : K event.keycode.base = some press) (hkey : event.keycode = press.keycode)
    (tracked : s.tracked ≠ some press) (passing : s.passing.contains event.keycode.base = false)
    (tapped : s.tapped.contains event.keycode.base = false)
    (held : s.held.contains event.keycode.base = false) :
    Owned p (K.move event) (s.endKey p event.keycode event.time).2 := by
  have ha := agrees_endKey p event.keycode event.time s
  have hwaiting : (s.endKey p event.keycode event.time).2.waiting ≠ some press :=
    fun hw => (waiting_endKey hw).2 hkey.symm
  exact (h.endKey event.keycode event.time).forget hK hwaiting (by rwa [ha.tracked])
    (by rwa [ha.passing]) (by rwa [ha.tapped]) (by rwa [ha.held])

/-- The release of a key that an interruption has typed. -/
theorem forget_tapped (h : Owned p K s) {press : Transition}
    (hK : K event.keycode.base = some press) (hkey : event.keycode = press.keycode)
    (dual : event.keycode.isDualRole = true)
    (tapped : s.tapped.contains event.keycode.base = true) :
    Owned p (K.move event) { s with tapped := (s.tapped.remove event.keycode.base).2 } := by
  obtain ⟨hwaiting, hpassing⟩ := h.not_of_dualRole hK (hkey ▸ dual)
  have htracked := h.not_tracked (.inl (hkey ▸ tapped))
  obtain ⟨_, _, _, hheld⟩ := h.tapped tapped
  have hremoved : Owned p K { s with tapped := (s.tapped.remove event.keycode.base).2 } := by
    refine h.mono rfl (fun _ => id) (fun _ => id) (fun _ => id) (fun b hb => ?_) fun _ => id
    rw [CodeSet.contains_remove, Bool.and_eq_true] at hb
    exact hb.2
  exact hremoved.forget hK hwaiting htracked hpassing (by simp) hheld

/-- The release of a key that an interruption has held. -/
theorem forget_held (h : Owned p K s) {press : Transition}
    (hK : K event.keycode.base = some press) (hkey : event.keycode = press.keycode)
    (dual : event.keycode.isDualRole = true)
    (tapped : s.tapped.contains event.keycode.base = false)
    (held : s.held.contains event.keycode.base = true) :
    Owned p (K.move event) { s with held := (s.held.remove event.keycode.base).2 } := by
  obtain ⟨hwaiting, hpassing⟩ := h.not_of_dualRole hK (hkey ▸ dual)
  have htracked := h.not_tracked (.inr (hkey ▸ held))
  have hremoved : Owned p K { s with held := (s.held.remove event.keycode.base).2 } := by
    refine h.mono rfl (fun _ => id) (fun _ => id) (fun _ => id) (fun _ => id) fun b hb => ?_
    rw [CodeSet.contains_remove, Bool.and_eq_true] at hb
    exact hb.2
  exact hremoved.forget hK hwaiting htracked hpassing tapped (by simp)

/-- A release that finds its key down. -/
theorem released (h : Owned p K s) {l : List Sending} {r : Bool × Shifter}
    (o : ReleaseOutcome p event s l r) {press : Transition}
    (hK : K event.keycode.base = some press) (hkey : event.keycode = press.keycode)
    (hplace : press.switch.samePlace event.switch = true) : Owned p (K.move event) r.2 := by
  have hdropped := h.of_agrees (agrees_dropped event s)
  have hnoted := hdropped.of_agrees (agrees_noteModifier event.keycode false _)
  cases o with
  | tapped dual tapped => exact hdropped.forget_tapped hK hkey dual tapped
  | held dual tapped held =>
    exact (hdropped.forget_held hK hkey dual tapped held).congr rfl rfl rfl rfl rfl rfl
  | endsDual dual tapped held =>
    obtain ⟨-, hpassing⟩ := h.not_of_dualRole hK (hkey ▸ dual)
    have htracked := tracked_untracked (s.dropped event) hkey hplace
    have heq := untracked_eq event (s.dropped event)
    refine (hdropped.untracked event).forget_endKey hK hkey htracked ?_ ?_ ?_
    · rw [heq]
      exact hpassing
    · rw [heq]
      exact tapped
    · rw [heq]
      exact held
  | ends single forms =>
    obtain ⟨htracked, htapped, hheld⟩ := h.not_of_single hK (hkey ▸ single)
    have hpassing : (s.unpassed event).passing.contains event.keycode.base = false := by
      simp [Shifter.unpassed]
    exact (h.unpassed event).forget_endKey hK hkey htracked hpassing htapped hheld
  | ignores single forms =>
    obtain ⟨htracked, htapped, hheld⟩ := h.not_of_single hK (hkey ▸ single)
    obtain ⟨hwaiting, hpassing⟩ := h.not_of_plain hK (hkey ▸ forms)
    exact hnoted.forget hK hwaiting htracked hpassing htapped hheld

theorem handleRelease (h : Owned p K s) {press : Transition}
    (hK : K event.keycode.base = some press) (hkey : event.keycode = press.keycode)
    (hplace : press.switch.samePlace event.switch = true)
    (hcontrol : event.keycode.isControl = false) :
    Owned p (K.move event) (s.handleRelease p event).2 :=
  h.released (releaseOutcome p s hcontrol) hK hkey hplace

/-! ### Every operation -/

/-- A move that comes at its time. -/
theorem handle (h : Owned p K s) (hadmits : K.admits event = true)
    (hcontrol : event.keycode.isControl = false) :
    Owned p (K.move event) (s.handle p event).2 := by
  unfold Shifter.handle
  split
  · next hdown => exact h.handlePress (Keys.eq_none_of_admits hadmits hdown) hdown hcontrol
  · next hnot =>
    obtain ⟨press, hK, hkey, hplace⟩ :=
      Keys.eq_some_of_admits hadmits (Bool.eq_false_iff.mpr hnot)
    exact h.handleRelease hK hkey hplace hcontrol

/-- A control key moves none of the keys that are counted. -/
theorem handle_control (h : Owned p K s) (hcontrol : event.keycode.isControl = true) :
    Owned p K (s.handle p event).2 := by
  unfold Shifter.handle
  split
  · exact h.handlePress_control hcontrol
  · rw [(handleRelease_control p s hcontrol).1]
    exact h

theorem scan (h : Owned p K s) (now : Tick) : Owned p K (s.scan p now) :=
  scan_keeps h (fun e _ => h.decideKey e now true)
    fun _ _ hkept _ => hkept.stopTracking.of_agrees (agrees_emit _ _)

theorem verdict (h : Owned p K s) (keycode : Keycode) (v : Verdict) (pressTime : Tick)
    (switch : Switch) (now : Tick) : Owned p K (s.verdict p keycode v pressTime switch now).2 := by
  unfold Shifter.verdict
  split
  · exact h
  · cases v with
    | tap => exact h.stopTracking
    | hold => exact h.stopTracking.resolve _ now

/-- Every operation that comes at its time and loads no settings. -/
theorem perform (h : Owned p K s) {op : Operation} (hload : ∀ image, op ≠ .loadSettings image)
    (hadmits : op.move?.all K.admits = true) : Owned p (K.perform op) (s.perform p op).2 := by
  cases op with
  | handle event =>
    cases hcontrol : event.keycode.isControl with
    | true =>
      rw [show K.perform (.handle event) = K by simp [Keys.perform, Operation.move?, hcontrol]]
      exact h.handle_control hcontrol
    | false =>
      rw [Operation.move?_handle hcontrol] at hadmits
      rw [Keys.perform_handle hcontrol]
      exact h.handle hadmits hcontrol
  | scan now => exact h.scan now
  | verdict keycode v pressTime switch now => exact h.verdict keycode v pressTime switch now
  | setModifiers bits => exact h.congr rfl rfl rfl rfl rfl rfl
  | setOneShot bits => exact h.congr rfl rfl rfl rfl rfl rfl
  | enable => exact h.control .on
  | disable => exact h.control .off
  | toggle => exact h.control .toggle
  | setTimeout ms => exact h.congr (switches_setTimeout s _) rfl rfl rfl rfl rfl
  | lengthenTimeout ms => exact h.congr (switches_setTimeout s _) rfl rfl rfl rfl rfl
  | shortenTimeout ms => exact h.congr (switches_setTimeout s _) rfl rfl rfl rfl rfl
  | loadSettings image => exact absurd rfl (hload image)

end Owned

end LongPress.Shifter
