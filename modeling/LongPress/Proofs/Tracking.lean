import LongPress.Proofs.Order
import LongPress.Proofs.Outcomes

/-!
# LongPress.Proofs.Tracking

The course that the tracking of dual role keys takes.

`milestones p s op` lists what an operation does to the tracking of keys: it may end the tracking of
one press, in one of six ways, and it may start the tracking of another.  `Course before ms after`
says that milestones can follow one another: only the press that is tracked can end, and then none
is tracked.  Every operation takes such a course from what was tracked to what is tracked
(`course_perform`), so every history does (`course_run`), and two endings never come in a row
(`Course.ended_once`).
-/

namespace LongPress

/-! ## Milestones -/

/-- How the tracking of a press ends. -/
inductive Ending where
  /-- Its time is up, and a scan hands the key off. -/
  | handedOff
  /-- A verdict comes for the key. A hold decides it. -/
  | verdict (v : Verdict)
  /-- Another press interrupts the key, which is held from then on. -/
  | held
  /-- Another press interrupts the key, which is typed. -/
  | typed
  /-- The key is let go before any verdict. -/
  | released
  deriving DecidableEq, Repr

/-- What happens to the tracking of a press. -/
inductive Milestone where
  | started (press : Transition)
  | ended (press : Transition) (how : Ending)
  deriving DecidableEq, Repr

/-- Milestones that lead from the press tracked at first to the one tracked at last. -/
inductive Course : Option Transition → List Milestone → Option Transition → Prop where
  | nil (tracked : Option Transition) : Course tracked [] tracked
  | started {before after : Option Transition} {ms : List Milestone} (press : Transition) :
      Course (some press) ms after → Course before (.started press :: ms) after
  | ended {press : Transition} {after : Option Transition} {ms : List Milestone} (how : Ending) :
      Course none ms after → Course (some press) (.ended press how :: ms) after

namespace Course

variable {a b c : Option Transition} {ms ns : List Milestone} {press : Transition}

theorem of_eq (h : b = a) : Course a [] b := h ▸ .nil a

theorem append (h : Course a ms b) (h' : Course b ns c) : Course a (ms ++ ns) c := by
  induction h with
  | nil => exact h'
  | started press _ ih => exact .started press (ih h')
  | ended how _ ih => exact .ended how (ih h')

theorem split (h : Course a (ms ++ ns) c) : ∃ b, Course a ms b ∧ Course b ns c := by
  induction ms generalizing a with
  | nil => exact ⟨a, .nil a, h⟩
  | cons m ms ih =>
    cases h with
    | started press hrest =>
      obtain ⟨b, hms, hns⟩ := ih hrest
      exact ⟨b, .started press hms, hns⟩
    | ended how hrest =>
      obtain ⟨b, hms, hns⟩ := ih hrest
      exact ⟨b, .ended how hms, hns⟩

/-- Endings alone: there is at most one, and it is that of the press tracked before. -/
theorem of_endings (h : Course a ms b) (hends : ∀ m ∈ ms, ∃ e how, m = .ended e how) :
    ms = [] ∨ ∃ e how, a = some e ∧ ms = [.ended e how] := by
  have hnot (press : Transition) : .started press ∉ ms := by
    intro hmem
    obtain ⟨e, how, heq⟩ := hends _ hmem
    cases heq
  cases h with
  | nil => exact .inl rfl
  | started press _ => exact absurd List.mem_cons_self (hnot press)
  | ended how hrest =>
    -- Nothing is tracked by now, so nothing is left to end.
    cases hrest with
    | nil => exact .inr ⟨_, how, rfl, rfl⟩
    | started press _ =>
      exact absurd (List.mem_cons_of_mem _ List.mem_cons_self) (hnot press)

/-- Where nothing is tracked at first, a press is tracked at last exactly if it started last. -/
theorem getLast?_eq_started (h : Course none ms b) (press : Transition) :
    ms.getLast? = some (.started press) ↔ b = some press := by
  cases List.eq_nil_or_concat ms with
  | inl hnil =>
    subst hnil
    cases h
    simp
  | inr hcase =>
    obtain ⟨first, m, rfl⟩ := hcase
    rw [List.concat_eq_append] at h ⊢
    obtain ⟨_, -, hlast⟩ := h.split
    rw [List.getLast?_concat]
    cases hlast with
    | started e hnil => cases hnil; simp
    | ended how hnil => cases hnil; simp

/-- Between one start and the next there is at most one ending, and it is that of the press which
started. -/
theorem ended_once {before between after : List Milestone}
    (h : Course a (before ++ .started press :: (between ++ after)) c)
    (hends : ∀ m ∈ between, ∃ e how, m = .ended e how) :
    between = [] ∨ ∃ how, between = [.ended press how] := by
  obtain ⟨_, -, hstarted⟩ := h.split
  cases hstarted with
  | started press hrest =>
    obtain ⟨_, hbetween, -⟩ := hrest.split
    refine (hbetween.of_endings hends).imp_right ?_
    rintro ⟨e, how, he, hone⟩
    cases he
    exact ⟨how, hone⟩

/-- An ending directly follows the start of its press. -/
theorem getLast?_before_ended {how : Ending} {before after : List Milestone}
    (h : Course none (before ++ .ended press how :: after) c) :
    before.getLast? = some (.started press) := by
  obtain ⟨_, hbefore, hended⟩ := h.split
  cases hended with
  | ended how _ => exact (hbefore.getLast?_eq_started press).mpr rfl

theorem eq_none_of_ended {how : Ending} (h : Course a [.ended press how] c) : c = none := by
  cases h with
  | ended how hnil =>
    cases hnil
    rfl

end Course

namespace Shifter

variable {p : Policy} {s t : Shifter} {event : Transition}

/-- Whether a press is tracked from now on, once a press before it is out of the way. -/
def startsTracking (p : Policy) (event : Transition) (s : Shifter) : Bool :=
  event.keycode.isDualRole && s.isEnabled && s.settings.has Flag.dualRole &&
    s.hasForms p event.keycode && !s.isRepeat event

/-- A press of a key elsewhere interrupts the tracked key. -/
def interruptEnds (p : Policy) (event : Transition) (s : Shifter) : List Milestone :=
  match s.tracked with
  | none => []
  | some e =>
    if e.switch.samePlace event.switch then []
    else if p.holdsWhenInterrupted e.keycode (s.usuallyHolds e.keycode) then [.ended e .held]
    else [.ended e .typed]

/-- The release of the tracked key, unless an interruption has settled a key of its base. -/
def releaseEnds (event : Transition) (s : Shifter) : List Milestone :=
  if !event.keycode.isDualRole || s.tapped.contains event.keycode.base ||
    s.held.contains event.keycode.base then []
  else (s.trackedAs? event.keycode event.switch).toList.map (.ended · .released)

/-- Whether the time of a tracked press is up. -/
def isOverdue (now : Tick) (press : Transition) (s : Shifter) : Bool :=
  s.settings.trackingTime != 0 && s.settings.trackingTime ≤ now.since press.time

def scanEnds (now : Tick) (s : Shifter) : List Milestone :=
  (s.tracked.filter fun e => s.isOverdue now e).toList.map (.ended · .handedOff)

/-- What an operation does to the tracking of keys. -/
def milestones (p : Policy) (s : Shifter) : Operation → List Milestone
  | .handle event =>
    if event.isDown then
      s.interruptEnds p event ++
        if (s.clearedFor p event).startsTracking p event then [.started event] else []
    else s.releaseEnds event
  | .scan now => s.scanEnds now
  | .verdict keycode v _ switch _ =>
    (s.trackedAs? keycode switch).toList.map (.ended · (.verdict v))
  | _ => []

/-- What a history does to the tracking of keys. -/
def milestonesAll (p : Policy) : Shifter → List Operation → List Milestone
  | _, [] => []
  | s, op :: rest => s.milestones p op ++ milestonesAll p (s.perform p op).2 rest

/-! ## Every operation takes its course -/

theorem perform_press (p : Policy) (s : Shifter) (hdown : event.isDown = true) :
    (s.perform p (.handle event)).2 = (s.handlePress p event).2 := by
  simp [perform, handle, hdown]

theorem perform_release (p : Policy) (s : Shifter) (hup : event.isDown = false) :
    (s.perform p (.handle event)).2 = (s.handleRelease p event).2 := by
  simp [perform, handle, hup]

theorem eq_of_trackedAs? {keycode : Keycode} {switch : Switch} {e : Transition}
    (h : s.trackedAs? keycode switch = some e) : s.tracked = some e :=
  (Option.filter_eq_some_iff.mp h).1

/-- What a press does to the tracked key before it is looked at itself: the milestones, what is sent
and what becomes of the shifter. -/
inductive Clears (p : Policy) (event : Transition) (s : Shifter) :
    List Milestone → List Sending → Shifter → Prop where
  /-- No key elsewhere is tracked. -/
  | nothing (here : ∀ e, s.tracked = some e → e.switch.samePlace event.switch = true) :
      Clears p event s [] (s.settleSends event.time) (s.settle p event.time false)
  | holds {e : Transition} (tracked : s.tracked = some e)
      (elsewhere : e.switch.samePlace event.switch = false)
      (held : p.holdsWhenInterrupted e.keycode (s.usuallyHolds e.keycode) = true) :
      Clears p event s [.ended e .held] (s.settleSends event.time)
        ((s.settle p event.time false).heldFor e)
  | types {e : Transition} (tracked : s.tracked = some e)
      (elsewhere : e.switch.samePlace event.switch = false)
      (held : p.holdsWhenInterrupted e.keycode (s.usuallyHolds e.keycode) = false) :
      Clears p event s [.ended e .typed]
        (s.settleSends event.time ++
          ((s.settle p event.time false).marked e).resolveSends p e event.time)
        (((s.settle p event.time false).marked e).resolve p e event.time)

/-- What a press sends before it is looked at itself. -/
def clearedSends (p : Policy) (event : Transition) (s : Shifter) : List Sending :=
  s.settleSends event.time ++
    if (s.settle p event.time false).isTrackingAt event.switch then []
    else (s.settle p event.time false).interruptSends p event.time

theorem handlePressSends_eq (p : Policy) (event : Transition) (s : Shifter) :
    s.handlePressSends p event =
      s.clearedSends p event ++ (s.clearedFor p event).ownSends p event := by
  rw [clearedSends, List.append_assoc]
  rfl

theorem clears (p : Policy) (event : Transition) (s : Shifter) :
    Clears p event s (s.interruptEnds p event) (s.clearedSends p event)
      (s.clearedFor p event) := by
  have ha := agrees_settle p event.time false s
  have husually (k : Keycode) :
      (s.settle p event.time false).stopTracking.usuallyHolds k = s.usuallyHolds k := by
    simp only [usuallyHolds, stopTracking, ha.settings]
  unfold clearedFor clearedSends isTrackingAt interruptEnds interrupt interruptSends
  dsimp only
  rw [ha.tracked]
  cases ht : s.tracked with
  | none =>
    rw [Option.any_none, if_neg (by simp), if_neg (by simp), List.append_nil]
    exact .nothing (by simp [ht])
  | some e =>
    rw [Option.any_some]
    dsimp only
    cases here : e.switch.samePlace event.switch with
    | true =>
      rw [if_pos rfl, if_pos rfl, if_pos rfl, List.append_nil]
      exact .nothing (by simp [ht, here])
    | false =>
      simp only [Bool.false_eq_true, if_false, husually]
      cases held : p.holdsWhenInterrupted e.keycode (s.usuallyHolds e.keycode) with
      | true =>
        simp only [if_true, List.append_nil]
        exact .holds ht here held
      | false => exact .types ht here held

/-- What comes before a press leaves the settings, the feature's switch and the passing keys as they
are. -/
theorem clearedFor_keeps (p : Policy) (event : Transition) (s : Shifter) :
    (s.clearedFor p event).settings = s.settings ∧
      (s.clearedFor p event).isEnabled = s.isEnabled ∧
      (s.clearedFor p event).passing = s.passing := by
  have hs := agrees_settle p event.time false s
  have hclears := clears p event s
  generalize s.interruptEnds p event = ms at hclears
  generalize s.clearedSends p event = l at hclears
  generalize s.clearedFor p event = t at hclears ⊢
  cases hclears with
  | nothing => exact ⟨hs.settings, hs.isEnabled, hs.passing⟩
  | holds => exact ⟨hs.settings, hs.isEnabled, hs.passing⟩
  | @types e =>
    have hr := agrees_resolve p e event.time ((s.settle p event.time false).marked e)
    exact ⟨hr.settings.trans hs.settings, hr.isEnabled.trans hs.isEnabled,
      hr.passing.trans hs.passing⟩

theorem Clears.course {ms : List Milestone} {l : List Sending} (c : Clears p event s ms l t) :
    Course s.tracked ms t.tracked := by
  cases c with
  | nothing => exact .of_eq (agrees_settle p event.time false s).tracked
  | holds tracked =>
    rw [tracked]
    exact .ended _ (.nil none)
  | @types e tracked =>
    rw [tracked, (agrees_resolve p e event.time _).tracked]
    exact .ended _ (.nil none)

theorem tracked_pressDualRole (dual : event.keycode.isDualRole = true) (s : Shifter) :
    (s.pressDualRole p event).2.tracked =
      if s.startsTracking p event then some event else s.tracked := by
  have hrepeat := (agrees_repeatLast p s).tracked
  unfold pressDualRole startsTracking
  rw [dual]
  cases s.isEnabled <;> cases s.settings.has Flag.dualRole <;> cases s.hasForms p event.keycode <;>
    cases s.isRepeat event <;> simp [hrepeat]

/-- A control key has a single role. -/
theorem isDualRole_of_isControl {k : Keycode} (h : k.isControl = true) : k.isDualRole = false := by
  simp only [Keycode.isControl, Keycode.isDualRole, Keycode.isModTap, Keycode.isLayerTap,
    Keycode.isComposite, Bool.and_eq_true, decide_eq_true_eq] at h ⊢
  grind

theorem isControl_of_isDualRole {k : Keycode} (h : k.isDualRole = true) : k.isControl = false :=
  Bool.eq_false_iff.mpr fun hcontrol => by simp [isDualRole_of_isControl hcontrol] at h

theorem pressOwn_of_isDualRole (p : Policy) (s : Shifter) (dual : event.keycode.isDualRole = true) :
    s.pressOwn p event = s.pressDualRole p event := by
  rw [pressOwn, ofKeycode?_eq_none (isControl_of_isDualRole dual)]
  exact if_pos dual

theorem tracked_pressOwn_eq (p : Policy) (event : Transition) (s : Shifter) :
    (s.pressOwn p event).2.tracked =
      if s.startsTracking p event then some event else s.tracked := by
  cases dual : event.keycode.isDualRole with
  | true =>
    rw [pressOwn_of_isDualRole p s dual]
    exact tracked_pressDualRole dual s
  | false =>
    have hnot : s.startsTracking p event = false := by simp [startsTracking, dual]
    rw [hnot]
    unfold pressOwn
    split
    · next key _ => exact (agrees_control key s).tracked
    · dsimp only
      rw [dual]
      simp only [Bool.false_eq_true, if_false]
      split
      · exact tracked_pressPlain event (s.noteModifier event.keycode true)
      · rfl

theorem course_handlePress (p : Policy) (event : Transition) (s : Shifter) :
    Course s.tracked
      (s.interruptEnds p event ++
        if (s.clearedFor p event).startsTracking p event then [.started event] else [])
      (s.handlePress p event).2.tracked := by
  refine (clears p event s).course.append ?_
  rw [handlePress_eq, tracked_pressOwn_eq]
  split
  · exact .started event (.nil _)
  · exact .nil _

/-- The tracked key of a code at a place ends, if there is one. -/
theorem course_trackedAs? (keycode : Keycode) (switch : Switch) (how : Ending) (s : Shifter) :
    Course s.tracked ((s.trackedAs? keycode switch).toList.map (.ended · how))
      (if (s.trackedAs? keycode switch).isSome then none else s.tracked) := by
  cases h : s.trackedAs? keycode switch with
  | none => exact .nil _
  | some e =>
    rw [eq_of_trackedAs? h]
    exact .ended how (.nil none)

theorem tracked_untracked_eq (event : Transition) (s : Shifter) :
    (s.untracked event).tracked =
      if (s.trackedAs? event.keycode event.switch).isSome then none else s.tracked := by
  unfold untracked
  split <;> rfl

theorem course_handleRelease (p : Policy) (event : Transition) (s : Shifter) :
    Course s.tracked (s.releaseEnds event) (s.handleRelease p event).2.tracked := by
  unfold releaseEnds
  cases hcontrol : event.keycode.isControl with
  | true =>
    rw [isDualRole_of_isControl hcontrol, (handleRelease_control p s hcontrol).1]
    exact .nil _
  | false =>
    obtain ⟨l, r, hr, o⟩ : ∃ l r, r = s.handleRelease p event ∧ ReleaseOutcome p event s l r :=
      ⟨_, _, rfl, releaseOutcome p s hcontrol⟩
    rw [← hr]
    cases o with
    | tapped dual tapped => simp only [tapped, Bool.or_true, Bool.true_or, if_true]; exact .nil _
    | held dual tapped held => simp only [held, Bool.or_true, if_true]; exact .nil _
    | endsDual dual tapped held =>
      have ha := agrees_endKey p event.keycode event.time ((s.dropped event).untracked event)
      simp only [dual, tapped, held, Bool.not_true, Bool.or_self]
      rw [ha.tracked, tracked_untracked_eq]
      exact course_trackedAs? event.keycode event.switch .released s
    | ends single =>
      simp only [single, Bool.not_false, Bool.true_or, if_true]
      exact .of_eq (agrees_endKey p event.keycode event.time (s.unpassed event)).tracked
    | ignores single => simp only [single, Bool.not_false, Bool.true_or, if_true]; exact .nil _

/-- A tracked key is handed off exactly when its time is up. -/
theorem timeToHandOff_eq_zero_iff {now : Tick} :
    s.timeToHandOff now = some 0 ↔ ∃ e, s.tracked = some e ∧ s.isOverdue now e = true := by
  unfold timeToHandOff isOverdue
  by_cases hoff : s.settings.trackingTime = 0
  · simp [hoff]
  · cases s.tracked with
    | none => simp [hoff]
    | some e =>
      by_cases hle : s.settings.trackingTime ≤ now.since e.time
      · have hpassed : s.settings.trackingTime.toNat ≤ (now.since e.time).toNat := hle
        simp [hoff, hle, Nat.sub_eq_zero_of_le hpassed]
      · simp [hoff, hle, toNat_timeLeft_pos hle]

/-- A scan stops tracking an overdue key and hands it off. -/
theorem scanTracked_eq (now : Tick) (s : Shifter) :
    s.scanTracked now =
      match s.tracked.filter (s.isOverdue now) with
      | some e => s.stopTracking.emit (.handOff e.keycode e.switch)
      | none => s := by
  unfold scanTracked
  cases ht : s.tracked with
  | none => rfl
  | some e =>
    have hiff : s.timeToHandOff now = some 0 ↔ s.isOverdue now e = true := by
      simp [timeToHandOff_eq_zero_iff, ht]
    rw [Option.filter_some]
    by_cases hover : s.isOverdue now e = true
    · simp [hiff.mpr hover, hover]
    · simp [mt hiff.mp hover, hover]

/-- What a scan does to the waiting key changes neither the settings nor what is tracked. -/
theorem scanWaiting_keeps (p : Policy) (now : Tick) (s : Shifter) :
    (s.scanWaiting p now).settings = s.settings ∧ (s.scanWaiting p now).tracked = s.tracked := by
  cases scanWaiting_cases p now s with
  | inl hcase =>
    rw [hcase.1]
    exact ⟨rfl, rfl⟩
  | inr hcase =>
    obtain ⟨w, -, hscan, -⟩ := hcase
    have ha := agrees_decideKey p w now true s
    rw [hscan]
    exact ⟨ha.settings, ha.tracked⟩

theorem scan_eq_match (p : Policy) (now : Tick) (s : Shifter) :
    s.scan p now =
      match s.tracked.filter (s.isOverdue now) with
      | some e => (s.scanWaiting p now).stopTracking.emit (.handOff e.keycode e.switch)
      | none => s.scanWaiting p now := by
  obtain ⟨hsettings, htracked⟩ := scanWaiting_keeps p now s
  have hover : (s.scanWaiting p now).isOverdue now = s.isOverdue now := by
    funext e
    simp only [isOverdue, hsettings]
  rw [scan, scanTracked_eq, htracked, hover]

theorem course_scan (p : Policy) (now : Tick) (s : Shifter) :
    Course s.tracked (s.scanEnds now) (s.scan p now).tracked := by
  rw [scan_eq_match, scanEnds]
  cases hover : s.tracked.filter (s.isOverdue now) with
  | none => exact .of_eq (scanWaiting_keeps p now s).2
  | some e =>
    rw [(Option.filter_eq_some_iff.mp hover).1]
    exact .ended .handedOff (.nil none)

theorem course_verdict (p : Policy) (keycode : Keycode) (v : Verdict) (pressTime : Tick)
    (switch : Switch) (now : Tick) (s : Shifter) :
    Course s.tracked ((s.trackedAs? keycode switch).toList.map (.ended · (.verdict v)))
      (s.verdict p keycode v pressTime switch now).2.tracked := by
  unfold verdict
  cases h : s.trackedAs? keycode switch with
  | none => exact .nil _
  | some e =>
    rw [eq_of_trackedAs? h]
    cases v with
    | tap => exact .ended _ (.nil none)
    | hold =>
      dsimp only
      rw [(agrees_resolve p (e.pressedAt pressTime) now s.stopTracking).tracked]
      exact .ended _ (.nil none)

/-- Every operation takes its course. -/
theorem course_perform (p : Policy) (s : Shifter) (op : Operation) :
    Course s.tracked (s.milestones p op) (s.perform p op).2.tracked := by
  cases op with
  | handle event =>
    simp only [perform, milestones, handle]
    split
    · exact course_handlePress p event s
    · exact course_handleRelease p event s
  | scan now => exact course_scan p now s
  | verdict keycode v pressTime switch now =>
    exact course_verdict p keycode v pressTime switch now s
  | enable => exact .of_eq (agrees_control .on s).tracked
  | disable => exact .of_eq (agrees_control .off s).tracked
  | toggle => exact .of_eq (agrees_control .toggle s).tracked
  | _ => exact .nil _

theorem course_run (p : Policy) (s : Shifter) (history : List Operation) :
    Course s.tracked (s.milestonesAll p history) (s.run p history).tracked := by
  induction history generalizing s with
  | nil => exact .nil _
  | cons op rest ih => exact (course_perform p s op).append (ih _)

/-- A milestone of a history is one of an operation, in the state which the operations before it
have led to. -/
theorem mem_milestonesAll_iff {m : Milestone} {history : List Operation} :
    m ∈ s.milestonesAll p history ↔
      ∃ first op rest, history = first ++ op :: rest ∧ m ∈ (s.run p first).milestones p op := by
  induction history generalizing s with
  | nil => simp [milestonesAll]
  | cons op history ih =>
    rw [milestonesAll, List.mem_append, ih]
    constructor
    · rintro (hm | ⟨first, op', rest, rfl, hm⟩)
      · exact ⟨[], op, history, rfl, hm⟩
      · exact ⟨op :: first, op', rest, rfl, hm⟩
    · rintro ⟨first, op', rest, heq, hm⟩
      cases first with
      | nil =>
        cases heq
        exact .inl hm
      | cons op first =>
        cases heq
        exact .inr ⟨first, op', rest, rfl, hm⟩

end Shifter

end LongPress
