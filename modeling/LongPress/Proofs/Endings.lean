import LongPress.Proofs.Carried
import LongPress.Proofs.HandOff

/-!
# LongPress.Proofs.Endings

The tracking of a dual role key ends at most once, and at its deadline by a hand-off.

`Ending.Seen` says for each of the six endings what an operation shows that brings it about: a
report, a reply, what is sent, what the shifter remembers afterwards.  An operation has an ending
among its milestones exactly if the press is tracked and this is seen (`mem_milestones_iff`), so
that the course of a history (`Course`) tells what can be observed of it.

* `tracking_ends_once` — the main statement.
-/

namespace LongPress

/-! ## What is seen of an ending -/

/-- Whether an operation is the press of a key at another place. -/
def Operation.Interrupts (op : Operation) (press : Transition) : Prop :=
  ∃ event, op = .handle event ∧ event.isDown = true ∧
    press.switch.samePlace event.switch = false

/-- What is seen of an operation that ends the tracking of a press. -/
def Ending.Seen (p : Policy) (s : Shifter) (op : Operation) (press : Transition) : Ending → Prop
  | .handedOff =>
    ∃ now, op = .scan now ∧ s.settings.trackingTime ≠ 0 ∧
      s.settings.trackingTime ≤ now.since press.time ∧
      handOffs (s.reported p op) = [(press.keycode, press.switch)]
  | .verdict .tap =>
    ∃ pressTime switch now, op = .verdict press.keycode .tap pressTime switch now ∧
      press.switch.samePlace switch = true ∧ s.perform p op = (.usual true, s.stopTracking)
  | .verdict .hold =>
    ∃ pressTime switch now, op = .verdict press.keycode .hold pressTime switch now ∧
      press.switch.samePlace switch = true ∧ (s.perform p op).1 = .usual false ∧
      ∃ form, .key press.keycode form ∈ s.sends p op
  | .held =>
    op.Interrupts press ∧
      p.holdsWhenInterrupted press.keycode (s.usuallyHolds press.keycode) = true ∧
      (s.perform p op).2.held.contains press.keycode.base = true
  | .typed =>
    op.Interrupts press ∧
      p.holdsWhenInterrupted press.keycode (s.usuallyHolds press.keycode) = false ∧
      (s.perform p op).2.tapped.contains press.keycode.base = true ∧
      ∃ form, .key press.keycode form ∈ s.sends p op
  | .released =>
    ∃ event, op = .handle event ∧ event.isDown = false ∧ event.keycode = press.keycode ∧
      press.switch.samePlace event.switch = true ∧ (s.perform p op).2.tracked = none

namespace Shifter

variable {p : Policy} {s t : Shifter} {event press : Transition} {how : Ending} {b : UInt8}

/-! ## Endings and what is seen of them -/

theorem isOverdue_iff {now : Tick} :
    s.isOverdue now press = true ↔
      s.settings.trackingTime ≠ 0 ∧ s.settings.trackingTime ≤ now.since press.time := by
  simp [isOverdue]

theorem mem_ended_iff {o : Option Transition} {how' : Ending} :
    .ended press how ∈ o.toList.map (Milestone.ended · how') ↔ o = some press ∧ how = how' := by
  cases o with
  | none => simp
  | some e => simp [eq_comm]

theorem trackedAs?_eq_some_iff {keycode : Keycode} {switch : Switch} :
    s.trackedAs? keycode switch = some press ↔
      s.tracked = some press ∧ press.keycode = keycode ∧
        press.switch.samePlace switch = true := by
  simp [trackedAs?, Option.filter_eq_some_iff]

theorem mem_scanEnds_iff {now : Tick} :
    .ended press how ∈ s.scanEnds now ↔
      s.tracked = some press ∧ s.isOverdue now press = true ∧ how = .handedOff := by
  rw [scanEnds, mem_ended_iff, Option.filter_eq_some_iff, and_assoc]

theorem mem_interruptEnds_iff :
    .ended press how ∈ s.interruptEnds p event ↔
      s.tracked = some press ∧ press.switch.samePlace event.switch = false ∧
        how = if p.holdsWhenInterrupted press.keycode (s.usuallyHolds press.keycode) then .held
          else .typed := by
  unfold interruptEnds
  cases s.tracked with
  | none => simp
  | some e =>
    dsimp only
    split
    · next here =>
      simp only [List.not_mem_nil, Option.some.injEq, false_iff]
      rintro ⟨rfl, hplace, -⟩
      simp [here] at hplace
    · next elsewhere =>
      split <;> grind

/-- A key pressed for its own sake settles no other. -/
theorem settled_handlePress (p : Policy) (event : Transition) (s : Shifter) :
    (s.handlePress p event).2.tapped = (s.clearedFor p event).tapped ∧
      (s.handlePress p event).2.held = (s.clearedFor p event).held := by
  rw [handlePress_eq]
  cases hcontrol : event.keycode.isControl with
  | true =>
    obtain ⟨key, hkey, -⟩ := pressOwn_control p (s.clearedFor p event) hcontrol
    have ha := agrees_control key (s.clearedFor p event)
    rw [hkey]
    exact ⟨ha.tapped, ha.held⟩
  | false =>
    obtain ⟨-, htapped, hheld⟩ := (pressOutcome p (s.clearedFor p event) hcontrol).keeps
    exact ⟨htapped, hheld⟩

/-- The keys that interruptions have typed. -/
theorem Clears.tapped_iff {ms : List Milestone} {l : List Sending} (c : Clears p event s ms l t) :
    t.tapped.contains b = true ↔
      s.tapped.contains b = true ∨ ∃ e, .ended e .typed ∈ ms ∧ e.keycode.base = b := by
  have hsettled := (agrees_settle p event.time false s).tapped
  cases c with
  | nothing => simp [hsettled]
  | holds => simp [heldFor, stopTracking, hsettled]
  | @types e =>
    rw [(agrees_resolve p e event.time _).tapped]
    simp [marked, hsettled, Or.comm, @eq_comm _ b]

/-- The keys that interruptions hold. -/
theorem Clears.held_iff {ms : List Milestone} {l : List Sending} (c : Clears p event s ms l t) :
    t.held.contains b = true ↔
      s.held.contains b = true ∨ ∃ e, .ended e .held ∈ ms ∧ e.keycode.base = b := by
  have hsettled := (agrees_settle p event.time false s).held
  cases c with
  | nothing => simp [hsettled]
  | @holds e => simp [heldFor, stopTracking, hsettled, Or.comm, @eq_comm _ b]
  | @types e =>
    rw [(agrees_resolve p e event.time _).held]
    simp [marked, stopTracking, hsettled]

/-- An interrupted key that is typed is sent. -/
theorem Clears.sent {ms : List Milestone} {l : List Sending} (c : Clears p event s ms l t)
    (h : .ended press .typed ∈ ms) : ∃ form, .key press.keycode form ∈ l := by
  cases c with
  | nothing => cases h
  | holds => simp at h
  | @types e =>
    simp only [List.mem_singleton, Milestone.ended.injEq, and_true] at h
    subst h
    obtain ⟨form, hform⟩ := resolveSends_eq p press event.time
      ((s.settle p event.time false).marked press)
    exact ⟨form, by simp [hform]⟩

/-- A press ends the tracking of a key elsewhere only; what starts with it is no ending. -/
theorem mem_handle_press_iff (hdown : event.isDown = true) :
    .ended press how ∈ s.milestones p (.handle event) ↔
      .ended press how ∈ s.interruptEnds p event := by
  simp only [milestones, hdown, if_true, List.mem_append, or_iff_left_iff_imp]
  intro h
  split at h
  · simp at h
  · cases h

/-- A press elsewhere ends the tracking of a key as the policy has it. -/
theorem ended_of_interrupts {op : Operation} (ht : s.tracked = some press)
    (hinterrupts : op.Interrupts press)
    (hhow : how = if p.holdsWhenInterrupted press.keycode (s.usuallyHolds press.keycode) then .held
      else .typed) : .ended press how ∈ s.milestones p op := by
  obtain ⟨event, rfl, hdown, elsewhere⟩ := hinterrupts
  exact (mem_handle_press_iff hdown).mpr (mem_interruptEnds_iff.mpr ⟨ht, elsewhere, hhow⟩)

/-- A press that ends the tracking of a key shows how it does so. -/
theorem seen_of_press (hdown : event.isDown = true)
    (h : .ended press how ∈ s.interruptEnds p event) :
    s.tracked = some press ∧ how.Seen p s (.handle event) press := by
  obtain ⟨ht, elsewhere, hhow⟩ := mem_interruptEnds_iff.mp h
  have hinterrupts : Operation.Interrupts (.handle event) press := ⟨event, rfl, hdown, elsewhere⟩
  obtain ⟨htapped, hheld⟩ := settled_handlePress p event s
  have hclears := clears p event s
  cases holds : p.holdsWhenInterrupted press.keycode (s.usuallyHolds press.keycode) with
  | true =>
    rw [holds, if_pos rfl] at hhow
    subst hhow
    refine ⟨ht, hinterrupts, holds, ?_⟩
    rw [perform_press p s hdown, hheld]
    exact hclears.held_iff.mpr (.inr ⟨press, h, rfl⟩)
  | false =>
    rw [holds, if_neg (by simp)] at hhow
    subst hhow
    refine ⟨ht, hinterrupts, holds, ?_, ?_⟩
    · rw [perform_press p s hdown, htapped]
      exact hclears.tapped_iff.mpr (.inr ⟨press, h, rfl⟩)
    · obtain ⟨form, hform⟩ := hclears.sent h
      refine ⟨form, ?_⟩
      rw [sends, if_pos hdown, handlePressSends_eq]
      exact List.mem_append_left _ hform

/-- A release ends the tracking of its own key or of none. -/
theorem releaseEnds_cases (event : Transition) (s : Shifter) :
    s.releaseEnds event = [] ∨
      ∃ e, s.trackedAs? event.keycode event.switch = some e ∧
        s.releaseEnds event = [.ended e .released] := by
  unfold releaseEnds
  split
  · exact .inl rfl
  · cases s.trackedAs? event.keycode event.switch with
    | none => exact .inl rfl
    | some e => exact .inr ⟨e, rfl, rfl⟩

/-- The course of a release. -/
theorem course_release (p : Policy) (s : Shifter) (hup : event.isDown = false) :
    Course s.tracked (s.releaseEnds event) (s.perform p (.handle event)).2.tracked := by
  have hcourse := course_perform p s (.handle event)
  rwa [milestones, if_neg (by simp [hup])] at hcourse

/-- A release that ends the tracking of a key is the release of that key. -/
theorem seen_of_release (hup : event.isDown = false) (h : .ended press how ∈ s.releaseEnds event) :
    s.tracked = some press ∧ how.Seen p s (.handle event) press := by
  have hcourse := course_release p s hup
  cases releaseEnds_cases event s with
  | inl hnone =>
    rw [hnone] at h
    cases h
  | inr hcase =>
    obtain ⟨e, he, hends⟩ := hcase
    rw [hends] at h hcourse
    cases List.mem_singleton.mp h
    obtain ⟨ht, hkey, hplace⟩ := trackedAs?_eq_some_iff.mp he
    exact ⟨ht, event, rfl, hup, hkey.symm, hplace, hcourse.eq_none_of_ended⟩

/-- The release of a key that is tracked no more afterwards has ended that. -/
theorem mem_releaseEnds_of_tracked (hup : event.isDown = false) (ht : s.tracked = some press)
    (hnone : (s.perform p (.handle event)).2.tracked = none) :
    .ended press .released ∈ s.releaseEnds event := by
  have hcourse := course_release p s hup
  rw [ht, hnone] at hcourse
  cases releaseEnds_cases event s with
  | inl hnothing =>
    rw [hnothing] at hcourse
    cases hcourse
  | inr hcase =>
    obtain ⟨e, he, hends⟩ := hcase
    cases ht.symm.trans (trackedAs?_eq_some_iff.mp he).1
    rw [hends]
    exact List.mem_singleton_self _

theorem seen_of_verdict {keycode : Keycode} {v : Verdict} {pressTime now : Tick} {switch : Switch}
    (h : s.trackedAs? keycode switch = some press) :
    s.tracked = some press ∧
      (Ending.verdict v).Seen p s (.verdict keycode v pressTime switch now) press := by
  obtain ⟨ht, rfl, hplace⟩ := trackedAs?_eq_some_iff.mp h
  refine ⟨ht, ?_⟩
  cases v with
  | tap =>
    refine ⟨pressTime, switch, now, rfl, hplace, ?_⟩
    simp [perform, verdict, h]
  | hold =>
    refine ⟨pressTime, switch, now, rfl, hplace, ?_, ?_⟩
    · simp [perform, verdict, h]
    · obtain ⟨form, hform⟩ :=
        resolveSends_eq p (press.pressedAt pressTime) now s.stopTracking
      refine ⟨form, ?_⟩
      have hsends : s.sends p (.verdict press.keycode .hold pressTime switch now) =
          s.stopTracking.resolveSends p (press.pressedAt pressTime) now := by
        simp only [sends, verdictSends, h]
      rw [hsends, hform]
      exact List.mem_append_right _ (List.mem_singleton_self _)

theorem seen_of_scan {now : Tick} (ht : s.tracked = some press)
    (hover : s.isOverdue now press = true) :
    Ending.handedOff.Seen p s (.scan now) press := by
  obtain ⟨hon, hle⟩ := isOverdue_iff.mp hover
  refine ⟨now, rfl, hon, hle, ?_⟩
  rw [handOffs_reported, milestones, scanEnds, ht, Option.filter_some, if_pos hover]
  rfl

/-- The tracking of a press ends in one of the six ways exactly if the press is tracked and the
operation shows it. -/
theorem mem_milestones_iff {op : Operation} :
    .ended press how ∈ s.milestones p op ↔ s.tracked = some press ∧ how.Seen p s op press := by
  constructor
  · intro h
    cases op with
    | handle event =>
      cases hdown : event.isDown with
      | true => exact seen_of_press hdown ((mem_handle_press_iff hdown).mp h)
      | false =>
        rw [milestones, if_neg (by simp [hdown])] at h
        exact seen_of_release hdown h
    | scan now =>
      obtain ⟨ht, hover, rfl⟩ := mem_scanEnds_iff.mp h
      exact ⟨ht, seen_of_scan ht hover⟩
    | verdict keycode v pressTime switch now =>
      obtain ⟨ht, rfl⟩ := mem_ended_iff.mp h
      exact seen_of_verdict ht
    | _ => cases h
  · rintro ⟨ht, hseen⟩
    -- What is seen repeats the condition under which the milestone is there.
    cases how with
    | handedOff =>
      obtain ⟨now, rfl, hon, hle, -⟩ := hseen
      exact mem_scanEnds_iff.mpr ⟨ht, isOverdue_iff.mpr ⟨hon, hle⟩, rfl⟩
    | verdict v =>
      have hop : ∃ pressTime switch now, op = .verdict press.keycode v pressTime switch now ∧
          press.switch.samePlace switch = true := by
        cases v with
        | tap =>
          obtain ⟨pressTime, switch, now, hop, hplace, -⟩ := hseen
          exact ⟨pressTime, switch, now, hop, hplace⟩
        | hold =>
          obtain ⟨pressTime, switch, now, hop, hplace, -⟩ := hseen
          exact ⟨pressTime, switch, now, hop, hplace⟩
      obtain ⟨pressTime, switch, now, rfl, hplace⟩ := hop
      exact mem_ended_iff.mpr ⟨trackedAs?_eq_some_iff.mpr ⟨ht, rfl, hplace⟩, rfl⟩
    | held =>
      obtain ⟨hinterrupts, holds, -⟩ := hseen
      exact ended_of_interrupts ht hinterrupts (by rw [holds, if_pos rfl])
    | typed =>
      obtain ⟨hinterrupts, holds, -⟩ := hseen
      exact ended_of_interrupts ht hinterrupts (by rw [holds, if_neg (by simp)])
    | released =>
      obtain ⟨event, rfl, hup, -, -, hnone⟩ := hseen
      rw [milestones, if_neg (by simp [hup])]
      exact mem_releaseEnds_of_tracked hup ht hnone

/-- A press that starts being tracked is that of a dual role key, and is tracked from then on. -/
theorem tracked_of_started {op : Operation} (h : .started press ∈ s.milestones p op) :
    op = .handle press ∧ press.isDown = true ∧ press.keycode.isDualRole = true ∧
      (s.perform p op).2.tracked = some press := by
  cases op with
  | handle event =>
    cases hdown : event.isDown with
    | true =>
      have hnot : Milestone.started press ∉ s.interruptEnds p event := by
        unfold interruptEnds
        split
        · nofun
        · split
          · nofun
          · split <;> simp
      rw [milestones, if_pos hdown, List.mem_append, or_iff_right hnot] at h
      split at h
      · next hstarts =>
        cases List.mem_singleton.mp h
        have hdual : press.keycode.isDualRole = true := by
          simp only [startsTracking, Bool.and_eq_true] at hstarts
          exact hstarts.1.1.1.1
        refine ⟨rfl, hdown, hdual, ?_⟩
        rw [perform_press p s hdown, handlePress_eq, tracked_pressOwn_eq, if_pos hstarts]
      · cases h
    | false =>
      rw [milestones, if_neg (by simp [hdown])] at h
      cases releaseEnds_cases event s with
      | inl hnone =>
        rw [hnone] at h
        cases h
      | inr hcase =>
        obtain ⟨e, -, hends⟩ := hcase
        simp [hends] at h
  | scan now => simp [milestones, scanEnds] at h
  | verdict => simp [milestones] at h
  | _ => cases h

/-! ## The deadline -/

/-- A key is handed off by the scans that find it tracked and its time up, and by nothing else. -/
theorem handOff_mem_reported_iff {op : Operation} {keycode : Keycode} {switch : Switch} :
    .handOff keycode switch ∈ s.reported p op ↔
      ∃ now press, op = .scan now ∧ s.tracked = some press ∧ keycode = press.keycode ∧
        switch = press.switch ∧ s.settings.trackingTime ≠ 0 ∧
        s.settings.trackingTime ≤ now.since press.time := by
  rw [← mem_handOffs_iff, handOffs_reported, mem_handedOff_iff]
  constructor
  · rintro ⟨e, hended, hkey, hswitch⟩
    obtain ⟨ht, now, hop, hon, hle, -⟩ := mem_milestones_iff.mp hended
    exact ⟨now, e, hop, ht, hkey, hswitch, hon, hle⟩
  · rintro ⟨now, e, rfl, ht, hkey, hswitch, hon, hle⟩
    exact ⟨e, mem_scanEnds_iff.mpr ⟨ht, isOverdue_iff.mpr ⟨hon, hle⟩, rfl⟩, hkey, hswitch⟩

/-- While no key is tracked a verdict changes nothing, and a scan hands nothing off. -/
theorem untouched_of_not_tracked (p : Policy) (ht : s.tracked = none) :
    (∀ keycode v pressTime switch now,
        s.verdict p keycode v pressTime switch now = (true, s)) ∧
      ∀ now, handOffs (s.reported p (.scan now)) = [] := by
  constructor
  · intro keycode v pressTime switch now
    have hnone : s.trackedAs? keycode switch = none := by
      rw [trackedAs?, ht]
      rfl
    rw [verdict, hnone]
  · intro now
    rw [handOffs_reported, milestones, scanEnds, ht]
    rfl

/-! ## The course of a history -/

/-- The press tracked after a history is the one that started last, if no ending came after it. -/
theorem tracked_run_iff (p : Policy) (settings : Settings) (history : List Operation)
    (press : Transition) :
    ((initial settings).run p history).tracked = some press ↔
      ((initial settings).milestonesAll p history).getLast? = some (.started press) :=
  ((course_run p (initial settings) history).getLast?_eq_started press).symm

/-- **Tracking ends once, and by a hand-off at its deadline.**  Whatever history comes first:

* between one start of tracking and the next there is at most one ending, which is that of the press
  that started, and it follows the start directly;
* the starts and the endings are those of dual role keys, and are seen as such;
* a key is handed off by a scan which finds it tracked for the tracking time, and by every such
  scan, with the keycode and the switch of its press;
* from an ending to the next start a verdict is answered with yes, changes nothing and reports
  nothing, and no scan hands off a key. -/
theorem tracking_ends_once (p : Policy) (settings : Settings) (history : List Operation) :
    let s := (initial settings).run p history
    let course := (initial settings).milestonesAll p history
    (∀ before between after press,
        course = before ++ .started press :: (between ++ after) →
        (∀ m ∈ between, ∃ e how, m = .ended e how) →
          between = [] ∨ ∃ how, between = [.ended press how]) ∧
      (∀ before after press how, course = before ++ .ended press how :: after →
        before.getLast? = some (.started press)) ∧
      (∀ press, s.tracked = some press ↔ course.getLast? = some (.started press)) ∧
      (∀ op press, .started press ∈ s.milestones p op →
        op = .handle press ∧ press.isDown = true ∧ press.keycode.isDualRole = true ∧
          (s.perform p op).2.tracked = some press) ∧
      (∀ op press how, .ended press how ∈ s.milestones p op ↔
        s.tracked = some press ∧ how.Seen p s op press) ∧
      (∀ op keycode switch, .handOff keycode switch ∈ s.reported p op ↔
        ∃ now press, op = .scan now ∧ s.tracked = some press ∧ keycode = press.keycode ∧
          switch = press.switch ∧ s.settings.trackingTime ≠ 0 ∧
          s.settings.trackingTime ≤ now.since press.time) ∧
      ((∀ press, course.getLast? ≠ some (.started press)) →
        (∀ keycode v pressTime switch now,
            s.verdict p keycode v pressTime switch now = (true, s)) ∧
          ∀ now, handOffs (s.reported p (.scan now)) = []) := by
  intro s course
  have hcourse : Course none course s.tracked := course_run p (initial settings) history
  have htracked := tracked_run_iff p settings history
  refine ⟨?_, ?_, htracked, fun _ _ h => tracked_of_started h, fun _ _ _ => mem_milestones_iff,
    fun _ _ _ => handOff_mem_reported_iff, ?_⟩
  · intro before between after press heq hends
    exact (heq ▸ hcourse).ended_once hends
  · intro before after press how heq
    exact (heq ▸ hcourse).getLast?_before_ended
  · intro hended
    have hnone : s.tracked = none := by
      refine Option.eq_none_iff_forall_ne_some.mpr fun e he => ?_
      exact hended e ((htracked e).mp he)
    exact untouched_of_not_tracked p hnone

/-- The settings to begin with, except that dual role keys are tracked, each for half a second. -/
def dualRoleSettings : Settings := Settings.turn {} Flag.dualRole true

/-- A mod-tap key that is handed off. -/
def slowPress : Transition := .press (Keycode.modTap 2 5) 0 0 0

/-- A layer-tap key that is interrupted. -/
def quickPress : Transition := .press (Keycode.layerTap 1 7) 1 0 600

/-- A dual role key is held until it is handed off, another one goes down after it, and the next
press interrupts that. -/
def twoFates : List Operation :=
  [.handle slowPress, .scan 499, .scan 500, .handle quickPress, .handle (.press 6 1 1 620)]

theorem tracking_ends_once_of_twoFates :
    let s := (initial dualRoleSettings).run .stock twoFates
    (initial dualRoleSettings).milestonesAll .stock twoFates =
        [.started slowPress, .ended slowPress .handedOff, .started quickPress,
          .ended quickPress .typed] ∧
      (∃ how, [Milestone.ended quickPress .typed] = [.ended quickPress how]) ∧
      s.verdict .stock quickPress.keycode .hold 600 quickPress.switch 630 = (true, s) ∧
      .handOff slowPress.keycode slowPress.switch ∈
        ((initial dualRoleSettings).run .stock (twoFates.take 2)).reported .stock (.scan 500) := by
  have hcourse : (initial dualRoleSettings).milestonesAll .stock twoFates =
      [.started slowPress, .ended slowPress .handedOff, .started quickPress,
        .ended quickPress .typed] := by decide
  obtain ⟨honce, -, -, -, -, -, hafter⟩ := tracking_ends_once .stock dualRoleSettings twoFates
  obtain ⟨-, -, -, -, -, hdeadline, -⟩ :=
    tracking_ends_once .stock dualRoleSettings (twoFates.take 2)
  have hnext := honce [.started slowPress, .ended slowPress .handedOff]
    [.ended quickPress .typed] [] quickPress hcourse (by simp)
  refine ⟨hcourse, hnext.resolve_left (by simp), ?_, ?_⟩
  · exact (hafter (by simp [hcourse])).1 _ _ _ _ _
  · exact (hdeadline _ _ _).mpr
      ⟨500, slowPress, rfl, by decide, rfl, rfl, by decide, by decide⟩

end Shifter

end LongPress
