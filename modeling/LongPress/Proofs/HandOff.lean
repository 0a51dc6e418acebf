import LongPress.Proofs.Tracking

/-!
# LongPress.Proofs.HandOff

Only a scan hands a key off.

`handOffs` are the keys that a list of reports hands off.  None of the functions that make up a
press, a release or a verdict says anything of a hand-off, and a scan does so once for the tracked
key it gives up; so what an operation hands off can be read from its milestones
(`handOffs_reported`).
-/

namespace LongPress

/-! ## Hand-offs -/

/-- The key that a report hands off. -/
def Report.handedOff? : Report → Option (Keycode × Switch)
  | .handOff keycode switch => some (keycode, switch)
  | _ => none

/-- The keys that are handed off, in their order. -/
def handOffs (reports : List Report) : List (Keycode × Switch) :=
  reports.filterMap Report.handedOff?

@[simp] theorem handOffs_append (rs us : List Report) :
    handOffs (rs ++ us) = handOffs rs ++ handOffs us := List.filterMap_append

theorem mem_handOffs_iff {reports : List Report} {keycode : Keycode} {switch : Switch} :
    (keycode, switch) ∈ handOffs reports ↔ .handOff keycode switch ∈ reports := by
  rw [handOffs, List.mem_filterMap]
  constructor
  · rintro ⟨r, hr, hkey⟩
    cases r with
    | handOff k sw =>
      simp only [Report.handedOff?, Option.some.injEq, Prod.mk.injEq] at hkey
      obtain ⟨rfl, rfl⟩ := hkey
      exact hr
    | _ => cases hkey
  · exact fun h => ⟨_, h, rfl⟩

/-- The key that is handed off at a milestone. -/
def Milestone.handedOff? : Milestone → Option (Keycode × Switch)
  | .ended press .handedOff => some (press.keycode, press.switch)
  | _ => none

namespace Shifter

variable {p : Policy} {s t : Shifter} {event : Transition}

/-! ## Only a scan hands off -/

@[simp] theorem handOffs_keyDown (p : Policy) (s : Shifter) (k : Keycode) (f : Bool) :
    handOffs (s.keyDown p k f).outbox = handOffs s.outbox := by
  rw [keyDown_outbox]
  split <;> simp [handOffs, Report.handedOff?]

@[simp] theorem handOffs_keyUp (p : Policy) (s : Shifter) (k : Keycode) :
    handOffs (s.keyUp p k).2.outbox = handOffs s.outbox := by
  rw [keyUp_outbox]
  split <;> simp [handOffs, Report.handedOff?]

@[simp] theorem handOffs_suppressShift (s : Shifter) :
    handOffs s.suppressShift.outbox = handOffs s.outbox := by
  unfold suppressShift
  dsimp only
  split <;> simp [handOffs, Report.handedOff?, emit]

@[simp] theorem handOffs_restoreShift (s : Shifter) :
    handOffs s.restoreShift.outbox = handOffs s.outbox := by
  unfold restoreShift
  dsimp only
  split <;> simp [handOffs, Report.handedOff?, emit]

@[simp] theorem handOffs_pause (s : Shifter) : handOffs s.pause.outbox = handOffs s.outbox := by
  unfold pause
  split <;> simp [handOffs, Report.handedOff?, emit]

@[simp] theorem handOffs_decideKey (p : Policy) (event : Transition) (now : Tick) (byScan : Bool)
    (s : Shifter) : handOffs (s.decideKey p event now byScan).outbox = handOffs s.outbox := by
  rw [decideKey_eq]
  split <;> simp [sendDecided]

@[simp] theorem handOffs_settle (p : Policy) (now : Tick) (byScan : Bool) (s : Shifter) :
    handOffs (s.settle p now byScan).outbox = handOffs s.outbox := by
  unfold settle
  split <;> simp

@[simp] theorem handOffs_letGo (p : Policy) (keycode : Keycode) (now : Tick) (s : Shifter) :
    handOffs (s.letGo p keycode now).2.outbox = handOffs s.outbox := by
  unfold letGo
  dsimp only
  split <;> simp

@[simp] theorem handOffs_endKey (p : Policy) (keycode : Keycode) (now : Tick) (s : Shifter) :
    handOffs (s.endKey p keycode now).2.outbox = handOffs s.outbox := by
  unfold endKey
  split
  · split <;> simp
  · simp

@[simp] theorem handOffs_begin (event : Transition) (s : Shifter) :
    handOffs (s.begin event).outbox = handOffs s.outbox := by
  unfold begin
  dsimp only
  split <;> simp [handOffs, Report.handedOff?, emit]

@[simp] theorem handOffs_repeatLast (p : Policy) (s : Shifter) :
    handOffs (s.repeatLast p).outbox = handOffs s.outbox := by
  simp [repeatLast]

@[simp] theorem handOffs_resolve (p : Policy) (event : Transition) (now : Tick) (s : Shifter) :
    handOffs (s.resolve p event now).outbox = handOffs s.outbox := by
  unfold resolve
  dsimp only
  split <;> simp

theorem InterruptOutcome.handOffs_outbox {now : Tick} {l : List Sending}
    (o : InterruptOutcome p now s l t) : handOffs t.outbox = handOffs s.outbox := by
  cases o with
  | nothing => rfl
  | holds => rfl
  | types => exact handOffs_resolve p _ now _

theorem handOffs_clearedFor (p : Policy) (event : Transition) (s : Shifter) :
    handOffs (s.clearedFor p event).outbox = handOffs s.outbox := by
  unfold clearedFor
  dsimp only
  split
  · simp
  · rw [(interruptOutcome p event.time _).handOffs_outbox]
    simp

theorem handOffs_typeText (text : List Char) (s : Shifter) :
    handOffs (s.typeText text).outbox = handOffs s.outbox := by
  unfold typeText
  induction text.filterMap keyOfChar? generalizing s with
  | nil => rfl
  | cons key keys ih =>
    rw [List.foldl_cons, ih]
    simp [emit, handOffs, Report.handedOff?]

theorem handOffs_control (key : ControlKey) (s : Shifter) :
    handOffs (s.control key).outbox = handOffs s.outbox := by
  cases key with
  | shorter => rfl
  | longer => rfl
  | report => exact handOffs_typeText _ s
  | on => exact handOffs_restoreShift _
  | off => exact handOffs_restoreShift _
  | toggle =>
    unfold control toggle
    dsimp only
    split <;> exact handOffs_restoreShift _

theorem PressOutcome.handOffs_outbox {l : List Sending} {r : Bool × Shifter}
    (o : PressOutcome p event s l r) : handOffs r.2.outbox = handOffs s.outbox := by
  cases o with
  | leaves => rfl
  | repeatsDual => exact handOffs_repeatLast p s
  | tracks => rfl
  | ignores => rfl
  | passes => rfl
  | bypasses => exact handOffs_keyDown p (s.forgotten event) event.keycode false
  | repeats => exact handOffs_repeatLast p (s.noteModifier event.keycode true)
  | begins => exact handOffs_begin event (s.noteModifier event.keycode true)

theorem handOffs_handlePress (p : Policy) (event : Transition) (s : Shifter) :
    handOffs (s.handlePress p event).2.outbox = handOffs s.outbox := by
  rw [handlePress_eq, ← handOffs_clearedFor p event s]
  cases hcontrol : event.keycode.isControl with
  | true =>
    obtain ⟨key, hkey, -⟩ := pressOwn_control p (s.clearedFor p event) hcontrol
    rw [hkey]
    exact handOffs_control key _
  | false => exact (pressOutcome p _ hcontrol).handOffs_outbox

theorem ReleaseOutcome.handOffs_outbox {l : List Sending} {r : Bool × Shifter}
    (o : ReleaseOutcome p event s l r) : handOffs r.2.outbox = handOffs s.outbox := by
  cases o with
  | tapped => rfl
  | held => rfl
  | endsDual =>
    rw [handOffs_endKey, untracked_eq]
    rfl
  | ends => exact handOffs_endKey p event.keycode event.time (s.unpassed event)
  | ignores => rfl

theorem handOffs_handleRelease (p : Policy) (event : Transition) (s : Shifter) :
    handOffs (s.handleRelease p event).2.outbox = handOffs s.outbox := by
  cases hcontrol : event.keycode.isControl with
  | true => rw [(handleRelease_control p s hcontrol).1]
  | false => exact (releaseOutcome p s hcontrol).handOffs_outbox

theorem handOffs_verdict (p : Policy) (keycode : Keycode) (v : Verdict) (pressTime : Tick)
    (switch : Switch) (now : Tick) (s : Shifter) :
    handOffs (s.verdict p keycode v pressTime switch now).2.outbox = handOffs s.outbox := by
  unfold verdict
  split
  · rfl
  · cases v with
    | tap => rfl
    | hold => exact handOffs_resolve p _ now s.stopTracking

theorem handOffs_scan (p : Policy) (now : Tick) (s : Shifter) :
    handOffs (s.scan p now).outbox =
      handOffs s.outbox ++ (s.scanEnds now).filterMap Milestone.handedOff? := by
  have hwaiting : handOffs (s.scanWaiting p now).outbox = handOffs s.outbox := by
    unfold scanWaiting
    split
    · split <;> simp
    · rfl
  rw [scan_eq_match, scanEnds, ← hwaiting]
  cases s.tracked.filter (s.isOverdue now) with
  | none => simp
  | some e => simp [emit, stopTracking, handOffs, Report.handedOff?, Milestone.handedOff?]

theorem handedOff?_interruptEnds (p : Policy) (event : Transition) (s : Shifter) :
    (s.interruptEnds p event).filterMap Milestone.handedOff? = [] := by
  unfold interruptEnds
  split
  · rfl
  · split
    · rfl
    · split <;> rfl

/-- An ending other than a hand-off hands nothing off. -/
theorem handedOff?_trackedAs? {how : Ending} (h : how ≠ .handedOff) (keycode : Keycode)
    (switch : Switch) (s : Shifter) :
    ((s.trackedAs? keycode switch).toList.map (Milestone.ended · how)).filterMap
      Milestone.handedOff? = [] := by
  cases s.trackedAs? keycode switch with
  | none => rfl
  | some e =>
    cases how with
    | handedOff => exact absurd rfl h
    | _ => rfl

theorem handedOff?_releaseEnds (event : Transition) (s : Shifter) :
    (s.releaseEnds event).filterMap Milestone.handedOff? = [] := by
  unfold releaseEnds
  split
  · rfl
  · exact handedOff?_trackedAs? (by simp) event.keycode event.switch s

/-- What an operation hands off are the keys whose tracking it ends that way. -/
theorem handOffs_perform (p : Policy) (s : Shifter) (op : Operation) :
    handOffs (s.perform p op).2.outbox =
      handOffs s.outbox ++ (s.milestones p op).filterMap Milestone.handedOff? := by
  cases op with
  | handle event =>
    simp only [perform, milestones, handle]
    split
    · rw [handOffs_handlePress, List.filterMap_append, handedOff?_interruptEnds]
      split <;> simp [Milestone.handedOff?]
    · rw [handOffs_handleRelease, handedOff?_releaseEnds, List.append_nil]
  | scan now => exact handOffs_scan p now s
  | verdict keycode v pressTime switch now =>
    simp only [perform, milestones]
    rw [handOffs_verdict, handedOff?_trackedAs? (by simp), List.append_nil]
  | enable => exact (handOffs_control .on s).trans (List.append_nil _).symm
  | disable => exact (handOffs_control .off s).trans (List.append_nil _).symm
  | toggle => exact (handOffs_control .toggle s).trans (List.append_nil _).symm
  | _ => exact (List.append_nil _).symm

/-- The hand-offs that an operation reports. -/
theorem handOffs_reported (p : Policy) (s : Shifter) (op : Operation) :
    handOffs (s.reported p op) = (s.milestones p op).filterMap Milestone.handedOff? := by
  obtain ⟨rs, hrs⟩ := (speaks_perform p s op).outbox_eq
  have hperform := handOffs_perform p s op
  rw [hrs, handOffs_append] at hperform
  rw [reported, hrs, List.drop_left]
  exact List.append_cancel_left hperform

theorem mem_handedOff_iff {ms : List Milestone} {keycode : Keycode} {switch : Switch} :
    (keycode, switch) ∈ ms.filterMap Milestone.handedOff? ↔
      ∃ press, .ended press .handedOff ∈ ms ∧ keycode = press.keycode ∧
        switch = press.switch := by
  rw [List.mem_filterMap]
  constructor
  · rintro ⟨m, hm, hkey⟩
    match m with
    | .started _ => cases hkey
    | .ended e how =>
      cases how with
      | handedOff =>
        simp only [Milestone.handedOff?, Option.some.injEq, Prod.mk.injEq] at hkey
        exact ⟨e, hm, hkey.1.symm, hkey.2.symm⟩
      | _ => cases hkey
  · rintro ⟨e, hm, rfl, rfl⟩
    exact ⟨_, hm, rfl⟩

end Shifter

end LongPress
