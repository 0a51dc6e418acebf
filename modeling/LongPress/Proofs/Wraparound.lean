import LongPress.Proofs.Sending

/-!
# LongPress.Proofs.Wraparound

It makes no difference where on its circle the clock stands.

The clock has sixteen bits and wraps.  `Shifter.later k` and `Request.later k` move every time that
a shifter remembers, and every time that it is given, on by `k` ticks of that circle.  The shifter
only ever looks at the time from one tick until another (`since_later`), so each of its functions
commutes with the move; there is one lemma per function, named for it, up to `perform_later`.

* `answers_later` — the main statement, for requests in any order and from any state.
-/

namespace LongPress

/-! ## Later times -/

/-- The time between two ticks is the same later. -/
@[simp] theorem since_later (now past k : Tick) :
    Tick.since (now + k) (past + k) = now.since past := by
  refine UInt16.toBitVec_inj.mp ?_
  simp only [Tick.since, UInt16.toBitVec_sub, UInt16.toBitVec_add]
  bv_omega

/-- The same move at a later time. -/
def Transition.later (k : Tick) (event : Transition) : Transition :=
  { event with time := event.time + k }

/-- The same operation at a later time. -/
def Operation.later (k : Tick) : Operation → Operation
  | .handle event => .handle (event.later k)
  | .scan now => .scan (now + k)
  | .verdict keycode v pressTime switch now => .verdict keycode v (pressTime + k) switch (now + k)
  | op => op

namespace Shifter

/-- The same state at a later time. -/
def later (k : Tick) (s : Shifter) : Shifter :=
  { s with
    waiting := s.waiting.map (Transition.later k)
    tracked := s.tracked.map (Transition.later k)
    since := s.since + k }

variable (p : Policy) (k : Tick) (s : Shifter) (event : Transition) (now : Tick)

/-! ## Keys, shift and control keys -/

theorem keyDown_later (key : Keycode) (f : Bool) :
    (s.later k).keyDown p key f = (s.keyDown p key f).later k := by
  unfold keyDown
  dsimp only [later]
  split <;> rfl

theorem keyUp_later (key : Keycode) :
    (s.later k).keyUp p key = ((s.keyUp p key).1, (s.keyUp p key).2.later k) := by
  unfold keyUp strokeToRelease
  dsimp only [later]
  split <;> rfl

theorem suppressShift_later : (s.later k).suppressShift = s.suppressShift.later k := by
  unfold suppressShift
  dsimp only [later]
  split <;> rfl

theorem restoreShift_later : (s.later k).restoreShift = s.restoreShift.later k := by
  unfold restoreShift
  dsimp only [later]
  split <;> rfl

theorem dropSuppressed_later (key : Keycode) :
    (s.later k).dropSuppressed key = (s.dropSuppressed key).later k := by
  unfold dropSuppressed
  dsimp only [later]
  split
  · rfl
  · split <;> rfl

theorem typeText_later (text : List Char) :
    (s.later k).typeText text = (s.typeText text).later k := by
  unfold typeText
  induction text.filterMap keyOfChar? generalizing s with
  | nil => rfl
  | cons key keys ih =>
    rw [List.foldl_cons, List.foldl_cons, ← ih]
    rfl

theorem enable_later : (s.later k).enable = s.enable.later k :=
  restoreShift_later k { s with isEnabled := true }

theorem disable_later : (s.later k).disable = s.disable.later k :=
  restoreShift_later k { s with isEnabled := false }

theorem toggle_later : (s.later k).toggle = s.toggle.later k := by
  unfold toggle
  rw [show (s.later k).isEnabled = s.isEnabled from rfl]
  split
  · exact disable_later k s
  · exact enable_later k s

theorem control_later (key : ControlKey) :
    (s.later k).control key = (s.control key).later k := by
  cases key with
  | shorter => rfl
  | longer => rfl
  | report => exact typeText_later k s s.timeoutText
  | on => exact enable_later k s
  | off => exact disable_later k s
  | toggle => exact toggle_later k s

/-! ## Decisions -/

theorem isRepeat_later : (s.later k).isRepeat (event.later k) = s.isRepeat event := by
  simp [isRepeat, later, Transition.later]

theorem begin_later : (s.later k).begin (event.later k) = (s.begin event).later k := by
  unfold begin hasShift anyModifiers
  dsimp only [later]
  split <;> rfl

theorem repeatLast_later : (s.later k).repeatLast p = (s.repeatLast p).later k := by
  unfold repeatLast
  dsimp only
  rw [suppressShift_later, ← keyDown_later]
  rfl

theorem formAt_later : (s.later k).formAt (event.later k) (now + k) = s.formAt event now := by
  rw [formAt, show (event.later k).time = event.time + k from rfl, since_later]
  rfl

theorem sendDecided_later :
    (s.later k).sendDecided p (event.later k) (now + k) = (s.sendDecided p event now).later k := by
  unfold sendDecided
  dsimp only
  rw [formAt_later, ← keyDown_later, ← suppressShift_later]
  rfl

theorem pause_later : (s.later k).pause = s.pause.later k := by
  unfold pause
  rw [show (s.later k).settings = s.settings from rfl]
  split <;> rfl

theorem decideKey_later (byScan : Bool) :
    (s.later k).decideKey p (event.later k) (now + k) byScan =
      (s.decideKey p event now byScan).later k := by
  have hkeeps (t : Shifter) : (t.later k).keepsDown byScan = t.keepsDown byScan := rfl
  rw [decideKey_eq, decideKey_eq, sendDecided_later, hkeeps]
  split
  · rfl
  · rw [pause_later, keyUp_later, restoreShift_later]
    rfl

theorem settle_later (byScan : Bool) :
    (s.later k).settle p (now + k) byScan = (s.settle p now byScan).later k := by
  unfold settle
  rw [show (s.later k).waiting = s.waiting.map (Transition.later k) from rfl]
  cases s.waiting with
  | none => rfl
  | some event => exact decideKey_later p k s event now byScan

theorem letGo_later (key : Keycode) :
    (s.later k).letGo p key (now + k) =
      ((s.letGo p key now).1, (s.letGo p key now).2.later k) := by
  unfold letGo
  rw [show (s.later k).last = s.last from rfl, keyUp_later]
  dsimp only
  split
  · rw [restoreShift_later]
    rfl
  · rfl

theorem endKey_later (key : Keycode) :
    (s.later k).endKey p key (now + k) =
      ((s.endKey p key now).1, (s.endKey p key now).2.later k) := by
  unfold endKey
  rw [show (s.later k).waiting = s.waiting.map (Transition.later k) from rfl]
  cases s.waiting with
  | none => exact letGo_later p k s now key
  | some event =>
    dsimp only [Option.map_some]
    rw [show (event.later k).keycode = event.keycode from rfl]
    split
    · rw [decideKey_later]
    · exact letGo_later p k s now key

theorem resolve_later :
    (s.later k).resolve p (event.later k) (now + k) = (s.resolve p event now).later k := by
  unfold resolve
  dsimp only
  rw [settle_later]
  generalize s.settle p now false = settled
  rw [show (settled.later k).bypasses = settled.bypasses from rfl]
  split
  · let noted : Shifter := { settled with last := Keycode.noKey }
    have hdown := keyDown_later p k noted event.keycode false
    have hup := keyUp_later p k (noted.keyDown p event.keycode false) event.keycode
    rw [← hdown] at hup
    exact congrArg Prod.snd hup
  · rw [begin_later, settle_later]

/-! ## Dual role keys -/

theorem interrupt_later :
    (s.later k).interrupt p (now + k) = (s.interrupt p now).later k := by
  unfold interrupt
  rw [show (s.later k).tracked = s.tracked.map (Transition.later k) from rfl]
  cases s.tracked with
  | none => rfl
  | some event =>
    have hholds : p.holdsWhenInterrupted event.keycode
        ((s.later k).stopTracking.usuallyHolds event.keycode) =
          p.holdsWhenInterrupted event.keycode (s.stopTracking.usuallyHolds event.keycode) := rfl
    dsimp only [Option.map_some]
    rw [show (event.later k).keycode = event.keycode from rfl, hholds]
    split
    · rfl
    · rw [← resolve_later]
      rfl

theorem isTrackingAt_later (switch : Switch) :
    (s.later k).isTrackingAt switch = s.isTrackingAt switch := by
  simp only [isTrackingAt, later, Option.any_map]
  rfl

theorem trackedAs?_later (key : Keycode) (switch : Switch) :
    (s.later k).trackedAs? key switch = (s.trackedAs? key switch).map (Transition.later k) := by
  simp only [trackedAs?, later, Option.filter_map]
  rfl

/-! ## Presses and releases -/

theorem pressPlain_later :
    (s.later k).pressPlain p (event.later k) =
      ((s.pressPlain p event).1, (s.pressPlain p event).2.later k) := by
  unfold pressPlain
  rw [isRepeat_later, repeatLast_later, begin_later,
    show (s.later k).isEnabled = s.isEnabled from rfl,
    show (s.later k).bypasses = s.bypasses from rfl]
  split
  · rfl
  · split
    · let noted : Shifter := { s with last := Keycode.noKey }
      exact congrArg (false, ·) (keyDown_later p k noted event.keycode false)
    · split <;> rfl

theorem pressDualRole_later :
    (s.later k).pressDualRole p (event.later k) =
      ((s.pressDualRole p event).1, (s.pressDualRole p event).2.later k) := by
  have hunfit : (!(s.later k).isEnabled || !(s.later k).settings.has Flag.dualRole ||
      !(s.later k).hasForms p event.keycode) =
        (!s.isEnabled || !s.settings.has Flag.dualRole || !s.hasForms p event.keycode) := rfl
  unfold pressDualRole
  rw [isRepeat_later, repeatLast_later, show (event.later k).keycode = event.keycode from rfl,
    hunfit]
  split
  · rfl
  · split <;> rfl

theorem clearedFor_later :
    (s.later k).clearedFor p (event.later k) = (s.clearedFor p event).later k := by
  unfold clearedFor
  dsimp only
  rw [show (event.later k).time = event.time + k from rfl,
    show (event.later k).switch = event.switch from rfl, settle_later, isTrackingAt_later,
    interrupt_later]
  split <;> rfl

theorem pressOwn_later :
    (s.later k).pressOwn p (event.later k) =
      ((s.pressOwn p event).1, (s.pressOwn p event).2.later k) := by
  let noted : Shifter := s.noteModifier event.keycode true
  have hnoted : (s.later k).noteModifier event.keycode true = noted.later k := rfl
  have hforms : (noted.later k).hasForms p event.keycode = noted.hasForms p event.keycode := rfl
  unfold pressOwn
  rw [show (event.later k).keycode = event.keycode from rfl]
  cases ControlKey.ofKeycode? event.keycode with
  | some key => exact congrArg _ (control_later k s key)
  | none =>
    dsimp only
    split
    · exact pressDualRole_later p k s event
    · rw [hnoted, hforms]
      split
      · exact pressPlain_later p k noted event
      · rfl

theorem releasePlain_later :
    (s.later k).releasePlain p (event.later k) =
      ((s.releasePlain p event).1, (s.releasePlain p event).2.later k) := by
  let passed : Shifter := { s with passing := (s.passing.remove event.keycode.base).2 }
  have hend := endKey_later p k passed event.time event.keycode
  exact congrArg (fun r : Bool × Shifter => ((s.passing.remove event.keycode.base).1, r.2)) hend

theorem releaseDualRole_later :
    (s.later k).releaseDualRole p (event.later k) =
      ((s.releaseDualRole p event).1, (s.releaseDualRole p event).2.later k) := by
  have huntracked : (if ((s.later k).trackedAs? event.keycode event.switch).isSome then
        (s.later k).stopTracking else s.later k) =
      Shifter.later k
        (if (s.trackedAs? event.keycode event.switch).isSome then s.stopTracking else s) := by
    rw [trackedAs?_later, Option.isSome_map]
    split <;> rfl
  unfold releaseDualRole
  dsimp only
  rw [show (event.later k).keycode = event.keycode from rfl,
    show (event.later k).switch = event.switch from rfl,
    show (event.later k).time = event.time + k from rfl,
    show (s.later k).tapped = s.tapped from rfl, show (s.later k).held = s.held from rfl,
    huntracked, endKey_later]
  split
  · rfl
  · split <;> rfl

theorem handleRelease_later :
    (s.later k).handleRelease p (event.later k) =
      ((s.handleRelease p event).1, (s.handleRelease p event).2.later k) := by
  let dropped : Shifter := s.dropSuppressed event.keycode
  let noted : Shifter := dropped.noteModifier event.keycode false
  have hnoted : (dropped.later k).noteModifier event.keycode false = noted.later k := rfl
  have hforms : (noted.later k).hasForms p event.keycode = noted.hasForms p event.keycode := rfl
  unfold handleRelease
  rw [show (event.later k).keycode = event.keycode from rfl]
  split
  · rfl
  · dsimp only
    rw [dropSuppressed_later]
    split
    · exact releaseDualRole_later p k dropped event
    · rw [hnoted, hforms]
      split
      · exact releasePlain_later p k noted event
      · rfl

theorem handle_later :
    (s.later k).handle p (event.later k) =
      ((s.handle p event).1, (s.handle p event).2.later k) := by
  unfold handle
  rw [show (event.later k).isDown = event.isDown from rfl]
  split
  · rw [handlePress_eq, handlePress_eq, clearedFor_later, pressOwn_later]
  · exact handleRelease_later p k s event

/-! ## Time and verdicts -/

theorem timeToDecide_later : (s.later k).timeToDecide (now + k) = s.timeToDecide now := by
  simp only [timeToDecide, later, Option.map_map]
  congr 1
  funext event
  simp [Transition.later, timeout]

theorem timeToHandOff_later : (s.later k).timeToHandOff (now + k) = s.timeToHandOff now := by
  simp only [timeToHandOff, later, Option.map_map]
  congr 2
  funext event
  simp [Transition.later]

theorem timeLeft_later : (s.later k).timeLeft (now + k) = s.timeLeft now := by
  rw [timeLeft, timeLeft, timeToDecide_later, timeToHandOff_later]

theorem scanWaiting_later :
    (s.later k).scanWaiting p (now + k) = (s.scanWaiting p now).later k := by
  unfold scanWaiting
  rw [show (s.later k).waiting = s.waiting.map (Transition.later k) from rfl]
  cases s.waiting with
  | none => rfl
  | some event =>
    dsimp only [Option.map_some]
    rw [show (event.later k).time = event.time + k from rfl, since_later, decideKey_later,
      show (s.later k).timeout = s.timeout from rfl]
    split <;> rfl

theorem scanTracked_later :
    (s.later k).scanTracked (now + k) = (s.scanTracked now).later k := by
  unfold scanTracked
  rw [show (s.later k).tracked = s.tracked.map (Transition.later k) from rfl]
  cases s.tracked with
  | none => rfl
  | some event =>
    dsimp only [Option.map_some]
    rw [timeToHandOff_later]
    split <;> rfl

theorem scan_later : (s.later k).scan p (now + k) = (s.scan p now).later k := by
  rw [scan, scan, scanWaiting_later, scanTracked_later]

theorem verdict_later (keycode : Keycode) (v : Verdict) (pressTime : Tick) (switch : Switch) :
    (s.later k).verdict p keycode v (pressTime + k) switch (now + k) =
      ((s.verdict p keycode v pressTime switch now).1,
        (s.verdict p keycode v pressTime switch now).2.later k) := by
  unfold verdict
  rw [trackedAs?_later]
  cases s.trackedAs? keycode switch with
  | none => rfl
  | some event =>
    cases v with
    | tap => rfl
    | hold =>
      let press : Transition := event.pressedAt pressTime
      exact congrArg _ (resolve_later p k s.stopTracking press now)

theorem perform_later (op : Operation) :
    (s.later k).perform p (op.later k) = ((s.perform p op).1, (s.perform p op).2.later k) := by
  cases op with
  | handle event => simp only [perform, Operation.later, handle_later]
  | scan now => simp only [perform, Operation.later, scan_later]
  | verdict keycode v pressTime switch now =>
    simp only [perform, Operation.later, verdict_later]
  | enable => exact congrArg _ (enable_later k s)
  | disable => exact congrArg _ (disable_later k s)
  | toggle => exact congrArg _ (toggle_later k s)
  | _ => rfl

end Shifter

/-! ## Requests in any order -/

/-- Something asked of a shifter: an operation, or how long nothing is due. -/
inductive Request where
  | perform (op : Operation)
  | timeLeft (now : Tick)
  deriving DecidableEq, Repr

/-- What a request is answered. -/
inductive Answer where
  | reply (reply : Reply)
  | timeLeft (ms : Option UInt16)

/-- The same request at a later time. -/
def Request.later (k : Tick) : Request → Request
  | .perform op => .perform (op.later k)
  | .timeLeft now => .timeLeft (now + k)

namespace Shifter

/-- Answers one request. -/
def answer (p : Policy) (s : Shifter) : Request → Answer × Shifter
  | .perform op => let r := s.perform p op; (.reply r.1, r.2)
  | .timeLeft now => (.timeLeft (s.timeLeft now), s)

/-- What requests are answered one after the other, each with all that is reported by then. -/
def answers (p : Policy) : Shifter → List Request → List (Answer × List Report)
  | _, [] => []
  | s, request :: rest =>
    let r := s.answer p request
    (r.1, r.2.outbox) :: answers p r.2 rest

/-- The shifter once the requests are answered. -/
def afterAll (p : Policy) (s : Shifter) (requests : List Request) : Shifter :=
  requests.foldl (fun s request => (s.answer p request).2) s

theorem answer_later (p : Policy) (k : Tick) (s : Shifter) (request : Request) :
    (s.later k).answer p (request.later k) =
      ((s.answer p request).1, (s.answer p request).2.later k) := by
  cases request with
  | perform op => simp only [answer, Request.later, perform_later]
  | timeLeft now => simp only [answer, Request.later, timeLeft_later]

/-- **The wrap of the clock cannot be seen**: when every time that a shifter remembers and every
time in its requests is moved on by the same number of ticks, the answers and the reports are the
same, and the state they lead to is the same but for the move. -/
theorem answers_later (p : Policy) (k : Tick) (s : Shifter) (requests : List Request) :
    (s.later k).answers p (requests.map (Request.later k)) = s.answers p requests ∧
      (s.later k).afterAll p (requests.map (Request.later k)) =
        (s.afterAll p requests).later k := by
  induction requests generalizing s with
  | nil => exact ⟨rfl, rfl⟩
  | cons request rest ih =>
    obtain ⟨hanswers, hafter⟩ := ih (s.answer p request).2
    constructor
    · rw [List.map_cons, answers, answer_later, answers]
      dsimp only
      rw [hanswers]
      rfl
    · rw [List.map_cons, afterAll, List.foldl_cons, answer_later]
      exact hafter

/-- A key that is pressed shortly before the wrap and held until after it. -/
example :
    downs ((initial {}).run .stock [.handle (.press 4 0 0 65500), .scan 138, .scan 139]).outbox =
      [⟨4, true⟩] := by decide

end Shifter

end LongPress
