import LongPress.Shifter.Frame
import LongPress.Shifter.Operation

/-!
# LongPress.Loop

The loop that feeds a shifter: a short queue of messages, and one timer.

The loop handles what is queued, oldest first, and then waits for a message or for its timer. The
timer is set after everything the loop does, from what `timeLeft` says then. The clock of the timer
does not wrap; the shifter sees only its low sixteen bits. An *exit* message ends the loop for good.

`step?` is one turn of the loop, and `poll` lets it turn until it has to wait. A turn takes a
message or fires a timer that is due. A timer that fired is not due again at once, so `poll` ends.
-/

namespace LongPress

/-- A message to the loop. -/
inductive Message where
  | transition (event : Transition)
  | verdict (keycode : Keycode) (verdict : Verdict) (pressTime : Tick) (switch : Switch)
  | oneShot (bits : Modifiers)
  | exit
  deriving DecidableEq, Repr

/-- How far a loop has come. -/
inductive Loop.Phase where
  /-- It has not run yet, so its timer is not set. -/
  | unstarted
  /-- It waits for a message, or for the clock to reach the timer if it is set. -/
  | waiting (timer : Option Nat)
  | finished
  deriving DecidableEq, Repr

/-- A loop, its shifter and its clock in milliseconds. -/
structure Loop where
  shifter : Shifter
  clock : Nat := 0
  queue : List Message := []
  phase : Loop.Phase := .unstarted
  deriving DecidableEq, Repr

namespace Loop

/-- The number of messages that can be queued. -/
def capacity : Nat := 4

/-- The clock as the shifter sees it. -/
def now (l : Loop) : Tick := Tick.ofMillis l.clock

/-- Whether the loop has ended. -/
def isFinished (l : Loop) : Bool := l.phase = .finished

/-! ## Messages and the clock -/

def isFull (l : Loop) : Bool := capacity ≤ l.queue.length

/-- Queues a message and says whether there was room. Without room it is lost. -/
def send (l : Loop) (m : Message) : Bool × Loop :=
  if l.isFull then (false, l) else (true, { l with queue := l.queue ++ [m] })

/-- Moves the clock on. -/
def advance (l : Loop) (ms : Nat) : Loop := { l with clock := l.clock + ms }

/-! ## Turns -/

/-- Sets the timer anew. -/
def arm (l : Loop) : Loop :=
  { l with phase := .waiting ((l.shifter.timeLeft l.now).map fun ms => l.clock + ms.toNat) }

/-- Whether the timer is set and its time has come. -/
def isDue (l : Loop) : Bool :=
  match l.phase with
  | .waiting (some time) => time ≤ l.clock
  | _ => false

/-- Handles a message other than exit. A transition that goes on is reported. -/
def deliver (p : Policy) (now : Tick) (s : Shifter) : Message → Shifter
  | .transition event =>
    let r := s.handle p event
    if r.1 then r.2.emit (.forward event) else r.2
  | .verdict keycode v pressTime switch => (s.verdict p keycode v pressTime switch now).2
  | .oneShot bits => { s with oneShot := bits }
  | .exit => s

/-- Takes the oldest message. -/
def take (p : Policy) (l : Loop) (m : Message) (rest : List Message) : Loop :=
  match m with
  | .exit => { l with queue := rest, phase := .finished }
  | m => { l with queue := rest, shifter := deliver p l.now l.shifter m }.arm

/-- Fires the timer. -/
def fire (p : Policy) (l : Loop) : Loop := { l with shifter := l.shifter.scan p l.now }.arm

/-- Starts a loop that has not run yet. -/
def start (l : Loop) : Loop := if l.phase = .unstarted then l.arm else l

/-- One turn of a loop that has been started; none if it has to wait or has ended. -/
def step? (p : Policy) (l : Loop) : Option Loop :=
  if l.isFinished then none
  else
    match l.queue with
    | m :: rest => some (l.take p m rest)
    | [] => if l.isDue then some (l.fire p) else none

/-! ## Every loop has to wait at last -/

/-- Two for each message, one for a timer that is due. -/
def turnsLeft (l : Loop) : Nat := 2 * l.queue.length + if l.isDue then 1 else 0

theorem queue_take (p : Policy) (l : Loop) (m : Message) (rest : List Message) :
    (l.take p m rest).queue = rest := by
  cases m <;> rfl

theorem isDue_arm {l : Loop} (h : l.shifter.timeLeft l.now ≠ some 0) : l.arm.isDue = false := by
  unfold isDue arm
  cases ht : l.shifter.timeLeft l.now with
  | none => rfl
  | some ms =>
    have hms : ms.toNat ≠ 0 := fun e =>
      h (ht.trans (congrArg some (UInt16.toNat_inj.mp e)))
    simp only [Option.map_some, decide_eq_false_iff_not]
    omega

/-- A timer that fired is not due again. -/
theorem isDue_fire (p : Policy) (l : Loop) : (l.fire p).isDue = false :=
  isDue_arm (l.shifter.timeLeft_scan_ne_zero p l.now)

theorem turnsLeft_lt_of_step? {p : Policy} {l next : Loop} (h : l.step? p = some next) :
    next.turnsLeft < l.turnsLeft := by
  unfold step? at h
  split at h
  · simp at h
  · split at h
    · next m rest hq =>
      simp only [Option.some.injEq] at h
      subst h
      simp only [turnsLeft, queue_take, hq, List.length_cons]
      split <;> omega
    · next hq =>
      split at h
      · next hd =>
        simp only [Option.some.injEq] at h
        subst h
        have hf : (l.fire p).queue = [] := hq
        simp [turnsLeft, isDue_fire, hd, hf, hq]
      · simp at h

/-- Lets a started loop turn until it has to wait or has ended. -/
def settle (p : Policy) (l : Loop) : Loop :=
  match _h : l.step? p with
  | some next => next.settle p
  | none => l
termination_by l.turnsLeft
decreasing_by exact turnsLeft_lt_of_step? _h

/-- Lets the loop run until it has to wait or has ended. -/
def poll (p : Policy) (l : Loop) : Loop := l.start.settle p

/-! ## Reports -/

/-- Posts what the shifter has said. -/
def post (l : Loop) (m : Mailbox) : Loop × Mailbox :=
  ({ l with shifter := l.shifter.collect.2 }, m.postAll l.shifter.collect.1)

end Loop

end LongPress
