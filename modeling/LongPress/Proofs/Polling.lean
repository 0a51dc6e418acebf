import LongPress.Loop

/-!
# LongPress.Proofs.Polling

The loop with its timer does what plain polling does.

A `Poller` has no timer: when it is polled it handles what is queued and then scans, whatever the
time.  The loop scans only when its timer has fired, and its timer may have been set at an earlier
poll.  The two agree because a scan that the timer spares would have done nothing
(`scan_of_timeLeft_ne_zero`), and because a timer that is not due yet says so of the present time as
well: `Armed` keeps the clock the timer was set at, and `timeLeft_ne_zero_of_lt` moves what
`timeLeft` said then to any clock before it fires.

* `play_eq_play` — the main statement: after every script the loop and the poller are in one state,
  and a poll takes finitely many turns, at most one of them a scan, and leaves nothing due.
-/

namespace LongPress

/-! ## Scripts -/

/-- What can happen around a loop. -/
inductive Occurrence where
  /-- A message is sent; it is lost if the queue is full. -/
  | send (m : Message)
  | advance (ms : Nat)
  | poll
  deriving DecidableEq, Repr

namespace Loop

def follow (p : Policy) (l : Loop) : Occurrence → Loop
  | .send m => (l.send m).2
  | .advance ms => l.advance ms
  | .poll => l.poll p

/-- A loop after a script. -/
def play (p : Policy) (l : Loop) (script : List Occurrence) : Loop := script.foldl (follow p) l

/-- `Turns p l n last`: from `l` a finite number of turns leads to `last`, which has none left; `n`
of the turns are scans. -/
inductive Turns (p : Policy) : Loop → Nat → Loop → Prop where
  | done {l : Loop} : l.step? p = none → Turns p l 0 l
  | message {l last : Loop} {m : Message} {rest : List Message} {n : Nat} :
      l.isFinished = false → l.queue = m :: rest → Turns p (l.take p m rest) n last →
        Turns p l n last
  | scan {l last : Loop} {n : Nat} :
      l.isFinished = false → l.queue = [] → l.isDue = true → Turns p (l.fire p) n last →
        Turns p l (n + 1) last

end Loop

/-! ## Plain polling -/

/-- A shifter that is polled: a queue and a clock, but no timer. -/
structure Poller where
  shifter : Shifter
  clock : Nat := 0
  queue : List Message := []
  isFinished : Bool := false
  deriving DecidableEq, Repr

namespace Poller

/-- The operation that a message asks for; none for exit. A transition that goes on is reported. -/
def obey? (p : Policy) (now : Tick) (s : Shifter) : Message → Option Shifter
  | .transition event =>
    let r := s.perform p (.handle event)
    match r.1 with
    | .usual true => some (r.2.emit (.forward event))
    | _ => some r.2
  | .verdict keycode v pressTime switch =>
    some (s.perform p (.verdict keycode v pressTime switch now)).2
  | .oneShot bits => some (s.perform p (.setOneShot bits)).2
  | .exit => none

/-- Handles messages, oldest first, and scans once when there are none left. An exit ends it for
good, without a scan. -/
def serve (p : Policy) (clock : Nat) : List Message → Shifter → Poller
  | [], s => { shifter := s.scan p (Tick.ofMillis clock), clock }
  | m :: rest, s =>
    match obey? p (Tick.ofMillis clock) s m with
    | some t => serve p clock rest t
    | none => { shifter := s, clock, queue := rest, isFinished := true }

def poll (p : Policy) (r : Poller) : Poller :=
  if r.isFinished then r else serve p r.clock r.queue r.shifter

def follow (p : Policy) (r : Poller) : Occurrence → Poller
  | .send m =>
    if Loop.capacity ≤ r.queue.length then r else { r with queue := r.queue ++ [m] }
  | .advance ms => { r with clock := r.clock + ms }
  | .poll => r.poll p

/-- A poller after a script. -/
def play (p : Policy) (r : Poller) (script : List Occurrence) : Poller := script.foldl (follow p) r

/-- What a loop and a poller have in common. -/
def ofLoop (l : Loop) : Poller where
  shifter := l.shifter
  clock := l.clock
  queue := l.queue
  isFinished := l.isFinished

end Poller

/-! ## A scan before its time -/

namespace Shifter

variable {p : Policy} {s : Shifter}

theorem timeLeft_le_timeToDecide {now : Tick} {a : UInt16} (h : s.timeToDecide now = some a) :
    ∃ m, s.timeLeft now = some m ∧ m.toNat ≤ a.toNat := by
  unfold timeLeft
  rw [h]
  cases s.timeToHandOff now with
  | none => exact ⟨a, rfl, Nat.le_refl _⟩
  | some b =>
    refine ⟨_, rfl, ?_⟩
    split
    · exact Nat.le_refl _
    · next hab => exact Nat.le_of_lt (Nat.lt_of_not_le hab)

theorem timeLeft_le_timeToHandOff {now : Tick} {b : UInt16} (h : s.timeToHandOff now = some b) :
    ∃ m, s.timeLeft now = some m ∧ m.toNat ≤ b.toNat := by
  unfold timeLeft
  rw [h]
  cases s.timeToDecide now with
  | none => exact ⟨b, rfl, Nat.le_refl _⟩
  | some a =>
    refine ⟨_, rfl, ?_⟩
    split
    · next hab => exact hab
    · exact Nat.le_refl _

/-- What is due in one respect is due. -/
theorem timeLeft_eq_zero_iff {now : Tick} :
    s.timeLeft now = some 0 ↔ s.timeToDecide now = some 0 ∨ s.timeToHandOff now = some 0 := by
  constructor
  · exact timeLeft_eq_zero
  · intro h
    have hleft : ∃ m, s.timeLeft now = some m ∧ m.toNat ≤ (0 : UInt16).toNat := by
      cases h with
      | inl h => exact timeLeft_le_timeToDecide h
      | inr h => exact timeLeft_le_timeToHandOff h
    obtain ⟨m, hm, hle⟩ := hleft
    have hzero : m = 0 := UInt16.toNat_inj.mp (Nat.le_zero.mp hle)
    rw [hm, hzero]

/-- A scan does nothing while nothing is due. -/
theorem scan_of_timeLeft_ne_zero {now : Tick} (h : s.timeLeft now ≠ some 0) :
    s.scan p now = s := by
  rw [ne_eq, timeLeft_eq_zero_iff, not_or] at h
  obtain ⟨hdecide, hhandOff⟩ := h
  have hwaiting : s.scanWaiting p now = s := by
    unfold scanWaiting
    cases hw : s.waiting with
    | none => rfl
    | some event =>
      dsimp only
      rw [if_neg]
      intro hle
      apply hdecide
      have hsub : s.timeout.toNat - (now.since event.time).toNat = 0 := Nat.sub_eq_zero_of_le hle
      rw [timeToDecide, hw, Option.map_some, hsub]
      rfl
  rw [scan, hwaiting, scanTracked]
  split
  · rw [if_neg hhandOff]
  · rfl

/-! ### Moving the clock on -/

/-- What is left of a limit at one clock is right until the limit is reached. -/
theorem left_ne_zero_of_lt {limit : UInt16} {past : Tick} {c clock : Nat} (hle : c ≤ clock)
    (hlt : clock < c + (UInt16.ofNat
      (limit.toNat - ((Tick.ofMillis c).since past).toNat)).toNat) :
    UInt16.ofNat (limit.toNat - ((Tick.ofMillis clock).since past).toNat) ≠ 0 := by
  have hlimit := limit.toNat_lt
  have hpast := past.toNat_lt
  intro e
  have hzero := congrArg UInt16.toNat e
  rw [UInt16.toNat_ofNat', toNat_since_ofMillis, UInt16.toNat_zero] at hzero
  rw [UInt16.toNat_ofNat', toNat_since_ofMillis] at hlt
  omega

/-- As long as the clock has not passed what was left at `c`, something is left. -/
theorem timeLeft_ne_zero_of_lt {c clock : Nat} (hle : c ≤ clock)
    (h : ∀ m, s.timeLeft (Tick.ofMillis c) = some m → clock < c + m.toNat) :
    s.timeLeft (Tick.ofMillis clock) ≠ some 0 := by
  rw [ne_eq, timeLeft_eq_zero_iff, not_or]
  constructor
  · intro hzero
    unfold timeToDecide at hzero
    cases hw : s.waiting with
    | none => simp [hw] at hzero
    | some event =>
      rw [hw, Option.map_some, Option.some.injEq] at hzero
      have hc : s.timeToDecide (Tick.ofMillis c) = some (UInt16.ofNat
          (s.timeout.toNat - ((Tick.ofMillis c).since event.time).toNat)) := by
        rw [timeToDecide, hw, Option.map_some]
      obtain ⟨m, hm, hma⟩ := timeLeft_le_timeToDecide hc
      have hlt := h m hm
      exact left_ne_zero_of_lt hle (by omega) hzero
  · intro hzero
    unfold timeToHandOff at hzero
    by_cases hzeroTime : s.settings.trackingTime = 0
    · simp [hzeroTime] at hzero
    · cases ht : s.tracked with
      | none => simp [ht] at hzero
      | some event =>
        rw [if_neg hzeroTime, ht, Option.map_some, Option.some.injEq] at hzero
        have hc : s.timeToHandOff (Tick.ofMillis c) = some (UInt16.ofNat
            (s.settings.trackingTime.toNat - ((Tick.ofMillis c).since event.time).toNat)) := by
          rw [timeToHandOff, if_neg hzeroTime, ht, Option.map_some]
        obtain ⟨m, hm, hmb⟩ := timeLeft_le_timeToHandOff hc
        have hlt := h m hm
        exact left_ne_zero_of_lt hle (by omega) hzero

end Shifter

/-! ## The timer -/

namespace Loop

variable {p : Policy} {l : Loop}

/-- The timer is set for what `timeLeft` said at a clock that is not ahead. -/
def Armed (l : Loop) : Prop :=
  match l.phase with
  | .waiting timer =>
    ∃ c, c ≤ l.clock ∧
      timer = (l.shifter.timeLeft (Tick.ofMillis c)).map fun ms => c + ms.toNat
  | _ => True

theorem armed_arm (l : Loop) : Armed l.arm := ⟨l.clock, Nat.le_refl _, rfl⟩

theorem armed_send (h : Armed l) (m : Message) : Armed (l.send m).2 := by
  unfold send
  split
  · exact h
  · exact h

theorem armed_advance (h : Armed l) (ms : Nat) : Armed (l.advance ms) := by
  unfold Armed advance at *
  dsimp only
  split
  · next timer hphase =>
    rw [hphase] at h
    obtain ⟨c, hc, htimer⟩ := h
    exact ⟨c, Nat.le_trans hc (Nat.le_add_right _ _), htimer⟩
  · trivial

/-- While the timer is not due there is nothing to scan for. -/
theorem timeLeft_ne_zero_of_isDue {timer : Option Nat} (h : Armed l)
    (hphase : l.phase = .waiting timer) (hdue : l.isDue = false) :
    l.shifter.timeLeft l.now ≠ some 0 := by
  unfold Armed at h
  rw [hphase] at h
  obtain ⟨c, hc, htimer⟩ := h
  refine Shifter.timeLeft_ne_zero_of_lt hc ?_
  intro m hm
  rw [hm, Option.map_some] at htimer
  unfold isDue at hdue
  rw [hphase, htimer] at hdue
  exact Nat.lt_of_not_le (of_decide_eq_false hdue)

/-! ## Turns -/

theorem settle_of_step? {next : Loop} (h : l.step? p = some next) :
    l.settle p = next.settle p := by
  rw [settle]
  split
  · next next' h' =>
    rw [h, Option.some.injEq] at h'
    rw [h']
  · next h' => simp [h] at h'

theorem settle_of_none (h : l.step? p = none) : l.settle p = l := by
  rw [settle]
  split
  · next next' h' => simp [h] at h'
  · rfl

theorem step?_of_isFinished (hf : l.isFinished = true) : l.step? p = none := by
  simp [step?, hf]

theorem isFinished_of_waiting {timer : Option Nat} (h : l.phase = .waiting timer) :
    l.isFinished = false := by
  simp [isFinished, h]

theorem step?_message {m : Message} {rest : List Message} (hf : l.isFinished = false)
    (hq : l.queue = m :: rest) : l.step? p = some (l.take p m rest) := by
  simp [step?, hf, hq]

theorem step?_scan (hf : l.isFinished = false) (hq : l.queue = []) (hd : l.isDue = true) :
    l.step? p = some (l.fire p) := by
  simp [step?, hf, hq, hd]

theorem step?_rest (hq : l.queue = []) (hd : l.isDue = false) : l.step? p = none := by
  simp [step?, hq, hd]

/-- After a scan there is no turn left. -/
theorem step?_fire (hq : l.queue = []) : (l.fire p).step? p = none :=
  step?_rest hq (isDue_fire p l)

/-- However long the queue is, only the turn after it can be a scan. -/
theorem turns_settle (p : Policy) (l : Loop) : ∃ n, n ≤ 1 ∧ Turns p l n (l.settle p) := by
  induction hq : l.queue generalizing l with
  | nil =>
    cases hf : l.isFinished with
    | true =>
      have hstep : l.step? p = none := step?_of_isFinished hf
      rw [settle_of_none hstep]
      exact ⟨0, Nat.zero_le 1, .done hstep⟩
    | false =>
      cases hd : l.isDue with
      | true =>
        rw [settle_of_step? (step?_scan hf hq hd), settle_of_none (step?_fire hq)]
        exact ⟨1, Nat.le_refl 1, .scan hf hq hd (.done (step?_fire hq))⟩
      | false =>
        have hstep : l.step? p = none := step?_rest hq hd
        rw [settle_of_none hstep]
        exact ⟨0, Nat.zero_le 1, .done hstep⟩
  | cons m rest ih =>
    cases hf : l.isFinished with
    | true =>
      have hstep : l.step? p = none := step?_of_isFinished hf
      rw [settle_of_none hstep]
      exact ⟨0, Nat.zero_le 1, .done hstep⟩
    | false =>
      obtain ⟨n, hn, hturns⟩ := ih (l.take p m rest) (queue_take p l m rest)
      rw [settle_of_step? (step?_message hf hq)]
      exact ⟨n, hn, .message hf hq hturns⟩

end Loop

/-! ## The loop is a poller -/

namespace Poller

open Loop

variable {p : Policy} {l : Loop}

/-- Other than exit, the loop delivers a message as the operation it asks for. -/
theorem obey?_eq (p : Policy) (now : Tick) (s : Shifter) {m : Message} (h : m ≠ .exit) :
    obey? p now s m = some (deliver p now s m) := by
  cases m with
  | transition event =>
    simp only [obey?, deliver, Shifter.perform]
    cases (s.handle p event).1 <;> rfl
  | verdict keycode v pressTime switch => rfl
  | oneShot bits => rfl
  | exit => exact absurd rfl h

/-- A loop that is let turn serves its queue. -/
theorem ofLoop_settle {timer : Option Nat} (harmed : Armed l) (hphase : l.phase = .waiting timer) :
    ofLoop (l.settle p) = serve p l.clock l.queue l.shifter ∧ Armed (l.settle p) := by
  have hf : l.isFinished = false := isFinished_of_waiting hphase
  induction hq : l.queue generalizing l timer with
  | nil =>
    cases hd : l.isDue with
    | true =>
      rw [settle_of_step? (step?_scan hf hq hd), settle_of_none (step?_fire hq)]
      refine ⟨?_, armed_arm _⟩
      rw [serve, ofLoop, show (l.fire p).queue = [] from hq]
      rfl
    | false =>
      have hleft := timeLeft_ne_zero_of_isDue harmed hphase hd
      rw [settle_of_none (step?_rest hq hd)]
      refine ⟨?_, harmed⟩
      rw [serve, show Tick.ofMillis l.clock = l.now from rfl,
        Shifter.scan_of_timeLeft_ne_zero hleft, ofLoop, hq, hf]
  | cons m rest ih =>
    rw [settle_of_step? (step?_message hf hq)]
    by_cases hm : m = .exit
    · subst hm
      have hstep : (l.take p .exit rest).step? p = none := step?_of_isFinished rfl
      rw [settle_of_none hstep]
      exact ⟨rfl, trivial⟩
    · have htake : l.take p m rest =
          { l with queue := rest, shifter := deliver p l.now l.shifter m }.arm := by
        cases m with
        | exit => exact absurd rfl hm
        | _ => rfl
      obtain ⟨hserve, harmed'⟩ := @ih (l.take p m rest) _
        (by rw [htake]; exact armed_arm _) (by rw [htake]; rfl) (by rw [htake]; rfl)
        (queue_take p l m rest)
      refine ⟨?_, harmed'⟩
      rw [hserve, serve, obey?_eq p _ _ hm, htake]
      rfl

/-- The first poll sets the timer, later ones keep it. -/
theorem ofLoop_poll (h : Armed l) :
    ofLoop (l.poll p) = (ofLoop l).poll p ∧ Armed (l.poll p) := by
  cases hphase : l.phase with
  | unstarted =>
    have hstart : l.start = l.arm := by rw [start, if_pos hphase]
    have hf : (ofLoop l).isFinished = false := by simp [ofLoop, Loop.isFinished, hphase]
    obtain ⟨hserve, harmed⟩ := ofLoop_settle (p := p) (armed_arm l) rfl
    rw [Loop.poll, hstart, Poller.poll, hf]
    exact ⟨hserve, harmed⟩
  | waiting timer =>
    have hstart : l.start = l := by simp [start, hphase]
    have hf : (ofLoop l).isFinished = false := isFinished_of_waiting hphase
    obtain ⟨hserve, harmed⟩ := ofLoop_settle (p := p) h hphase
    rw [Loop.poll, hstart, Poller.poll, hf]
    exact ⟨hserve, harmed⟩
  | finished =>
    have hstart : l.start = l := by simp [start, hphase]
    have hf : l.isFinished = true := by simp [Loop.isFinished, hphase]
    rw [Loop.poll, hstart, settle_of_none (step?_of_isFinished hf), Poller.poll]
    exact ⟨(if_pos hf).symm, h⟩

theorem ofLoop_follow (h : Armed l) (o : Occurrence) :
    ofLoop (l.follow p o) = (ofLoop l).follow p o ∧ Armed (l.follow p o) := by
  cases o with
  | send m =>
    refine ⟨?_, armed_send h m⟩
    by_cases hfull : capacity ≤ (ofLoop l).queue.length
    · have hsend : l.send m = (false, l) := if_pos (decide_eq_true hfull)
      rw [Loop.follow, hsend, follow, if_pos hfull]
    · have hsend : l.send m = (true, { l with queue := l.queue ++ [m] }) :=
        if_neg (by rw [isFull, decide_eq_true_eq]; exact hfull)
      rw [Loop.follow, hsend, follow, if_neg hfull]
      rfl
  | advance ms => exact ⟨rfl, armed_advance h ms⟩
  | poll => exact ofLoop_poll h

theorem ofLoop_play (h : Armed l) (script : List Occurrence) :
    ofLoop (l.play p script) = (ofLoop l).play p script := by
  induction script generalizing l with
  | nil => rfl
  | cons o rest ih =>
    obtain ⟨hstep, harmed⟩ := ofLoop_follow (p := p) h o
    have hrest := ih harmed
    rw [hstep] at hrest
    exact hrest

/-- A poller that goes on has an empty queue and has just scanned. -/
theorem serve_eq_scan (p : Policy) (clock : Nat) (queue : List Message) (s : Shifter) :
    (serve p clock queue s).isFinished = true ∨
      ∃ t : Shifter,
        serve p clock queue s = { shifter := t.scan p (Tick.ofMillis clock), clock } := by
  induction queue generalizing s with
  | nil => exact .inr ⟨s, rfl⟩
  | cons m rest ih =>
    rw [serve]
    split
    · exact ih _
    · exact .inl rfl

/-- A loop that has been polled has come to its end, or has handled everything and nothing is
due. -/
theorem poll_leaves_nothing (h : Armed l) :
    (l.poll p).isFinished = true ∨
      (l.poll p).queue = [] ∧ (l.poll p).shifter.timeLeft (l.poll p).now ≠ some 0 := by
  obtain ⟨hpoll, -⟩ := ofLoop_poll (p := p) h
  have hserved : (ofLoop (l.poll p)).isFinished = true ∨
      ∃ t : Shifter, ofLoop (l.poll p) =
        { shifter := t.scan p (Tick.ofMillis l.clock), clock := l.clock } := by
    rw [hpoll, Poller.poll]
    split
    · next hf => exact .inl hf
    · exact serve_eq_scan p l.clock l.queue l.shifter
  cases hserved with
  | inl hf => exact .inl hf
  | inr hscan =>
    obtain ⟨t, ht⟩ := hscan
    have hshifter : (l.poll p).shifter = t.scan p (Tick.ofMillis l.clock) :=
      congrArg Poller.shifter ht
    have hclock : (l.poll p).clock = l.clock := congrArg Poller.clock ht
    refine .inr ⟨congrArg Poller.queue ht, ?_⟩
    rw [hshifter, Loop.now, hclock]
    exact t.timeLeft_scan_ne_zero p _

/-- Timers stay right through a script. -/
theorem armed_play (h : Armed l) (script : List Occurrence) : Armed (l.play p script) := by
  induction script generalizing l with
  | nil => exact h
  | cons o rest ih => exact ih (ofLoop_follow h o).2

/-- **The loop does what polling does**: after every script a loop and a poller that began with one
shifter and one clock have the same shifter, reports included, the same queue and the same clock,
and both have ended or neither.  From there a poll of the loop comes to rest after finitely many
turns, of which at most one is a scan; unless it has ended, its queue is empty then and nothing is
due. -/
theorem play_eq_play (p : Policy) (s : Shifter) (clock : Nat) (script : List Occurrence) :
    ofLoop (Loop.play p { shifter := s, clock } script) =
        play p { shifter := s, clock } script ∧
      (∃ n, n ≤ 1 ∧ Turns p (Loop.play p { shifter := s, clock } script).start n
        ((Loop.play p { shifter := s, clock } script).poll p)) ∧
      (((Loop.play p { shifter := s, clock } script).poll p).isFinished = true ∨
        ((Loop.play p { shifter := s, clock } script).poll p).queue = [] ∧
          ((Loop.play p { shifter := s, clock } script).poll p).shifter.timeLeft
            ((Loop.play p { shifter := s, clock } script).poll p).now ≠ some 0) := by
  have harmed : Armed { shifter := s, clock } := trivial
  refine ⟨ofLoop_play harmed script, turns_settle p _, ?_⟩
  exact poll_leaves_nothing (armed_play harmed script)

end Poller

end LongPress
