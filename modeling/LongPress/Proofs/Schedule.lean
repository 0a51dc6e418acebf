import LongPress.Proofs.Level

/-!
# LongPress.Proofs.Schedule

What is typed does not depend on when the shifter is told the time.

A schedule lists the moves of keys and the scans in between, each with the clock it comes at.  It is
orderly if its keys are ordinary, its clocks never go back, its moves fall within one period of the
wrapping clock, and every key goes down and up in turn and ends up.

* `typed_regardless_of_scans` — two orderly schedules of the same moves type the same.

Both are compared with the schedule of the moves alone.  Two shifters that carry out the same moves,
one of them with scans, are level for most of the time: they differ in what is down, and perhaps in
the time of the last decision (`Level`).  A scan that decides a key brings the first one ahead, and
the second one owes the key until its next move; by then the key has been held for the timeout there
too, so that it is sent in the same form (`Trails`).  A key that is repeated is the last one, and
cannot be pressed while it waits to be released; so the time of the last decision is never compared
when it differs.
-/

namespace LongPress

/-! ## Schedules -/

/-- One moment of a schedule, with the milliseconds since the start. -/
inductive Moment where
  /-- A key moves. -/
  | move (clock : Nat) (keycode : Keycode) (switch : Switch)
  /-- The shifter is told the time. -/
  | scan (clock : Nat)
  deriving DecidableEq, Repr

namespace Moment

def clock : Moment → Nat
  | move clock _ _ => clock
  | scan clock => clock

def isMove : Moment → Bool
  | move .. => true
  | scan _ => false

/-- The key that moves. -/
def keycode? : Moment → Option Keycode
  | move _ keycode _ => some keycode
  | scan _ => none

/-- Whether only an ordinary key moves. -/
def isOrdinary : Moment → Bool
  | move _ keycode _ => keycode.isOrdinary
  | scan _ => true

/-- What is asked of the shifter, on its wrapping clock. -/
def operation : Moment → Operation
  | move clock keycode switch => .handle ⟨keycode, switch, Tick.ofMillis clock⟩
  | scan clock => .scan (Tick.ofMillis clock)

/-- The keys that are down after a moment, if those of `isDown` are down before. -/
def after (isDown : Keycode → Bool) : Moment → Keycode → Bool
  | move _ keycode switch => Function.update isDown keycode switch.isDown
  | scan _ => isDown

end Moment

/-- What a schedule asks of the shifter. -/
def operations (schedule : List Moment) : List Operation := schedule.map Moment.operation

/-- A schedule of ordinary keys, of which those of `isDown` are down at the start: the clocks never
go back, the moves fall within one period of the wrapping clock, and each key moves down and up in
turn and ends up. -/
structure Orderly (isDown : Keycode → Bool) (schedule : List Moment) : Prop where
  ordinary : ∀ m ∈ schedule, m.isOrdinary = true
  ordered : schedule.Pairwise fun m n => m.clock ≤ n.clock
  span : ∀ m ∈ schedule, ∀ n ∈ schedule, m.isMove = true → n.isMove = true →
    n.clock < m.clock + 65536
  alternates : ∀ k, (isDown k :: movesOf k (operations schedule)).IsChain (· ≠ ·)
  released : ∀ k, (movesOf k (operations schedule)).getLastD (isDown k) = false

namespace Orderly

variable {isDown : Keycode → Bool} {m : Moment} {rest : List Moment} {clock : Nat} {k : Keycode}
  {switch : Switch}

/-- The moves of a key from a moment on begin with its move in that moment. -/
theorem movesOf_operations (k : Keycode) (isDown : Keycode → Bool) (m : Moment)
    (rest : List Moment) :
    movesOf k (operations (m :: rest)) = movesOf k (operations rest) ∧ m.after isDown k = isDown k ∨
      movesOf k (operations (m :: rest)) =
        m.after isDown k :: movesOf k (operations rest) := by
  rw [operations, List.map_cons, movesOf_cons]
  cases m with
  | scan clock => exact .inl ⟨rfl, rfl⟩
  | move clock keycode switch =>
    by_cases hk : keycode = k
    · subst hk
      right
      simp [Moment.operation, Operation.moveOf?, Moment.after, operations, Transition.isDown]
    · left
      simp [Moment.operation, Operation.moveOf?, Moment.after, operations, hk,
        Function.update_of_ne (Ne.symm hk)]

theorem tail (h : Orderly isDown (m :: rest)) : Orderly (m.after isDown) rest where
  ordinary n hn := h.ordinary n (List.mem_cons_of_mem m hn)
  ordered := (List.pairwise_cons.mp h.ordered).2
  span a ha b hb := h.span a (List.mem_cons_of_mem m ha) b (List.mem_cons_of_mem m hb)
  alternates k := by
    have halternates := h.alternates k
    cases movesOf_operations k isDown m rest with
    | inl hcase => rwa [hcase.1, ← hcase.2] at halternates
    | inr hcase =>
      rw [hcase] at halternates
      exact (List.isChain_cons_cons.mp halternates).2
  released k := by
    have hreleased := h.released k
    cases movesOf_operations k isDown m rest with
    | inl hcase => rwa [hcase.1, ← hcase.2] at hreleased
    | inr hcase => rwa [hcase, List.getLastD_cons] at hreleased

/-- A key goes down only when it is up, and up only when it is down. -/
theorem head_ne (h : Orderly isDown (.move clock k switch :: rest)) : isDown k ≠ switch.isDown := by
  have halternates := h.alternates k
  simp only [operations, List.map_cons, movesOf_cons, Moment.operation, Operation.moveOf?, if_true,
    Option.toList_some, List.singleton_append, List.isChain_cons_cons] at halternates
  exact halternates.1

/-- A key without a moment of its own does not move. -/
theorem movesOf_eq_nil {schedule : List Moment} (h : k ∉ schedule.filterMap Moment.keycode?) :
    movesOf k (operations schedule) = [] := by
  rw [movesOf, operations, List.filterMap_eq_nil_iff]
  intro op hop
  obtain ⟨m, hm, rfl⟩ := List.mem_map.mp hop
  cases m with
  | scan clock => rfl
  | move clock keycode switch =>
    refine if_neg fun hk => h (List.mem_filterMap.mpr ⟨_, hm, ?_⟩)
    rw [Moment.keycode?, ← hk]

/-- From a keyboard whose keys are up it is enough to look at the keys that move. -/
theorem of_keys {schedule : List Moment} (ordinary : ∀ m ∈ schedule, m.isOrdinary = true)
    (ordered : schedule.Pairwise fun m n => m.clock ≤ n.clock)
    (span : ∀ m ∈ schedule, ∀ n ∈ schedule, m.isMove = true → n.isMove = true →
      n.clock < m.clock + 65536)
    (keys : (schedule.filterMap Moment.keycode?).all (fun k =>
      (false :: movesOf k (operations schedule)).IsChain (· ≠ ·) ∧
        (movesOf k (operations schedule)).getLastD false = false) = true) :
    Orderly (fun _ => false) schedule := by
  have hkey : ∀ k, (false :: movesOf k (operations schedule)).IsChain (· ≠ ·) ∧
      (movesOf k (operations schedule)).getLastD false = false := by
    intro k
    by_cases hk : k ∈ schedule.filterMap Moment.keycode?
    · exact of_decide_eq_true (List.all_eq_true.mp keys k hk)
    · rw [movesOf_eq_nil hk]
      exact ⟨.singleton _, rfl⟩
  exact ⟨ordinary, ordered, span, fun k => (hkey k).1, fun k => (hkey k).2⟩

/-- What comes later has the later clock. -/
theorem head_le (h : Orderly isDown (m :: rest)) : ∀ n ∈ rest, m.clock ≤ n.clock :=
  (List.pairwise_cons.mp h.ordered).1

end Orderly

/-- What is overdue by one clock is overdue by every later one within a period. -/
theorem le_since_of_le {limit : UInt16} {c now later : Nat} (hc : c ≤ now) (hle : now ≤ later)
    (hlt : later < c + 65536)
    (h : limit ≤ (Tick.ofMillis now).since (Tick.ofMillis c)) :
    limit ≤ (Tick.ofMillis later).since (Tick.ofMillis c) := by
  have hpast : (Tick.ofMillis c).toNat = c % 65536 := UInt16.toNat_ofNat'
  rw [UInt16.le_iff_toNat_le, toNat_since_ofMillis, hpast] at h ⊢
  omega

namespace Shifter

variable {p : Policy} {s t u v : Shifter} {event : Transition} {now : Tick}
  {isDown : Keycode → Bool} {m : Moment} {rest : List Moment} {owed : List Sending}
  {clock : Nat} {k : Keycode} {switch : Switch}

/-! ## A key that is owed -/

/-- What is known of a press that waits: its key is down and the last one, and its time is that of a
clock from which the rest of the schedule stays within one period. -/
structure Awaits (p : Policy) (isDown : Keycode → Bool) (rest : List Moment) (s : Shifter)
    (e : Transition) : Prop where
  isDown : isDown e.keycode = true
  last : s.last = e.keycode
  forms : s.hasForms p e.keycode = true
  time : ∃ c, e.time = Tick.ofMillis c ∧
    ∀ m ∈ rest, c ≤ m.clock ∧ (m.isMove = true → m.clock < c + 65536)

namespace Awaits

variable {e : Transition}

theorem tail (h : Awaits p isDown (m :: rest) s e) : Awaits p isDown rest s e where
  isDown := h.isDown
  last := h.last
  forms := h.forms
  time := by
    obtain ⟨c, hc, hwithin⟩ := h.time
    exact ⟨c, hc, fun n hn => hwithin n (List.mem_cons_of_mem m hn)⟩

/-- A press that waits goes on waiting at the move of another key. -/
theorem move (h : Awaits p isDown (.move clock k switch :: rest) s e) (hne : e.keycode ≠ k)
    (last : t.last = s.last) (forms : t.hasForms p e.keycode = s.hasForms p e.keycode) :
    Awaits p (Function.update isDown k switch.isDown) rest t e where
  isDown := by rw [Function.update_of_ne hne]; exact h.isDown
  last := last.trans h.last
  forms := forms.trans h.forms
  time := h.tail.time

/-- A press that a scan finds due is overdue at every later move. -/
theorem overdue (h : Awaits p isDown (.scan clock :: rest) s e)
    (horderly : Orderly isDown (.scan clock :: rest)) {limit : UInt16}
    (hdue : limit ≤ (Tick.ofMillis clock).since e.time) :
    ∀ m ∈ rest, m.isMove = true → limit ≤ (Tick.ofMillis m.clock).since e.time := by
  intro m hm hmove
  obtain ⟨c, hc, hwithin⟩ := h.time
  rw [hc] at hdue ⊢
  exact le_since_of_le (hwithin _ List.mem_cons_self).1 (horderly.head_le m hm)
    ((hwithin m (List.mem_cons_of_mem _ hm)).2 hmove) hdue

end Awaits

/-- `t` trails `s`, which is told the time: it is level with it, or owes a key that `s` has sent
already, which will be overdue at the next move. -/
inductive Trails (rest : List Moment) (s t : Shifter) : List Sending → Prop where
  | level (level : Level s t) : Trails rest s t []
  | owes (e : Transition) (waiting : t.waiting = some e)
      (alike : Alike s { t with waiting := none, lastShifted := true })
      (overdue : ∀ m ∈ rest, m.isMove = true →
        t.timeout ≤ (Tick.ofMillis m.clock).since e.time) :
      Trails rest s t [.key e.keycode true]

/-- A press that is due is decided in its shifted form. -/
theorem formAt_of_le (h : s.timeout ≤ now.since event.time) : s.formAt event now = true := by
  simp [formAt, h]

/-- With its decision the owed key is made good. -/
theorem Alike.decided_of_owed (h : Alike s { t with waiting := none, lastShifted := true })
    (hdue : t.timeout ≤ now.since event.time) : Alike s (t.decided event now) := by
  rw [Shifter.decided, formAt_of_le hdue]
  exact h

namespace Trails

/-- To trail is a matter of the cores. -/
theorem of_core (h : Trails rest s t owed) (hu : core u = core s) (hv : core v = core t) :
    Trails rest u v owed := by
  cases h with
  | level hlevel => exact .level (hlevel.of_core hu hv)
  | owes e hw halike hoverdue =>
    have hwaiting : v.waiting = t.waiting := (congrArg Shifter.waiting hv :)
    have htimeout : v.timeout = t.timeout := (congrArg Shifter.timeout hv :)
    have hahead : core { v with waiting := none, lastShifted := true } =
        core { t with waiting := none, lastShifted := true } :=
      (congrArg (fun x => core { x with waiting := none, lastShifted := true }) hv :)
    exact .owes e (hwaiting.trans hw) (halike.of_core hu hahead) (htimeout ▸ hoverdue)

theorem tail (h : Trails (m :: rest) s t owed) : Trails rest s t owed := by
  cases h with
  | level hlevel => exact .level hlevel
  | owes e hw halike hoverdue =>
    exact .owes e hw halike fun n hn => hoverdue n (List.mem_cons_of_mem m hn)

/-- What waits in the run with scans waits in the other one. -/
theorem waiting {e : Transition} (h : Trails rest s t owed) (hw : s.waiting = some e) :
    t.waiting = some e := by
  cases h with
  | level hlevel => rw [← hlevel.alike.waiting, hw]
  | owes _ _ halike => simp [halike.waiting] at hw

theorem hasForms (h : Trails rest s t owed) (k : Keycode) : s.hasForms p k = t.hasForms p k := by
  cases h with
  | level hlevel => exact hlevel.alike.hasForms k
  | owes _ _ halike => exact halike.hasForms k

theorem told (h : Trails rest s t owed) (now : Tick) :
    Trails rest { s with since := now } { t with since := now } owed := by
  cases h with
  | level hlevel => exact .level (hlevel.alike.told now)
  | owes e hw halike hoverdue => exact .owes e hw (halike.told now).alike hoverdue

theorem stopPassing (h : Trails rest s t owed) (k : Keycode) :
    Trails rest (s.stopPassing k) (t.stopPassing k) owed := by
  cases h with
  | level hlevel => exact .level (hlevel.stopPassing k)
  | owes e hw halike hoverdue => exact .owes e hw (halike.stopPassing k) hoverdue

theorem noteModifier (h : Trails rest s t owed) (k : Keycode) (isDown : Bool) :
    Trails rest (s.noteModifier k isDown) (t.noteModifier k isDown) owed := by
  cases h with
  | level hlevel => exact .level (hlevel.noteModifier k isDown)
  | owes e hw halike hoverdue => exact .owes e hw (halike.noteModifier k isDown) hoverdue

end Trails

/-- The two runs of one schedule at a moment: of all of it, and of its moves. -/
structure Paired (p : Policy) (isDown : Keycode → Bool) (rest : List Moment) (s t : Shifter)
    (owed : List Sending) : Prop where
  scanned : Calm s
  unscanned : Calm t
  awaits : ∀ e, t.waiting = some e → Awaits p isDown rest t e
  trails : Trails rest s t owed

/-! ## Scans -/

theorem scanSends_of_idle (hidle : ∀ e, s.waiting = some e → ¬ s.timeout ≤ now.since e.time) :
    s.scanSends now = [] := by
  unfold scanSends
  split
  · next e hw => exact if_neg (hidle e hw)
  · rfl

/-- A scan of the one run leaves the other trailing. -/
theorem Paired.scan (h : Paired p isDown (.scan clock :: rest) s t owed)
    (horderly : Orderly isDown (.scan clock :: rest)) :
    Paired p isDown rest (s.scan p (Tick.ofMillis clock)) t
      (owed ++ s.scanSends (Tick.ofMillis clock)) := by
  refine ⟨h.scanned.scan, h.unscanned, fun e hw => (h.awaits e hw).tail, ?_⟩
  by_cases hdue : ∃ e, s.waiting = some e ∧ s.timeout ≤ (Tick.ofMillis clock).since e.time
  · obtain ⟨e, hw, hle⟩ := hdue
    have hform := formAt_of_le hle
    have hsends : s.scanSends (Tick.ofMillis clock) = [.key e.keycode true] := by
      rw [scanSends, hw]
      simp [hle, hform]
    cases h.trails with
    | level hlevel =>
      have hwaiting : t.waiting = some e := h.trails.waiting hw
      have hdecided : Alike (s.decided e (Tick.ofMillis clock))
          { t with waiting := none, lastShifted := true } := by
        rw [decided, hform]
        exact hlevel.alike.congr fun x =>
          core { x with waiting := none, lastShifted := true, since := Tick.ofMillis clock }
      rw [hsends]
      exact .owes e hwaiting (hdecided.of_core (h.scanned.core_scan hw hle) rfl)
        ((h.awaits e hwaiting).overdue horderly (hlevel.alike.timeout ▸ hle))
    | owes _ _ halike => simp [halike.waiting] at hw
  · have hidle : ∀ e, s.waiting = some e → ¬ s.timeout ≤ (Tick.ofMillis clock).since e.time :=
      fun e hw hle => hdue ⟨e, hw, hle⟩
    rw [h.scanned.scan_eq hidle, scanSends_of_idle hidle, List.append_nil]
    exact h.trails.tail

/-! ## Presses -/

/-- With the settling of a press what is owed is made good, and the two runs are level or at least
alike.  In the latter case the last key is down, and so not the one that is pressed. -/
theorem Paired.settle (h : Paired p isDown (.move clock k switch :: rest) s t owed)
    (hup : isDown k = false) :
    owed ++ s.settleSends (Tick.ofMillis clock) = t.settleSends (Tick.ofMillis clock) ∧
      Alike (s.settle p (Tick.ofMillis clock) false) (t.settle p (Tick.ofMillis clock) false) ∧
      (Level (s.settle p (Tick.ofMillis clock) false) (t.settle p (Tick.ofMillis clock) false) ∨
        (t.settle p (Tick.ofMillis clock) false).last ≠ k) := by
  cases h.trails with
  | level hlevel =>
    obtain ⟨hsends, hsettled⟩ :=
      level_settle (p := p) h.scanned h.unscanned hlevel (Tick.ofMillis clock)
    exact ⟨hsends, hsettled.alike, .inl hsettled⟩
  | owes e hw halike hoverdue =>
    have hdue : t.timeout ≤ (Tick.ofMillis clock).since e.time :=
      hoverdue _ List.mem_cons_self rfl
    have hnone : s.waiting = none := halike.waiting
    have hcore : core (t.decideKey p e (Tick.ofMillis clock) false) =
        core (t.decided e (Tick.ofMillis clock)) := h.unscanned.core_decideKey false
    have hlast : (t.decideKey p e (Tick.ofMillis clock) false).last = e.keycode :=
      (congrArg Shifter.last hcore :).trans (h.awaits e hw).last
    have hne : e.keycode ≠ k := by
      rintro rfl
      simp [(h.awaits e hw).isDown] at hup
    rw [settle_of_none hnone, settle_of_some hw, settleSends, settleSends, hnone, hw, hlast]
    exact ⟨by simp [formAt_of_le hdue], (halike.decided_of_owed hdue).of_core rfl hcore, .inr hne⟩

/-- A press leaves the two runs level. -/
theorem Paired.press (h : Paired p isDown (.move clock k switch :: rest) s t owed)
    (horderly : Orderly isDown (.move clock k switch :: rest)) (hp : ∀ k, p.isExtra k = false)
    (hdown : switch.isDown = true) :
    owed ++ s.sends p (.handle ⟨k, switch, Tick.ofMillis clock⟩) =
        t.sends p (.handle ⟨k, switch, Tick.ofMillis clock⟩) ∧
      Paired p (Function.update isDown k switch.isDown) rest
        (s.perform p (.handle ⟨k, switch, Tick.ofMillis clock⟩)).2
        (t.perform p (.handle ⟨k, switch, Tick.ofMillis clock⟩)).2 [] := by
  have hkey : k.isOrdinary = true := horderly.ordinary _ List.mem_cons_self
  have hup : isDown k = false := by
    have hne := horderly.head_ne
    rw [hdown] at hne
    exact Bool.eq_false_iff.mpr hne
  let event : Transition := ⟨k, switch, Tick.ofMillis clock⟩
  obtain ⟨hsettles, halike, hlevel⟩ := h.settle hup
  obtain ⟨hown, hpressed⟩ :=
    level_pressOwn event h.scanned.settle h.unscanned.settle hp hkey halike hlevel
  obtain ⟨hsends, hperform⟩ := h.scanned.press_eq p event hdown
  obtain ⟨hsends', hperform'⟩ := h.unscanned.press_eq p event hdown
  constructor
  · rw [hsends, hsends', ← hown, ← hsettles, List.append_assoc]
  · refine ⟨h.scanned.handle hp hkey, h.unscanned.handle hp hkey, fun e he => ?_, ?_⟩
    · have hnone : (t.settle p (Tick.ofMillis clock) false).waiting = none :=
        (agrees_settle p (Tick.ofMillis clock) false t).waiting
      rw [hperform'] at he ⊢
      obtain ⟨rfl, hlast, hforms⟩ := h.unscanned.settle.waiting_pressOwn hp hkey hnone he
      refine ⟨by simp [event, hdown], hlast, hforms, clock, rfl, fun m hm => ?_⟩
      exact ⟨horderly.head_le m hm,
        horderly.span _ List.mem_cons_self m (List.mem_cons_of_mem _ hm) rfl⟩
    · rw [hperform, hperform']
      exact .level hpressed

/-! ## Releases -/

theorem endKeySends_self (hw : s.waiting = some event) :
    s.endKeySends event.keycode now = [.key event.keycode (s.formAt event now)] := by
  rw [endKeySends, hw]
  exact if_pos rfl

theorem endKeySends_of_ne (hne : ∀ e, s.waiting = some e → k ≠ e.keycode) :
    s.endKeySends k now = [] := by
  unfold endKeySends
  split
  · next e hw => exact if_neg (hne e hw)
  · rfl

/-- The end of a key leaves the two runs as they are, or makes good what is owed. -/
theorem Trails.endKey (h : Trails (m :: rest) s t owed) (hs : Calm s) (ht : Calm t) (k : Keycode)
    (hm : m.isMove = true) :
    ∃ owed', owed ++ s.endKeySends k (Tick.ofMillis m.clock) =
        t.endKeySends k (Tick.ofMillis m.clock) ++ owed' ∧
      Trails rest (s.endKey p k (Tick.ofMillis m.clock)).2
        (t.endKey p k (Tick.ofMillis m.clock)).2 owed' := by
  generalize hnow : Tick.ofMillis m.clock = now
  by_cases hself : ∃ e, t.waiting = some e ∧ k = e.keycode
  · obtain ⟨e, hw, rfl⟩ := hself
    have hended : core (t.endKey p e.keycode now).2 = core (t.decided e now) :=
      ht.core_endKey_self hw
    rw [endKeySends_self hw]
    refine ⟨[], ?_⟩
    cases h with
    | level hlevel =>
      have hw' : s.waiting = some e := hlevel.alike.waiting.trans hw
      rw [endKeySends_self hw', hlevel.alike.formAt e now]
      exact ⟨rfl, .level ((hlevel.alike.decided e now).of_core (hs.core_endKey_self hw') hended)⟩
    | owes e' hw' halike hoverdue =>
      cases hw.symm.trans hw'
      have hdue : t.timeout ≤ now.since e.time := hnow ▸ hoverdue m List.mem_cons_self hm
      have hnone : ∀ e', s.waiting = some e' → e.keycode ≠ e'.keycode := by simp [halike.waiting]
      rw [endKeySends_of_ne hnone, formAt_of_le hdue]
      exact ⟨rfl, .level (((halike.decided_of_owed hdue).told now).of_core
        (hs.core_endKey_of_ne hnone) hended)⟩
  · have hne : ∀ e, t.waiting = some e → k ≠ e.keycode := fun e hw hk => hself ⟨e, hw, hk⟩
    have hne' : ∀ e, s.waiting = some e → k ≠ e.keycode := fun e hw => hne e (h.waiting hw)
    rw [endKeySends_of_ne hne, endKeySends_of_ne hne']
    exact ⟨owed, by simp,
      (h.tail.told now).of_core (hs.core_endKey_of_ne hne') (ht.core_endKey_of_ne hne)⟩

/-- A release leaves the two runs as they are, or makes good what is owed. -/
theorem Paired.release (h : Paired p isDown (.move clock k switch :: rest) s t owed)
    (horderly : Orderly isDown (.move clock k switch :: rest)) (hp : ∀ k, p.isExtra k = false)
    (hup : switch.isDown = false) :
    ∃ owed', owed ++ s.sends p (.handle ⟨k, switch, Tick.ofMillis clock⟩) =
        t.sends p (.handle ⟨k, switch, Tick.ofMillis clock⟩) ++ owed' ∧
      Paired p (Function.update isDown k switch.isDown) rest
        (s.perform p (.handle ⟨k, switch, Tick.ofMillis clock⟩)).2
        (t.perform p (.handle ⟨k, switch, Tick.ofMillis clock⟩)).2 owed' := by
  let event : Transition := ⟨k, switch, Tick.ofMillis clock⟩
  have hkey : event.keycode.isOrdinary = true := horderly.ordinary _ List.mem_cons_self
  have hs := h.scanned.handle (p := p) hp hkey
  have ht := h.unscanned.handle (p := p) hp hkey
  have hforms : s.hasForms p k = t.hasForms p k := h.trails.hasForms k
  cases Calm.release_cases t hp hkey hup with
  | inl hcase =>
    obtain ⟨hforms', hsends', hperform'⟩ := hcase
    obtain ⟨-, hsends, hperform⟩ :=
      (Calm.release_cases s hp hkey hup).resolve_right (by simp [event, hforms, hforms'])
    obtain ⟨owed', hends, htrails⟩ := (h.trails.stopPassing k).endKey (p := p)
      (h.scanned.stopPassing k) (h.unscanned.stopPassing k) k rfl
    rw [hperform'] at ht ⊢
    rw [hperform] at hs ⊢
    refine ⟨owed', by rw [hsends, hsends']; exact hends, hs, ht, fun e he => ?_, htrails⟩
    obtain ⟨hw, hne⟩ := waiting_endKey he
    have ha := agrees_endKey p k (Tick.ofMillis clock) (t.stopPassing k)
    exact (h.awaits e hw).move hne ha.last
      (hasForms_congr (congrArg Settings.switches ha.settings) e.keycode)
  | inr hcase =>
    obtain ⟨hforms', hsends', hperform'⟩ := hcase
    obtain ⟨-, hsends, hperform⟩ :=
      (Calm.release_cases s hp hkey hup).resolve_left (by simp [event, hforms, hforms'])
    rw [hperform'] at ht ⊢
    rw [hperform] at hs ⊢
    refine ⟨owed, by simp [hsends, hsends', event], hs, ht, fun e he => ?_,
      h.trails.tail.noteModifier k false⟩
    have hw : t.waiting = some e := he
    have hne : e.keycode ≠ k := by
      intro hk
      have hno : t.hasForms p e.keycode = false := hk ▸ hforms'
      simp [(h.awaits e hw).forms] at hno
    exact (h.awaits e hw).move hne rfl rfl

/-! ## Runs -/

/-- The run of a schedule sends what is owed and what the run of its moves sends. -/
theorem Paired.run (h : Paired p isDown rest s t owed) (horderly : Orderly isDown rest)
    (hp : ∀ k, p.isExtra k = false) :
    owed ++ s.sendsAll p (operations rest) =
      t.sendsAll p (operations (rest.filter Moment.isMove)) := by
  induction rest generalizing isDown s t owed with
  | nil =>
    cases h.trails with
    | level => rfl
    | owes e hw =>
      have hup : isDown e.keycode = false := horderly.released e.keycode
      rw [(h.awaits e hw).isDown] at hup
      cases hup
  | cons m rest ih =>
    cases m with
    | scan clock =>
      rw [operations, List.map_cons, sendsAll, ← List.append_assoc]
      exact ih (h.scan horderly) horderly.tail
    | move clock k switch =>
      have hstep : ∃ owed', owed ++ s.sends p (.handle ⟨k, switch, Tick.ofMillis clock⟩) =
          t.sends p (.handle ⟨k, switch, Tick.ofMillis clock⟩) ++ owed' ∧
            Paired p (Function.update isDown k switch.isDown) rest
              (s.perform p (.handle ⟨k, switch, Tick.ofMillis clock⟩)).2
              (t.perform p (.handle ⟨k, switch, Tick.ofMillis clock⟩)).2 owed' := by
        cases hdown : switch.isDown with
        | true =>
          obtain ⟨hsends, hpaired⟩ := h.press horderly hp hdown
          exact ⟨[], by rw [hsends, List.append_nil], hdown ▸ hpaired⟩
        | false =>
          rw [← hdown]
          exact h.release horderly hp hdown
      obtain ⟨owed', hsends, hpaired⟩ := hstep
      rw [List.filter_cons_of_pos rfl, operations, operations, List.map_cons, List.map_cons,
        sendsAll, sendsAll, ← List.append_assoc]
      show owed ++ s.sends p (.handle ⟨k, switch, Tick.ofMillis clock⟩) ++ _ =
        t.sends p (.handle ⟨k, switch, Tick.ofMillis clock⟩) ++ _
      rw [hsends, List.append_assoc]
      exact congrArg _ (ih hpaired horderly.tail)

/-- **What is typed does not depend on the scans.**  Two orderly schedules of the same moves, from a
keyboard whose keys are up, put down the same strokes in the same order. -/
theorem typed_regardless_of_scans (settings : Settings) (first second : List Moment)
    (hfirst : Orderly (fun _ => false) first) (hsecond : Orderly (fun _ => false) second)
    (hmoves : first.filter Moment.isMove = second.filter Moment.isMove) :
    downs ((initial settings).run Policy.stock (operations first)).outbox =
      downs ((initial settings).run Policy.stock (operations second)).outbox := by
  have hstart : ∀ schedule, Paired Policy.stock (fun _ => false) schedule (initial settings)
      (initial settings) [] := fun schedule =>
    ⟨calm_initial settings, calm_initial settings, nofun, .level .refl⟩
  have hsends : ∀ {schedule}, Orderly (fun _ => false) schedule →
      (initial settings).sendsAll Policy.stock (operations schedule) =
        (initial settings).sendsAll Policy.stock (operations (schedule.filter Moment.isMove)) :=
    fun horderly => (hstart _).run horderly fun _ => rfl
  rw [downs_run, downs_run, hsends hfirst, hsends hsecond, hmoves]

/-- A letter is held for longer than the timeout, and the next one goes down before it goes up. -/
def rollingMoves : List Moment :=
  [.move 0 4 (.ofBytes 0 0 true), .move 300 5 (.ofBytes 0 1 true),
    .move 310 4 (.ofBytes 0 0 false), .move 320 5 (.ofBytes 0 1 false)]

/-- The same, with the time told twice before the second letter and once at the end. -/
def rollingMovesScanned : List Moment :=
  .move 0 4 (.ofBytes 0 0 true) :: .scan 100 :: .scan 200 :: rollingMoves.tail ++ [.scan 70000]

/-- The first letter is shifted by its timeout, with a scan or without. -/
theorem typed_regardless_of_scans_of_rollingMoves :
    Orderly (fun _ => false) rollingMoves ∧ Orderly (fun _ => false) rollingMovesScanned ∧
      downs ((initial {}).run Policy.stock (operations rollingMoves)).outbox =
        downs ((initial {}).run Policy.stock (operations rollingMovesScanned)).outbox ∧
      downs ((initial {}).run Policy.stock (operations rollingMoves)).outbox =
        [⟨4, true⟩, ⟨5, false⟩] := by
  have hfirst : Orderly (fun _ => false) rollingMoves :=
    .of_keys (by decide) (by decide) (by decide) (by decide)
  have hsecond : Orderly (fun _ => false) rollingMovesScanned :=
    .of_keys (by decide) (by decide) (by decide) (by decide)
  exact ⟨hfirst, hsecond,
    typed_regardless_of_scans {} rollingMoves rollingMovesScanned hfirst hsecond (by decide),
    by decide⟩

end Shifter

end LongPress
