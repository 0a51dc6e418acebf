import LongPress.Shifter.Frame
import LongPress.Shifter.Operation

/-!
# LongPress.Proofs.Sending

What an operation sends: which keys go down, in which form and in which order.

Only four things speak of keys in the outbox: `keyDown`, `keyUp`, the typing of a digit of the
timeout, and nothing else.  `Speaks p s l t` says that `t` follows from `s` by such steps, and that
`l` is what they send; `sends p s op` computes that list for every operation.  One theorem ties the
two together:

* `speaks_perform` — every operation speaks, and sends exactly `sends p s op`.

Whatever is true of `keyDown`, `keyUp` and a typed code is then true of every operation by an
induction over `Speaks`.  Two such facts stand here:

* `Speaks.downs_outbox` — the strokes reported as going down are those of the list, and so in a
  whole history (`downs_run`);
* `Speaks.contains_shifted` — the form kept for the release is the last one sent.
-/

namespace LongPress

/-! ## Sendings -/

/-- One key going down. -/
inductive Sending where
  /-- A key in its plain or its shifted form. -/
  | key (keycode : Keycode) (shifted : Bool)
  /-- A key of the text of the timeout, let go at once. -/
  | typed (code : UInt8)
  deriving DecidableEq, Repr

namespace Sending

/-- What the keyboard sends for it. -/
def stroke (p : Policy) : Sending → Stroke
  | key keycode shifted => p.stroke keycode shifted
  | typed code => ⟨code, false⟩

/-- The form in which it sends a key of a base; none for every other base. -/
def form? (b : UInt8) : Sending → Option Bool
  | key keycode shifted => if keycode.base = b then some shifted else none
  | typed _ => none

/-- Whether it belongs to the text of the timeout. -/
def isTyped : Sending → Bool
  | key .. => false
  | typed _ => true

/-- The forms in which a list sends the keys of a base. -/
def forms (b : UInt8) (l : List Sending) : List Bool := l.filterMap (form? b)

@[simp] theorem forms_append (b : UInt8) (l m : List Sending) :
    forms b (l ++ m) = forms b l ++ forms b m := List.filterMap_append

theorem forms_key_self (k : Keycode) (f : Bool) : forms k.base [.key k f] = [f] := by
  simp [forms, form?]

theorem forms_key_of_ne {b : UInt8} {k : Keycode} (h : k.base ≠ b) (f : Bool) :
    forms b [.key k f] = [] := by
  simp [forms, form?, h]

/-- What is typed is sent for no key. -/
theorem forms_typed (b : UInt8) (codes : List UInt8) : forms b (codes.map typed) = [] := by
  induction codes with
  | nil => rfl
  | cons code codes ih =>
    rw [List.map_cons, forms, List.filterMap_cons]
    exact ih

end Sending

/-! ## Reports of keys -/

/-- The stroke that a report puts down. -/
def Report.down? : Report → Option Stroke
  | .key stroke true => some stroke
  | _ => none

/-- The strokes that go down, in their order. -/
def downs (reports : List Report) : List Stroke := reports.filterMap Report.down?

@[simp] theorem downs_append (rs us : List Report) : downs (rs ++ us) = downs rs ++ downs us :=
  List.filterMap_append

/-- Whether a report speaks of a key going down or up. -/
def Report.isKey : Report → Bool
  | .key .. => true
  | _ => false

theorem downs_of_not_isKey {r : Report} (h : r.isKey = false) : downs [r] = [] := by
  cases r <;> simp_all [downs, Report.down?, Report.isKey]

namespace Shifter

/-! ## Speaking -/

/-- `t` follows from `s` by steps that send `l` and otherwise leave alone what is down and in which
form it was sent. -/
inductive Speaks (p : Policy) : Shifter → List Sending → Shifter → Prop where
  | quiet {s t : Shifter} (outbox : t.outbox = s.outbox) (down : t.down = s.down)
      (shifted : t.shifted = s.shifted) : Speaks p s [] t
  | say (s : Shifter) {r : Report} (h : r.isKey = false) : Speaks p s [] (s.emit r)
  | keyDown (s : Shifter) (k : Keycode) (f : Bool) : Speaks p s [.key k f] (s.keyDown p k f)
  | keyUp (s : Shifter) (k : Keycode) : Speaks p s [] (s.keyUp p k).2
  | typed (s : Shifter) (code : UInt8) :
      Speaks p s [.typed code]
        ((s.emit (.key ⟨code, false⟩ true)).emit (.key ⟨code, false⟩ false))
  | trans {s t u : Shifter} {l m : List Sending} :
      Speaks p s l t → Speaks p t m u → Speaks p s (l ++ m) u

variable {p : Policy} {s t u : Shifter} {l : List Sending}

theorem Speaks.refl : Speaks p s [] s := .quiet rfl rfl rfl

/-- What follows sends nothing more. -/
theorem Speaks.andThen (h : Speaks p s l t) (hq : Speaks p t [] u) : Speaks p s l u := by
  have hs := h.trans hq
  rwa [List.append_nil] at hs

/-- What comes before sends nothing yet. -/
theorem Speaks.after (h : Speaks p t l u) (hq : Speaks p s [] t) : Speaks p s l u := hq.trans h

theorem Speaks.congr (h : Speaks p s l t) (outbox : u.outbox = t.outbox) (down : u.down = t.down)
    (shifted : u.shifted = t.shifted) : Speaks p s l u := h.andThen (.quiet outbox down shifted)

/-! ### Keys and shift -/

theorem emit_outbox (s : Shifter) (r : Report) : (s.emit r).outbox = s.outbox ++ [r] := rfl

theorem keyDown_outbox (p : Policy) (s : Shifter) (k : Keycode) (f : Bool) :
    (s.keyDown p k f).outbox =
      s.outbox ++ (if s.down.contains (p.stroke k f).code then [.key (p.stroke k f) false] else [])
        ++ [.key (p.stroke k f) true] := by
  unfold keyDown
  dsimp only
  rw [CodeSet.add_fst, emit_outbox]
  cases s.down.contains (p.stroke k f).code <;> simp [emit]

theorem keyUp_outbox (p : Policy) (s : Shifter) (k : Keycode) :
    (s.keyUp p k).2.outbox =
      s.outbox ++ (if s.down.contains (s.strokeToRelease p k).code then
        [.key (s.strokeToRelease p k) false] else []) := by
  unfold keyUp
  dsimp only
  rw [CodeSet.remove_fst]
  cases s.down.contains (s.strokeToRelease p k).code <;> simp [emit]

theorem keyDown_down (p : Policy) (s : Shifter) (k : Keycode) (f : Bool) :
    (s.keyDown p k f).down = (s.down.add (p.stroke k f).code).2 := by
  unfold keyDown; dsimp only; split <;> rfl

theorem keyUp_down (p : Policy) (s : Shifter) (k : Keycode) :
    (s.keyUp p k).2.down = (s.down.remove (s.strokeToRelease p k).code).2 := by
  unfold keyUp; dsimp only; split <;> rfl

theorem keyDown_shifted (p : Policy) (s : Shifter) (k : Keycode) (f : Bool) :
    (s.keyDown p k f).shifted = s.shifted.put k.base f := by
  unfold keyDown; dsimp only; split <;> rfl

theorem keyUp_shifted (p : Policy) (s : Shifter) (k : Keycode) :
    (s.keyUp p k).2.shifted = s.shifted := by
  unfold keyUp; dsimp only; split <;> rfl

theorem speaks_suppressShift (p : Policy) (s : Shifter) : Speaks p s [] s.suppressShift := by
  unfold suppressShift
  dsimp only
  split
  · exact .refl
  · exact (Speaks.say _ rfl).after (.quiet rfl rfl rfl)

theorem speaks_restoreShift (p : Policy) (s : Shifter) : Speaks p s [] s.restoreShift := by
  unfold restoreShift
  dsimp only
  split
  · exact .refl
  · exact (Speaks.say _ rfl).after (.quiet rfl rfl rfl)

/-! ## The parts of an operation -/

/-- The state in which a press does what it does for its own key. -/
def clearedFor (p : Policy) (event : Transition) (s : Shifter) : Shifter :=
  let s := s.settle p event.time false
  if s.isTrackingAt event.switch then s else s.interrupt p event.time

/-- What a press does for its own key. -/
def pressOwn (p : Policy) (event : Transition) (s : Shifter) : Bool × Shifter :=
  match ControlKey.ofKeycode? event.keycode with
  | some key => (false, s.control key)
  | none =>
    if event.keycode.isDualRole then s.pressDualRole p event
    else
      let s := s.noteModifier event.keycode true
      if s.hasForms p event.keycode then s.pressPlain p event
      else (true, { s with last := Keycode.noKey })

theorem handlePress_eq (p : Policy) (event : Transition) (s : Shifter) :
    s.handlePress p event = (s.clearedFor p event).pressOwn p event := rfl

/-- Only the last key repeats itself. -/
theorem last_of_isRepeat {event : Transition} {s : Shifter} (h : s.isRepeat event = true) :
    s.last = event.keycode := by
  simp only [isRepeat, Bool.and_eq_true, beq_iff_eq] at h
  exact h.1.1.2.symm

/-! ## What is sent -/

/-- The waiting key, if it is decided at this time. -/
def settleSends (now : Tick) (s : Shifter) : List Sending :=
  match s.waiting with
  | some event => [.key event.keycode (s.formAt event now)]
  | none => []

def endKeySends (keycode : Keycode) (now : Tick) (s : Shifter) : List Sending :=
  match s.waiting with
  | some event =>
    if keycode = event.keycode then [.key event.keycode (s.formAt event now)] else []
  | none => []

def resolveSends (p : Policy) (event : Transition) (now : Tick) (s : Shifter) : List Sending :=
  let settled := s.settle p now false
  s.settleSends now ++
    if settled.bypasses then [.key event.keycode false]
    else (settled.begin event).settleSends now

def interruptSends (p : Policy) (now : Tick) (s : Shifter) : List Sending :=
  match s.tracked with
  | none => []
  | some event =>
    let s := s.stopTracking
    if p.holdsWhenInterrupted event.keycode (s.usuallyHolds event.keycode) then []
    else { s with tapped := (s.tapped.add event.keycode.base).2 }.resolveSends p event now

def controlSends (key : ControlKey) (s : Shifter) : List Sending :=
  match key with
  | .report => (s.timeoutText.filterMap keyOfChar?).map fun k => .typed k.base
  | _ => []

def pressPlainSends (event : Transition) (s : Shifter) : List Sending :=
  if !s.isEnabled then []
  else if s.bypasses then [.key event.keycode false]
  else if s.isRepeat event then [.key s.last s.lastShifted]
  else []

def pressDualRoleSends (p : Policy) (event : Transition) (s : Shifter) : List Sending :=
  if !s.isEnabled || !s.settings.has Flag.dualRole || !s.hasForms p event.keycode then []
  else if s.isRepeat event then [.key s.last s.lastShifted]
  else []

/-- A press of any key once what waits is settled and a tracked key interrupted. -/
def ownSends (p : Policy) (event : Transition) (s : Shifter) : List Sending :=
  match ControlKey.ofKeycode? event.keycode with
  | some key => s.controlSends key
  | none =>
    if event.keycode.isDualRole then s.pressDualRoleSends p event
    else
      let s := s.noteModifier event.keycode true
      if s.hasForms p event.keycode then s.pressPlainSends event else []

def handlePressSends (p : Policy) (event : Transition) (s : Shifter) : List Sending :=
  let settled := s.settle p event.time false
  s.settleSends event.time ++
    ((if settled.isTrackingAt event.switch then [] else settled.interruptSends p event.time) ++
      (s.clearedFor p event).ownSends p event)

def releaseDualRoleSends (event : Transition) (s : Shifter) : List Sending :=
  let base := event.keycode.base
  if s.tapped.contains base then []
  else if s.held.contains base then []
  else s.endKeySends event.keycode event.time

def handleReleaseSends (p : Policy) (event : Transition) (s : Shifter) : List Sending :=
  if event.keycode.isControl then []
  else if event.keycode.isDualRole then s.releaseDualRoleSends event
  else if s.hasForms p event.keycode then s.endKeySends event.keycode event.time
  else []

def scanSends (now : Tick) (s : Shifter) : List Sending :=
  match s.waiting with
  | some event =>
    if s.timeout ≤ now.since event.time then [.key event.keycode (s.formAt event now)] else []
  | none => []

def verdictSends (p : Policy) (keycode : Keycode) (v : Verdict) (pressTime : Tick)
    (switch : Switch) (now : Tick) (s : Shifter) : List Sending :=
  match s.trackedAs? keycode switch with
  | none => []
  | some event =>
    match v with
    | .tap => []
    | .hold => s.stopTracking.resolveSends p (event.pressedAt pressTime) now

/-- What an operation sends. -/
def sends (p : Policy) (s : Shifter) : Operation → List Sending
  | .handle event =>
    if event.isDown then s.handlePressSends p event else s.handleReleaseSends p event
  | .scan now => s.scanSends now
  | .verdict keycode v pressTime switch now => s.verdictSends p keycode v pressTime switch now
  | _ => []

/-- What a history sends. -/
def sendsAll (p : Policy) : Shifter → List Operation → List Sending
  | _, [] => []
  | s, op :: rest => s.sends p op ++ sendsAll p (s.perform p op).2 rest

/-! ## Every operation speaks -/

theorem speaks_sendDecided (event : Transition) (now : Tick) (s : Shifter) :
    Speaks p s [.key event.keycode (s.formAt event now)] (s.sendDecided p event now) := by
  let noted : Shifter := { s with waiting := none, lastShifted := s.formAt event now }
  have hnoted : Speaks p s [] noted := .quiet rfl rfl rfl
  have hshift := hnoted.andThen (speaks_suppressShift p noted)
  exact (Speaks.keyDown noted.suppressShift event.keycode noted.lastShifted).after hshift

theorem speaks_pause (p : Policy) (s : Shifter) : Speaks p s [] s.pause := by
  unfold pause
  split
  · exact .refl
  · exact .say s rfl

theorem speaks_decideKey (event : Transition) (now : Tick) (byScan : Bool) (s : Shifter) :
    Speaks p s [.key event.keycode (s.formAt event now)] (s.decideKey p event now byScan) := by
  have hsent := speaks_sendDecided (p := p) event now s
  rw [decideKey_eq]
  split
  · exact hsent.congr rfl rfl rfl
  · have hup := (hsent.andThen (speaks_pause p _)).andThen (.keyUp _ event.keycode)
    exact (hup.andThen (speaks_restoreShift p _)).congr rfl rfl rfl

theorem speaks_settle (now : Tick) (byScan : Bool) (s : Shifter) :
    Speaks p s (s.settleSends now) (s.settle p now byScan) := by
  unfold settle settleSends
  cases s.waiting with
  | none => exact .refl
  | some event => exact speaks_decideKey event now byScan s

theorem speaks_letGo (keycode : Keycode) (now : Tick) (s : Shifter) :
    Speaks p s [] (s.letGo p keycode now).2 := by
  have hup : Speaks p s [] (s.keyUp p keycode).2 := .keyUp s keycode
  unfold letGo
  dsimp only
  split
  · exact (hup.andThen (speaks_restoreShift p _)).congr rfl rfl rfl
  · exact hup.congr rfl rfl rfl

theorem speaks_endKey (keycode : Keycode) (now : Tick) (s : Shifter) :
    Speaks p s (s.endKeySends keycode now) (s.endKey p keycode now).2 := by
  unfold endKey endKeySends
  cases s.waiting with
  | none => exact speaks_letGo keycode now s
  | some event =>
    dsimp only
    split
    · exact speaks_decideKey event now false s
    · exact speaks_letGo keycode now s

theorem speaks_begin (event : Transition) (s : Shifter) : Speaks p s [] (s.begin event) := by
  let noted : Shifter :=
    { s with lastShifted := s.hasShift, oneShot := s.oneShot &&& ~~~Keycode.shiftBits }
  have hnoted : Speaks p s [] noted := .quiet rfl rfl rfl
  have hsaid : Speaks p s [] (noted.emit (.clearOneShot Keycode.shiftBits)) :=
    hnoted.andThen (.say noted rfl)
  unfold begin
  dsimp only
  split
  · exact hnoted.congr rfl rfl rfl
  · exact hsaid.congr rfl rfl rfl

theorem speaks_repeatLast (s : Shifter) :
    Speaks p s [.key s.last s.lastShifted] (s.repeatLast p) := by
  have hlast : s.suppressShift.last = s.last ∧ s.suppressShift.lastShifted = s.lastShifted := by
    unfold suppressShift; dsimp only; split <;> exact ⟨rfl, rfl⟩
  unfold repeatLast
  dsimp only
  rw [hlast.1, hlast.2]
  exact (Speaks.keyDown _ _ _).after (speaks_suppressShift p s)

theorem speaks_resolve (event : Transition) (now : Tick) (s : Shifter) :
    Speaks p s (s.resolveSends p event now) (s.resolve p event now) := by
  unfold resolve resolveSends
  dsimp only
  refine (speaks_settle now false s).trans ?_
  generalize s.settle p now false = settled
  split
  · let noted : Shifter := { settled with last := Keycode.noKey }
    have hnoted : Speaks p settled [] noted := .quiet rfl rfl rfl
    have hsent := (Speaks.keyDown noted event.keycode false).after hnoted
    exact hsent.andThen (.keyUp _ event.keycode)
  · exact (speaks_settle now false (settled.begin event)).after (speaks_begin event settled)

theorem speaks_interrupt (now : Tick) (s : Shifter) :
    Speaks p s (s.interruptSends p now) (s.interrupt p now) := by
  unfold interrupt interruptSends
  cases s.tracked with
  | none => exact .refl
  | some event =>
    dsimp only
    split
    · exact .quiet rfl rfl rfl
    · exact (speaks_resolve event now _).after (.quiet rfl rfl rfl)

/-! ### Presses -/

theorem speaks_typeText (text : List Char) (s : Shifter) :
    Speaks p s ((text.filterMap keyOfChar?).map fun k => .typed k.base) (s.typeText text) := by
  unfold typeText
  induction text.filterMap keyOfChar? generalizing s with
  | nil => exact .refl
  | cons k ks ih =>
    rw [List.foldl_cons, List.map_cons]
    exact (Speaks.typed s k.base).trans (ih _)

theorem speaks_enable (s : Shifter) : Speaks p s [] s.enable :=
  (speaks_restoreShift p _).after (.quiet rfl rfl rfl)

theorem speaks_disable (s : Shifter) : Speaks p s [] s.disable :=
  (speaks_restoreShift p _).after (.quiet rfl rfl rfl)

theorem speaks_toggle (s : Shifter) : Speaks p s [] s.toggle := by
  unfold toggle
  split
  · exact speaks_disable s
  · exact speaks_enable s

theorem speaks_control (key : ControlKey) (s : Shifter) :
    Speaks p s (s.controlSends key) (s.control key) := by
  cases key with
  | shorter => exact .quiet rfl rfl rfl
  | longer => exact .quiet rfl rfl rfl
  | report => exact speaks_typeText s.timeoutText s
  | on => exact speaks_enable s
  | off => exact speaks_disable s
  | toggle => exact speaks_toggle s

theorem speaks_pressPlain (event : Transition) (s : Shifter) :
    Speaks p s (s.pressPlainSends event) (s.pressPlain p event).2 := by
  unfold pressPlain pressPlainSends
  cases s.isEnabled with
  | false => exact .quiet rfl rfl rfl
  | true =>
    cases s.bypasses with
    | true => exact (Speaks.keyDown _ _ _).after (.quiet rfl rfl rfl)
    | false =>
      cases s.isRepeat event with
      | true => exact speaks_repeatLast s
      | false => exact speaks_begin event s

theorem speaks_pressDualRole (event : Transition) (s : Shifter) :
    Speaks p s (s.pressDualRoleSends p event) (s.pressDualRole p event).2 := by
  unfold pressDualRole pressDualRoleSends
  split
  · exact .refl
  · split
    · exact speaks_repeatLast s
    · exact .quiet rfl rfl rfl

theorem speaks_pressOwn (event : Transition) (s : Shifter) :
    Speaks p s (s.ownSends p event) (s.pressOwn p event).2 := by
  unfold pressOwn ownSends
  cases ControlKey.ofKeycode? event.keycode with
  | some key => exact speaks_control key s
  | none =>
    dsimp only
    split
    · exact speaks_pressDualRole event s
    · split
      · exact (speaks_pressPlain event _).after (.quiet rfl rfl rfl)
      · exact .quiet rfl rfl rfl

theorem speaks_handlePress (event : Transition) (s : Shifter) :
    Speaks p s (s.handlePressSends p event) (s.handlePress p event).2 := by
  rw [handlePress_eq]
  unfold handlePressSends clearedFor
  dsimp only
  refine (speaks_settle event.time false s).trans (Speaks.trans ?_ (speaks_pressOwn event _))
  split
  · exact .refl
  · exact speaks_interrupt event.time _

/-! ### Releases -/

theorem speaks_releaseDualRole (event : Transition) (s : Shifter) :
    Speaks p s (s.releaseDualRoleSends event) (s.releaseDualRole p event).2 := by
  unfold releaseDualRole releaseDualRoleSends
  dsimp only
  split
  · exact .quiet rfl rfl rfl
  · split
    · exact .quiet rfl rfl rfl
    · split
      · exact (speaks_endKey event.keycode event.time s.stopTracking).after (.quiet rfl rfl rfl)
      · exact speaks_endKey event.keycode event.time s

theorem dropSuppressed_eq (keycode : Keycode) (s : Shifter) :
    s.dropSuppressed keycode = { s with suppressed := (s.dropSuppressed keycode).suppressed } := by
  unfold dropSuppressed
  split
  · rfl
  · split <;> rfl

theorem speaks_handleRelease (event : Transition) (s : Shifter) :
    Speaks p s (s.handleReleaseSends p event) (s.handleRelease p event).2 := by
  let dropped : Shifter := { s with suppressed := (s.dropSuppressed event.keycode).suppressed }
  have hdropped : Speaks p s [] dropped := .quiet rfl rfl rfl
  let noted : Shifter := dropped.noteModifier event.keycode false
  have hnoted : Speaks p s [] noted := .quiet rfl rfl rfl
  unfold handleRelease handleReleaseSends
  rw [dropSuppressed_eq]
  dsimp only
  split
  · exact .refl
  · split
    · exact (speaks_releaseDualRole event dropped).after hdropped
    · rw [show s.hasForms p event.keycode = noted.hasForms p event.keycode from rfl]
      split
      · let passed : Shifter :=
          { noted with passing := (noted.passing.remove event.keycode.base).2 }
        have hpassed : Speaks p s [] passed := .quiet rfl rfl rfl
        exact (speaks_endKey event.keycode event.time passed).after hpassed
      · exact hnoted

/-! ### Time and verdicts -/

theorem speaks_scan (now : Tick) (s : Shifter) : Speaks p s (s.scanSends now) (s.scan p now) := by
  refine Speaks.andThen (t := s.scanWaiting p now) ?_ ?_
  · unfold scanWaiting scanSends
    cases s.waiting with
    | none => exact .refl
    | some event =>
      dsimp only
      split
      · exact speaks_decideKey event now true s
      · exact .refl
  · unfold scan scanTracked
    split
    · split
      · exact (Speaks.say _ rfl).after (.quiet rfl rfl rfl)
      · exact .refl
    · exact .refl

theorem speaks_verdict (keycode : Keycode) (v : Verdict) (pressTime : Tick) (switch : Switch)
    (now : Tick) (s : Shifter) :
    Speaks p s (s.verdictSends p keycode v pressTime switch now)
      (s.verdict p keycode v pressTime switch now).2 := by
  unfold verdict verdictSends
  cases s.trackedAs? keycode switch with
  | none => exact .refl
  | some event =>
    cases v with
    | tap => exact .quiet rfl rfl rfl
    | hold => exact (speaks_resolve _ now s.stopTracking).after (.quiet rfl rfl rfl)

/-- Every operation speaks, and sends what `sends` says. -/
theorem speaks_perform (p : Policy) (s : Shifter) (op : Operation) :
    Speaks p s (s.sends p op) (s.perform p op).2 := by
  cases op with
  | handle event =>
    simp only [perform, sends, handle]
    split
    · exact speaks_handlePress event s
    · exact speaks_handleRelease event s
  | scan now => exact speaks_scan now s
  | verdict keycode v pressTime switch now =>
    exact speaks_verdict keycode v pressTime switch now s
  | setModifiers bits => exact .quiet rfl rfl rfl
  | setOneShot bits => exact .quiet rfl rfl rfl
  | enable => exact speaks_enable s
  | disable => exact speaks_disable s
  | toggle => exact speaks_toggle s
  | setTimeout ms => exact .quiet rfl rfl rfl
  | lengthenTimeout ms => exact .quiet rfl rfl rfl
  | shortenTimeout ms => exact .quiet rfl rfl rfl
  | loadSettings image => exact .quiet rfl rfl rfl

theorem speaks_run (p : Policy) (s : Shifter) (history : List Operation) :
    Speaks p s (s.sendsAll p history) (s.run p history) := by
  induction history generalizing s with
  | nil => exact .refl
  | cons op rest ih =>
    rw [run_cons, sendsAll]
    exact (speaks_perform p s op).trans (ih _)

/-! ## What speaking does to the reports and the forms -/

/-- The strokes that go down are those of the list. -/
theorem Speaks.downs_outbox (h : Speaks p s l t) :
    downs t.outbox = downs s.outbox ++ l.map (Sending.stroke p) := by
  induction h with
  | quiet outbox _ _ => rw [outbox, List.map_nil, List.append_nil]
  | say s hr => rw [emit_outbox, downs_append, downs_of_not_isKey hr, List.map_nil]
  | keyDown s k f =>
    rw [keyDown_outbox, downs_append, downs_append]
    cases s.down.contains (p.stroke k f).code <;> simp [downs, Report.down?, Sending.stroke]
  | keyUp s k =>
    rw [keyUp_outbox, downs_append]
    cases s.down.contains (s.strokeToRelease p k).code <;> simp [downs, Report.down?]
  | typed s code => simp [emit_outbox, downs, Report.down?, Sending.stroke]
  | trans _ _ ihs iht => rw [iht, ihs, List.map_append, List.append_assoc]

/-- The strokes that a history reports as going down are those of what it sends. -/
theorem downs_run (p : Policy) (s : Shifter) (history : List Operation) :
    downs (s.run p history).outbox =
      downs s.outbox ++ (s.sendsAll p history).map (Sending.stroke p) :=
  (speaks_run p s history).downs_outbox

/-- A key is kept in the form it was sent in last. -/
theorem Speaks.contains_shifted (h : Speaks p s l t) (b : UInt8) :
    t.shifted.contains b = ((Sending.forms b l).getLast?).getD (s.shifted.contains b) := by
  induction h with
  | quiet _ _ shifted => rw [shifted]; rfl
  | say s hr => rfl
  | keyDown s k f =>
    rw [keyDown_shifted, CodeSet.contains_put]
    by_cases hb : b = k.base
    · rw [if_pos hb, hb, Sending.forms_key_self]
      rfl
    · rw [if_neg hb, Sending.forms_key_of_ne (Ne.symm hb)]
      rfl
  | keyUp s k => rw [keyUp_shifted]; rfl
  | typed s code => rfl
  | trans _ _ ihs iht =>
    rw [iht, ihs, Sending.forms_append, List.getLast?_append]
    cases (Sending.forms b _).getLast? <;> rfl

end Shifter

end LongPress
