import Mathlib.Data.List.Forall2
import Mathlib.Data.List.Infix
import LongPress.Proofs.Agreement
import LongPress.Proofs.History

/-!
# LongPress.Proofs.Order

Every press is answered once, and in the order of the presses.

While dual role keys are not tracked, a press has one of two fates: it goes on to its usual
processing, or its key goes down, at once or when its wait is decided.  `items` lists these answers
in the order in which they come, and `presses` the presses of a history.  At most one press waits,
and whatever waits is decided before the next press is looked at; so the answers match the presses
one by one, and only the last press can be without one.

* `presses_answered` — the main statement.
-/

namespace LongPress

/-! ## The answers to presses -/

/-- What can become of a press. -/
inductive Item where
  /-- A stroke goes down. -/
  | sent (stroke : Stroke)
  /-- The press goes on to its usual processing. -/
  | passedOn (event : Transition)
  deriving DecidableEq, Repr

/-- Whether an item answers a press: with the press itself, or with a form of its key. -/
def Item.Answers (p : Policy) (event : Transition) : Item → Prop
  | sent stroke => ∃ shifted, stroke = p.stroke event.keycode shifted
  | passedOn e => e = event

namespace Shifter

/-- What an operation adds to the outbox. -/
def reported (p : Policy) (s : Shifter) (op : Operation) : List Report :=
  (s.perform p op).2.outbox.drop s.outbox.length

/-- The press that an operation passes on. -/
def passedOn? (p : Policy) (s : Shifter) (op : Operation) : Option Transition :=
  match (s.perform p op).1 with
  | .usual true => op.press?
  | _ => none

/-- The answers an operation gives: first the strokes it reports as going down, in their order,
then the press if it is passed on. -/
def items (p : Policy) (s : Shifter) (op : Operation) : List Item :=
  (downs (s.reported p op)).map .sent ++ (s.passedOn? p op).toList.map .passedOn

/-- The answers a history gives. -/
def itemsAll (p : Policy) : Shifter → List Operation → List Item
  | _, [] => []
  | s, op :: rest => s.items p op ++ itemsAll p (s.perform p op).2 rest

/-! ## Items and sendings -/

variable {p : Policy} {s t : Shifter} {l : List Sending}

/-- The outbox only grows. -/
theorem Speaks.outbox_eq (h : Speaks p s l t) : ∃ rs, t.outbox = s.outbox ++ rs := by
  induction h with
  | quiet outbox _ _ => exact ⟨[], by rw [outbox, List.append_nil]⟩
  | say s _ => exact ⟨_, rfl⟩
  | keyDown s k f =>
    rw [keyDown_outbox, List.append_assoc]
    exact ⟨_, rfl⟩
  | keyUp s k => exact ⟨_, keyUp_outbox p s k⟩
  | typed s code => exact ⟨_, List.append_assoc ..⟩
  | trans _ _ ihs iht =>
    obtain ⟨rs, hrs⟩ := ihs
    obtain ⟨us, hus⟩ := iht
    exact ⟨rs ++ us, by rw [hus, hrs, List.append_assoc]⟩

theorem downs_reported (p : Policy) (s : Shifter) (op : Operation) :
    downs (s.reported p op) = (s.sends p op).map (Sending.stroke p) := by
  have hspeaks := speaks_perform p s op
  obtain ⟨rs, hrs⟩ := hspeaks.outbox_eq
  have hdowns := hspeaks.downs_outbox
  rw [hrs, downs_append] at hdowns
  rw [reported, hrs, List.drop_left]
  exact List.append_cancel_left hdowns

/-- The items that a list of sendings stands for. -/
def sentItems (p : Policy) (l : List Sending) : List Item := l.map fun x => .sent (x.stroke p)

@[simp] theorem sentItems_nil (p : Policy) : sentItems p [] = [] := rfl

theorem sentItems_append (p : Policy) (l m : List Sending) :
    sentItems p (l ++ m) = sentItems p l ++ sentItems p m := List.map_append

theorem items_eq (p : Policy) (s : Shifter) (op : Operation) :
    s.items p op = sentItems p (s.sends p op) ++ (s.passedOn? p op).toList.map .passedOn := by
  rw [items, downs_reported, List.map_map]
  rfl

/-! ## Serving presses -/

/-- The answers match the presses `before` one by one, up to the presses `after` that come last and
are left without one. -/
def Serves (p : Policy) (before : List Transition) (answers : List Item)
    (after : List Transition) : Prop :=
  ∃ served, before = served ++ after ∧ List.Forall₂ (fun e i => Item.Answers p e i) served answers

theorem Serves.nothing (ps : List Transition) : Serves p ps [] ps := ⟨[], rfl, .nil⟩

theorem Serves.one {event : Transition} {item : Item} (h : item.Answers p event) :
    Serves p [event] [item] [] := ⟨[event], rfl, .cons h .nil⟩

/-- What is left without an answer is served first when more presses come. -/
theorem Serves.append {before between after new : List Transition} {first second : List Item}
    (h : Serves p before first between) (h' : Serves p (between ++ new) second after) :
    Serves p (before ++ new) (first ++ second) after := by
  obtain ⟨served, rfl, hserved⟩ := h
  obtain ⟨served', heq, hserved'⟩ := h'
  refine ⟨served ++ served', ?_, List.rel_append hserved hserved'⟩
  rw [List.append_assoc, heq, List.append_assoc]

/-- The items of one key in one of its forms. -/
theorem serves_key {event : Transition} {k : Keycode} (h : k = event.keycode) (f : Bool) :
    Serves p [event] (sentItems p [.key k f]) [] := by
  subst h
  exact .one ⟨f, rfl⟩

theorem serves_settle (now : Tick) (s : Shifter) :
    Serves p s.waiting.toList (sentItems p (s.settleSends now)) [] := by
  unfold settleSends
  cases s.waiting with
  | none => exact .nothing []
  | some event => exact serves_key rfl _

/-- A release decides its own key if that waits; another waiting key goes on waiting. -/
theorem serves_endKey (keycode : Keycode) (now : Tick) (s : Shifter) :
    Serves p s.waiting.toList (sentItems p (s.endKeySends keycode now))
      (s.endKey p keycode now).2.waiting.toList := by
  unfold endKey endKeySends
  cases hw : s.waiting with
  | none =>
    dsimp only
    rw [(agrees_letGo p keycode now s).waiting, hw]
    exact .nothing []
  | some event =>
    dsimp only
    split
    · rw [(agrees_decideKey p event now false s).waiting]
      exact serves_key rfl _
    · rw [(agrees_letGo p keycode now s).waiting, hw]
      exact .nothing [event]

theorem serves_scan (now : Tick) (s : Shifter) :
    Serves p s.waiting.toList (sentItems p (s.scanSends now)) (s.scan p now).waiting.toList := by
  unfold scan
  rw [(agrees_scanTracked now _).waiting]
  unfold scanWaiting scanSends
  cases hw : s.waiting with
  | none => rw [hw]; exact .nothing []
  | some event =>
    dsimp only
    split
    · rw [(agrees_decideKey p event now true s).waiting]
      exact serves_key rfl _
    · rw [hw]; exact .nothing [event]

/-- A press passed on is its own answer. -/
theorem serves_passedOn (event : Transition) : Serves p [event] [.passedOn event] [] :=
  .one rfl

/-- A press of a key with a shifted form is passed on, answered at once, or begins to wait. -/
theorem serves_pressPlain (event : Transition) (s : Shifter) (hw : s.waiting = none) :
    Serves p [event]
      (sentItems p (s.pressPlainSends event) ++
        if (s.pressPlain p event).1 then [.passedOn event] else [])
      (s.pressPlain p event).2.waiting.toList := by
  unfold pressPlain pressPlainSends
  cases s.isEnabled with
  | false =>
    simp only [Bool.not_false, if_true, hw]
    exact serves_passedOn event
  | true =>
    simp only [Bool.not_true, Bool.false_eq_true, if_false]
    cases s.bypasses with
    | true =>
      simp only [if_true]
      rw [(agrees_keyDown p _ event.keycode false).waiting, hw]
      exact serves_key rfl false
    | false =>
      cases hr : s.isRepeat event with
      | true =>
        simp only [Bool.false_eq_true, if_false, if_true]
        rw [(agrees_repeatLast p s).waiting, hw]
        exact serves_key (last_of_isRepeat hr) _
      | false =>
        simp only [Bool.false_eq_true, if_false]
        rw [(agrees_begin event s).waiting]
        exact .nothing [event]

/-- The same of every press that is not of a control key, while dual role keys are not tracked. -/
theorem serves_pressOwn (event : Transition) (s : Shifter) (hw : s.waiting = none)
    (hoff : s.settings.has Flag.dualRole = false)
    (hk : ControlKey.ofKeycode? event.keycode = none) :
    Serves p [event]
      (sentItems p (s.ownSends p event) ++
        if (s.pressOwn p event).1 then [.passedOn event] else [])
      (s.pressOwn p event).2.waiting.toList := by
  unfold pressOwn ownSends
  rw [hk]
  dsimp only
  cases event.keycode.isDualRole with
  | true =>
    simp only [if_true, pressDualRole, pressDualRoleSends, hoff, Bool.not_false, Bool.or_true,
      Bool.true_or, hw]
    exact serves_passedOn event
  | false =>
    simp only [Bool.false_eq_true, if_false]
    split
    · exact serves_pressPlain event _ hw
    · have hnoted : (s.noteModifier event.keycode true).waiting = none := hw
      simp only [if_true, hnoted]
      exact serves_passedOn event

/-! ## Operations -/

/-- Nothing is interrupted while nothing is tracked. -/
theorem clearedFor_of_tracked (p : Policy) (event : Transition) (ht : s.tracked = none) :
    s.clearedFor p event = s.settle p event.time false ∧
      s.handlePressSends p event =
        s.settleSends event.time ++ (s.settle p event.time false).ownSends p event := by
  have hsettled : (s.settle p event.time false).tracked = none := by
    rw [(agrees_settle p event.time false s).tracked]; exact ht
  have hcleared : s.clearedFor p event = s.settle p event.time false := by
    unfold clearedFor interrupt
    dsimp only
    rw [hsettled]
    split <;> rfl
  refine ⟨hcleared, ?_⟩
  unfold handlePressSends interruptSends
  dsimp only
  rw [hcleared, hsettled]
  dsimp only
  split <;> rfl

/-- A control key is answered by nothing. -/
theorem serves_control {key : ControlKey} (h : key ≠ .report) (s : Shifter)
    (hw : s.waiting = none) :
    Serves p [] (sentItems p (s.controlSends key)) (s.control key).waiting.toList := by
  rw [(agrees_control key s).waiting, hw]
  cases key with
  | report => exact absurd rfl h
  | _ => exact .nothing []

/-- The press that a press operation passes on. -/
theorem passedOn?_press {event : Transition} (hdown : event.isDown = true)
    (hk : event.keycode.isControl = false) :
    (s.passedOn? p (.handle event)).toList.map Item.passedOn =
      if (s.handlePress p event).1 then [.passedOn event] else [] := by
  unfold passedOn?
  simp only [perform, handle, hdown, if_true, Operation.press?, hk, Bool.not_false, Bool.and_self]
  cases (s.handlePress p event).1 <;> rfl

/-- An operation that is no press of a counted key passes on none. -/
theorem passedOn?_of_press? {op : Operation} (h : op.press? = none) : s.passedOn? p op = none := by
  unfold passedOn?
  rw [h]
  split <;> rfl

theorem serves_press (event : Transition) (s : Shifter) (hdown : event.isDown = true)
    (htypes : event.keycode ≠ ControlKey.report.keycode) (ht : s.tracked = none)
    (hoff : s.settings.has Flag.dualRole = false) :
    Serves p (s.waiting.toList ++ (Operation.press? (.handle event)).toList)
      (s.items p (.handle event)) (s.perform p (.handle event)).2.waiting.toList := by
  have hsettled := agrees_settle p event.time false s
  have hsends : s.sends p (.handle event) = s.handlePressSends p event := by
    simp only [sends, hdown, if_true]
  have hstep : (s.perform p (.handle event)).2 = (s.handlePress p event).2 := by
    simp only [perform, handle, hdown, if_true]
  obtain ⟨hcleared, hpress⟩ := clearedFor_of_tracked p event ht
  rw [items_eq, hsends, hstep, hpress, sentItems_append, List.append_assoc, handlePress_eq,
    hcleared]
  refine (serves_settle event.time s).append ?_
  rw [List.nil_append]
  cases hk : ControlKey.ofKeycode? event.keycode with
  | some key =>
    have hcontrol : event.keycode.isControl = true := by
      rw [← ControlKey.isSome_ofKeycode?, hk]; rfl
    have hpress? : Operation.press? (.handle event) = none := by
      simp [Operation.press?, hcontrol]
    have hkey : key ≠ .report := by
      rintro rfl
      exact htypes (ControlKey.keycode_of_ofKeycode? hk).symm
    rw [passedOn?_of_press? hpress?, hpress?]
    simp only [pressOwn, ownSends, hk, Option.toList_none, List.map_nil, List.append_nil]
    exact serves_control hkey _ hsettled.waiting
  | none =>
    have hcontrol : event.keycode.isControl = false := by
      rw [← ControlKey.isSome_ofKeycode?, hk]; rfl
    have hpress? : Operation.press? (.handle event) = some event := by
      simp [Operation.press?, hcontrol, hdown]
    rw [passedOn?_press hdown hcontrol, hpress?, handlePress_eq, hcleared]
    have hoff' : (s.settle p event.time false).settings.has Flag.dualRole = false := by
      rw [hsettled.settings]; exact hoff
    exact serves_pressOwn event _ hsettled.waiting hoff' hk

/-- A release answers at most the press it belongs to. -/
theorem serves_handleRelease (event : Transition) (s : Shifter) :
    Serves p s.waiting.toList (sentItems p (s.handleReleaseSends p event))
      (s.handleRelease p event).2.waiting.toList := by
  let dropped : Shifter := { s with suppressed := (s.dropSuppressed event.keycode).suppressed }
  let noted : Shifter := dropped.noteModifier event.keycode false
  unfold handleRelease handleReleaseSends
  rw [dropSuppressed_eq]
  dsimp only
  split
  · exact .nothing _
  · split
    · unfold releaseDualRole releaseDualRoleSends
      dsimp only
      split
      · exact .nothing _
      · split
        · exact .nothing _
        · split
          · exact serves_endKey event.keycode event.time dropped.stopTracking
          · exact serves_endKey event.keycode event.time dropped
    · rw [show s.hasForms p event.keycode = noted.hasForms p event.keycode from rfl]
      split
      · exact serves_endKey event.keycode event.time
          { noted with passing := (noted.passing.remove event.keycode.base).2 }
      · exact .nothing _

theorem serves_release (event : Transition) (s : Shifter) (hdown : event.isDown = false) :
    Serves p (s.waiting.toList ++ (Operation.press? (.handle event)).toList)
      (s.items p (.handle event)) (s.perform p (.handle event)).2.waiting.toList := by
  have hpress? : Operation.press? (.handle event) = none := by simp [Operation.press?, hdown]
  have h := serves_handleRelease (p := p) event s
  rw [items_eq, passedOn?_of_press? hpress?, hpress?]
  simpa [perform, handle, sends, hdown] using h

/-- An operation that sends nothing and leaves what waits alone answers nothing. -/
theorem serves_quiet {op : Operation} (hp : op.press? = none) (hs : s.sends p op = [])
    (hw : (s.perform p op).2.waiting = s.waiting) :
    Serves p (s.waiting.toList ++ op.press?.toList) (s.items p op)
      (s.perform p op).2.waiting.toList := by
  rw [items_eq, passedOn?_of_press? hp, hp, hs, hw]
  simpa using Serves.nothing s.waiting.toList

/-- Every operation answers what waited and what it presses, but for a press that waits then. -/
theorem serves_perform (op : Operation) (s : Shifter) (htypes : op.typesTimeout = false)
    (ht : s.tracked = none) (hoff : s.settings.has Flag.dualRole = false) :
    Serves p (s.waiting.toList ++ op.press?.toList) (s.items p op)
      (s.perform p op).2.waiting.toList := by
  cases op with
  | handle event =>
    cases hdown : event.isDown with
    | true =>
      exact serves_press event s hdown (Operation.keycode_of_typesTimeout hdown htypes) ht hoff
    | false => exact serves_release event s hdown
  | scan now =>
    have h := serves_scan (p := p) now s
    rw [items_eq, passedOn?_of_press? rfl]
    simpa [perform, sends, Operation.press?] using h
  | verdict keycode v pressTime switch now =>
    have hnone : s.trackedAs? keycode switch = none := by rw [trackedAs?, ht]; rfl
    refine serves_quiet rfl ?_ ?_
    · simp only [sends, verdictSends, hnone]
    · simp only [perform, verdict, hnone]
  | enable => exact serves_quiet rfl rfl (agrees_enable s).waiting
  | disable => exact serves_quiet rfl rfl (agrees_disable s).waiting
  | toggle => exact serves_quiet rfl rfl (agrees_toggle s).waiting
  | _ => exact serves_quiet rfl rfl rfl

/-! ## Nothing is tracked -/

theorem tracked_pressPlain (event : Transition) (s : Shifter) :
    (s.pressPlain p event).2.tracked = s.tracked := by
  unfold pressPlain
  split
  · rfl
  · split
    · exact (agrees_keyDown p _ event.keycode false).tracked
    · split
      · exact (agrees_repeatLast p s).tracked
      · exact (agrees_begin event s).tracked

theorem tracked_pressOwn (event : Transition) (s : Shifter)
    (hoff : s.settings.has Flag.dualRole = false) :
    (s.pressOwn p event).2.tracked = s.tracked := by
  unfold pressOwn
  split
  · exact (agrees_control _ s).tracked
  · split
    · simp [pressDualRole, hoff]
    · dsimp only
      split
      · exact tracked_pressPlain event (s.noteModifier event.keycode true)
      · rfl

theorem tracked_handleRelease (event : Transition) (s : Shifter) (ht : s.tracked = none) :
    (s.handleRelease p event).2.tracked = none := by
  unfold handleRelease releaseDualRole releasePlain
  rw [dropSuppressed_eq]
  dsimp only
  repeat' split
  all_goals first | exact ht | rw [(agrees_endKey p _ _ _).tracked]
  all_goals first | exact ht | rfl

/-- A key that is tracked has been pressed while dual role keys were tracked. -/
theorem tracked_perform (op : Operation) (s : Shifter) (ht : s.tracked = none)
    (hoff : s.settings.has Flag.dualRole = false) : (s.perform p op).2.tracked = none := by
  cases op with
  | handle event =>
    cases hdown : event.isDown with
    | true =>
      have hsettled := agrees_settle p event.time false s
      have hoff' : (s.settle p event.time false).settings.has Flag.dualRole = false := by
        rw [hsettled.settings]; exact hoff
      obtain ⟨hcleared, -⟩ := clearedFor_of_tracked p event ht
      have hpress : (s.handlePress p event).2.tracked = none := by
        rw [handlePress_eq, hcleared, tracked_pressOwn event _ hoff', hsettled.tracked]
        exact ht
      simpa [perform, handle, hdown] using hpress
    | false => simpa [perform, handle, hdown] using tracked_handleRelease (p := p) event s ht
  | scan now =>
    have hscan : (s.scanWaiting p now).tracked = none := by
      unfold scanWaiting
      split
      · split
        · rw [(agrees_decideKey p _ now true s).tracked]; exact ht
        · exact ht
      · exact ht
    rw [perform, scan, scanTracked, hscan]
    exact hscan
  | verdict keycode v pressTime switch now =>
    have hnone : s.trackedAs? keycode switch = none := by rw [trackedAs?, ht]; rfl
    simp only [perform, verdict, hnone]
    exact ht
  | enable => exact (agrees_enable s).tracked.trans ht
  | disable => exact (agrees_disable s).tracked.trans ht
  | toggle => exact (agrees_toggle s).tracked.trans ht
  | _ => exact ht

/-! ## Histories -/

theorem serves_run (history : List Operation) (s : Shifter) (ht : s.tracked = none)
    (htypes : ∀ op ∈ history, op.typesTimeout = false)
    (hoff : ∀ first, first <+: history → (s.run p first).settings.has Flag.dualRole = false) :
    Serves p (s.waiting.toList ++ presses history) (s.itemsAll p history)
      (s.run p history).waiting.toList := by
  induction history generalizing s with
  | nil =>
    rw [presses, List.filterMap_nil, List.append_nil]
    exact .nothing _
  | cons op rest ih =>
    have hop : s.settings.has Flag.dualRole = false := hoff [] List.nil_prefix
    have hstep := serves_perform (p := p) op s (htypes op List.mem_cons_self) ht hop
    have hrest := ih (s.perform p op).2 (tracked_perform op s ht hop)
      (fun op' hop' => htypes op' (List.mem_cons_of_mem op hop'))
      (fun first hfirst => hoff (op :: first) (List.cons_prefix_cons.mpr ⟨rfl, hfirst⟩))
    have hpresses : presses (op :: rest) = op.press?.toList ++ presses rest := by
      unfold presses
      rw [List.filterMap_cons]
      cases op.press? <;> rfl
    rw [hpresses, ← List.append_assoc, run_cons, itemsAll]
    exact hstep.append hrest

/-- **Every press is answered once and in order**: in a history that does not type the timeout and
never tracks dual role keys, the answers match the presses one by one.  The one press that can be
without an answer is the last, and it is the press that waits. -/
theorem presses_answered (p : Policy) (settings : Settings) (history : List Operation)
    (htypes : ∀ op ∈ history, op.typesTimeout = false)
    (hoff : ∀ first, first <+: history →
      ((initial settings).run p first).settings.has Flag.dualRole = false) :
    ∃ answered, presses history =
        answered ++ ((initial settings).run p history).waiting.toList ∧
      List.Forall₂ (fun event item => Item.Answers p event item) answered
        ((initial settings).itemsAll p history) := by
  have h := serves_run history (initial settings) rfl htypes hoff
  rwa [show (initial settings).waiting = none from rfl, Option.toList_none, List.nil_append] at h

/-- A roll over two letters, a shortcut with control, a letter repeated, a key without forms, and a
letter that still waits at the end. -/
def typing : List Operation :=
  [.handle (.press 4 0 0 0), .handle (.press 5 0 1 50), .handle (.release 4 0 0 60),
    .scan 300, .handle (.release 5 0 1 310), .handle (.press 0xe0 1 0 400),
    .handle (.press 6 0 2 410), .handle (.release 6 0 2 420), .handle (.release 0xe0 1 0 430),
    .handle (.press 7 0 3 500), .handle (.release 7 0 3 520), .handle (.press 7 0 3 540),
    .handle (.press 0x29 2 0 600), .handle (.press 8 0 4 700)]

theorem presses_answered_of_typing :
    (∀ op ∈ typing, op.typesTimeout = false) ∧
      (∀ first, first <+: typing →
        ((initial {}).run Policy.stock first).settings.has Flag.dualRole = false) ∧
      (initial {}).itemsAll Policy.stock typing =
        [.sent ⟨4, false⟩, .sent ⟨5, true⟩, .passedOn (.press 0xe0 1 0 400), .sent ⟨6, false⟩,
          .sent ⟨7, false⟩, .sent ⟨7, false⟩, .passedOn (.press 0x29 2 0 600)] ∧
      ∃ answered, presses typing =
          answered ++ ((initial {}).run Policy.stock typing).waiting.toList ∧
        List.Forall₂ (fun event item => Item.Answers Policy.stock event item) answered
          ((initial {}).itemsAll Policy.stock typing) := by
  have htypes : ∀ op ∈ typing, op.typesTimeout = false := by decide
  have hinits : ∀ first ∈ typing.inits,
      ((initial {}).run Policy.stock first).settings.has Flag.dualRole = false := by decide
  have hoff : ∀ first, first <+: typing →
      ((initial {}).run Policy.stock first).settings.has Flag.dualRole = false :=
    fun first hfirst => hinits first ((List.mem_inits first typing).mpr hfirst)
  exact ⟨htypes, hoff, by decide, presses_answered Policy.stock {} typing htypes hoff⟩

end Shifter

end LongPress
