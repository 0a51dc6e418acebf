import LongPress.Proofs.Endings
import LongPress.Proofs.Lasting
import LongPress.Proofs.NoStuckKey

/-!
# LongPress.Proofs.Routing

The release of a dual role key is kept back exactly if the shifter has pressed the key itself.

Seven things can become of a dual role key between its press and its release.  At the release only
two sets tell them apart: the bases that an interruption has typed, and the codes that are down
(`Traced.reply_release`).  From the press on, and until the key moves, the one set takes the base up
when an interruption types the key (`tapped_perform`), and the other keeps the code or lacks it as
the press left it (`Traced.down_perform`): a code is down on behalf of one key, and other keys spare
it.  So a repeated press and an interruption are what the release can be told by
(`Traced.routed`).

* `release_routed` — the main statement.
-/

namespace LongPress.Shifter

open Sending (forms)

variable {p : Policy} {K : Keys} {F : UInt8 → List Bool} {s t : Shifter} {l : List Sending}
  {event e : Transition} {op : Operation} {b : UInt8}

/-! ## Keys typed by an interruption -/

theorem tapped_scan (p : Policy) (now : Tick) (s : Shifter) : (s.scan p now).tapped = s.tapped := by
  have ha := agrees_scanTracked now (s.scanWaiting p now)
  rw [scan, ha.tapped]
  cases scanWaiting_cases p now s with
  | inl hcase => rw [hcase.1]
  | inr hcase =>
    obtain ⟨w, -, hscan, -⟩ := hcase
    rw [hscan]
    exact (agrees_decideKey p w now true s).tapped

theorem tapped_verdict (p : Policy) (keycode : Keycode) (v : Verdict) (pressTime : Tick)
    (switch : Switch) (now : Tick) (s : Shifter) :
    (s.verdict p keycode v pressTime switch now).2.tapped = s.tapped := by
  unfold verdict
  split
  · rfl
  · next e _ =>
    cases v with
    | tap => rfl
    | hold => exact (agrees_resolve p (e.pressedAt pressTime) now s.stopTracking).tapped

/-- The release of a key takes no other key from those that count as typed. -/
theorem ReleaseOutcome.tapped_contains {r : Bool × Shifter} (o : ReleaseOutcome p event s l r)
    (hb : event.keycode.base ≠ b) : r.2.tapped.contains b = s.tapped.contains b := by
  cases o with
  | tapped => simp [hb.symm]
  | held => rfl
  | endsDual =>
    have ha := agrees_endKey p event.keycode event.time ((s.dropped event).untracked event)
    rw [ha.tapped, untracked_eq]
    rfl
  | ends =>
    rw [(agrees_endKey p event.keycode event.time (s.unpassed event)).tapped]
    rfl
  | ignores => rfl

/-- Without a press and without a move of its key, a base counts as typed or not as before. -/
theorem tapped_contains_perform (p : Policy) (s : Shifter) (hpress : op.isPress = false)
    (hop : op.isMoveOf b = false) :
    (s.perform p op).2.tapped.contains b = s.tapped.contains b := by
  cases op with
  | handle event =>
    have hup : event.isDown = false := hpress
    rw [perform_release p s hup]
    cases hcontrol : event.keycode.isControl with
    | true => rw [(handleRelease_control p s hcontrol).1]
    | false =>
      refine (releaseOutcome p s hcontrol).tapped_contains ?_
      simpa [Operation.isMoveOf, Operation.move?, hcontrol] using hop
  | scan now => exact congrArg (·.contains b) (tapped_scan p now s)
  | verdict keycode v pressTime switch now =>
    exact congrArg (·.contains b) (tapped_verdict p keycode v pressTime switch now s)
  | enable => exact congrArg (·.contains b) (agrees_control .on s).tapped
  | disable => exact congrArg (·.contains b) (agrees_control .off s).tapped
  | toggle => exact congrArg (·.contains b) (agrees_control .toggle s).tapped
  | _ => rfl

/-- Of the operations that do not move it, those count a key as typed which end its tracking that
way. -/
theorem tapped_perform (p : Policy) (s : Shifter) (hop : op.isMoveOf b = false) :
    (s.perform p op).2.tapped.contains b = true ↔
      s.tapped.contains b = true ∨
        ∃ e, .ended e .typed ∈ s.milestones p op ∧ e.keycode.base = b := by
  cases hpress : op.isPress with
  | true =>
    cases op with
    | handle event =>
      have hdown : event.isDown = true := hpress
      rw [perform_press p s hdown, (settled_handlePress p event s).1,
        (clears p event s).tapped_iff]
      simp only [mem_handle_press_iff hdown]
    | _ => cases hpress
  | false =>
    have hnot (e : Transition) : Milestone.ended e .typed ∉ s.milestones p op := by
      intro hmem
      obtain ⟨-, ⟨event, rfl, hdown, -⟩, -⟩ := mem_milestones_iff.mp hmem
      exact Bool.false_ne_true (hpress.symm.trans hdown)
    simp [tapped_contains_perform p s hpress hop, hnot]

/-! ## Keys and their traces -/

/-- What is known of a shifter at any time of a history whose moves come at their time: each slot
and each set speaks of a key that is down, and each code that is down is that of the one form which
its key was sent in. -/
structure Traced (p : Policy) (K : Keys) (F : UInt8 → List Bool) (s : Shifter) : Prop where
  keys {b : UInt8} {e : Transition} : K b = some e → e.keycode.base = b
  owned : Owned p K s
  formed (b : UInt8) : Formed b (F b) s
  carried : Carried p K F s

theorem traced_initial (p : Policy) (settings : Settings) :
    Traced p .up (fun _ => []) (initial settings) where
  keys := nofun
  owned := owned_initial p settings
  formed _ := .inl rfl
  carried c hc := by simp [initial] at hc

namespace Traced

theorem perform (h : Traced p K F s) (hload : ∀ image, op ≠ .loadSettings image)
    (hadmits : op.move?.all K.admits = true) :
    Traced p (K.perform op) (fun b => formsAfter p b (F b) s op) (s.perform p op).2 where
  keys hK := Keys.base_of_perform h.keys hK
  owned := h.owned.perform hload hadmits
  formed b := (h.formed b).perform h.owned hadmits
  carried := h.carried.perform h.owned h.formed hload hadmits

theorem moved (h : Traced p K F s)
    (hadmits : (Operation.handle event).move?.all K.admits = true) :
    Traced p (K.perform (.handle event)) (fun b => formsAfter p b (F b) s (.handle event))
      (s.perform p (.handle event)).2 :=
  h.perform nofun hadmits

theorem run (h : Traced p K F s) {history : List Operation}
    (hload : ∀ image, .loadSettings image ∉ history) (hadmits : K.admitsAll history = true) :
    Traced p (K.run history) (fun b => formsSince p b (F b) s history) (s.run p history) := by
  induction history generalizing K F s with
  | nil => exact h
  | cons op rest ih =>
    rw [Keys.admitsAll, Bool.and_eq_true] at hadmits
    have hstep := h.perform (fun image he => hload image (he ▸ List.mem_cons_self)) hadmits.1
    exact ih hstep (fun image hmem => hload image (List.mem_cons_of_mem op hmem)) hadmits.2

variable (hstroke : p.stroke = Policy.stock.stroke)

include hstroke

/-- A base that is down is that of a key which is down, and which was sent once. -/
theorem of_down (h : Traced p K F s) (hb : s.down.contains b = true) :
    (∃ e, K b = some e) ∧ (∃ f, F b = [f]) ∧ s.interrupted b = false ∧ ¬ Undecided b s := by
  obtain ⟨b', e, f, hK, hF, hnot, -, hcode⟩ := h.carried b hb
  rw [code_of_stock hstroke, h.keys hK] at hcode
  subst hcode
  exact ⟨⟨e, hK⟩, ⟨f, hF⟩, hnot, (h.formed b).decided hF⟩

/-- The code of a dual role key is down until the key moves, if it is, and up if it is not. -/
theorem down_perform (h : Traced p K F s) (hK : K b = some e)
    (hdual : e.keycode.isDualRole = true) (hop : op.isMoveOf b = false)
    (hadmits : op.move?.all K.admits = true) :
    (s.perform p op).2.down.contains b = s.down.contains b := by
  rw [Bool.eq_iff_iff]
  constructor
  · intro hb
    refine (Shifter.down_perform h.owned hadmits hb).resolve_right ?_
    -- Without its press only an undecided key is sent: one that waits has a single role, and one
    -- that is tracked does not stay down.
    rintro ⟨x, f, -, hf, hcode, -, -, htracked⟩
    rw [code_of_stock hstroke] at hcode
    subst hcode
    cases decides_perform h.owned (Operation.isPressOf_of_isMoveOf hop) with
    | inl hcase =>
      obtain ⟨hnone, -⟩ := hcase
      have hmem := mem_forms hf
      rw [hnone] at hmem
      cases hmem
    | inr hcase =>
      obtain ⟨-, ⟨y, hy, hb⟩, -⟩ := hcase
      cases hy with
      | inl hwaiting =>
        obtain ⟨hKy, hsingle, -⟩ := h.owned.waiting hwaiting
        rw [hb, hK] at hKy
        cases hKy
        simp [hdual] at hsingle
      | inr hy => exact htracked y hy hb
  · intro hb
    obtain ⟨-, -, -, hnot⟩ := h.of_down hstroke hb
    exact spares_perform hstroke hop hnot hb

/-- While a dual role key stays down, its code stays as it is, and it counts as typed once its
tracking has ended that way. -/
theorem down_run (h : Traced p K F s) (hK : K b = some e) (hdual : e.keycode.isDualRole = true)
    {between : List Operation} (hbetween : ∀ op ∈ between, op.isMoveOf b = false)
    (hload : ∀ image, .loadSettings image ∉ between) (hadmits : K.admitsAll between = true) :
    (s.run p between).down.contains b = s.down.contains b ∧
      ((s.run p between).tapped.contains b = true ↔
        s.tapped.contains b = true ∨ .ended e .typed ∈ s.milestonesAll p between) := by
  induction between generalizing K F s with
  | nil => simp [milestonesAll]
  | cons op rest ih =>
    rw [Keys.admitsAll, Bool.and_eq_true] at hadmits
    have hop := hbetween op List.mem_cons_self
    have hstep := h.perform (fun image he => hload image (he ▸ List.mem_cons_self)) hadmits.1
    have hstill : K.perform op b = some e := (Keys.perform_of_isMoveOf hop).trans hK
    obtain ⟨hdown, htapped⟩ := ih hstep hstill
      (fun op' hmem => hbetween op' (List.mem_cons_of_mem op hmem))
      (fun image hmem => hload image (List.mem_cons_of_mem op hmem)) hadmits.2
    have htyped : (∃ x, .ended x .typed ∈ s.milestones p op ∧ x.keycode.base = b) ↔
        .ended e .typed ∈ s.milestones p op := by
      constructor
      · rintro ⟨x, hx, hb⟩
        have hKx := (h.owned.tracked (mem_milestones_iff.mp hx).1).1
        rw [hb, hK] at hKx
        cases hKx
        exact hx
      · exact fun he => ⟨e, he, h.keys hK⟩
    constructor
    · rw [run_cons, hdown, h.down_perform hstroke hK hdual hop hadmits.1]
    · rw [run_cons, htapped, tapped_perform p s hop, htyped, milestonesAll, List.mem_append,
        or_assoc]

end Traced

/-- A key that does not wait is let go, if it is down. -/
theorem endKey_fst {k : Keycode} {now : Tick}
    (hw : ∀ w, s.waiting = some w → w.keycode ≠ k) :
    (s.endKey p k now).1 = s.down.contains (s.strokeToRelease p k).code := by
  have hgone : (s.letGo p k now).1 = s.down.contains (s.strokeToRelease p k).code := by
    simp [letGo, keyUp]
  unfold endKey
  split
  · next w hwaiting => rw [if_neg (hw w hwaiting).symm, hgone]
  · exact hgone

/-- Whether a press of a dual role key repeats the last key, once what came before is settled. -/
def repeatsDualRole (p : Policy) (press : Transition) (s : Shifter) : Bool :=
  let t := s.clearedFor p press
  t.isEnabled && t.settings.has Flag.dualRole && t.hasForms p press.keycode && t.isRepeat press

theorem down_pressDualRole (hstroke : p.stroke = Policy.stock.stroke)
    (hnot : s.down.contains event.keycode.base = false) :
    (s.pressDualRole p event).2.down.contains event.keycode.base =
      (s.isEnabled && s.settings.has Flag.dualRole && s.hasForms p event.keycode &&
        s.isRepeat event) := by
  have hrepeat : s.isRepeat event = true →
      (s.repeatLast p).down.contains event.keycode.base = true := by
    intro h
    unfold repeatLast
    dsimp only
    rw [contains_keyDown, code_of_stock hstroke, (agrees_suppressShift s).last,
      last_of_isRepeat h, decide_eq_true rfl, Bool.true_or]
  unfold pressDualRole
  cases s.isEnabled <;> cases s.settings.has Flag.dualRole <;> cases s.hasForms p event.keycode <;>
    cases hr : s.isRepeat event <;> simp [hnot, hrepeat, hr]

namespace Traced

variable (hstroke : p.stroke = Policy.stock.stroke)

include hstroke

/-- The press of a dual role key puts its code down if it repeats itself, and then only. -/
theorem down_press (h : Traced p K F s) {press : Transition} (hup : K press.keycode.base = none)
    (hdown : press.isDown = true) (hdual : press.keycode.isDualRole = true) :
    (s.perform p (.handle press)).2.down.contains press.keycode.base =
        s.repeatsDualRole p press ∧
      (s.perform p (.handle press)).2.tapped.contains press.keycode.base = false := by
  have hnot : (s.clearedFor p press).down.contains press.keycode.base = false := by
    refine Bool.eq_false_iff.mpr fun hb => ?_
    obtain ⟨⟨e, hK⟩, -⟩ := h.of_down hstroke (down_clearedFor hb)
    rw [hup] at hK
    cases hK
  rw [perform_press p s hdown]
  constructor
  · rw [handlePress_eq, pressOwn_of_isDualRole p _ hdual]
    exact down_pressDualRole hstroke hnot
  · rw [(settled_handlePress p press s).1]
    exact ((h.owned.clearedFor press).not_of_up hup).2.1

/-- The release of a dual role key goes on unless an interruption has typed the key or its code is
down. -/
theorem reply_release (h : Traced p K F s) {release : Transition}
    (hup : release.isDown = false) (hdual : release.keycode.isDualRole = true) :
    (s.handle p release).1 = false ↔
      s.tapped.contains release.keycode.base = true ∨
        s.down.contains release.keycode.base = true := by
  have hreply : s.handle p release = s.handleRelease p release := by simp [handle, hup]
  obtain ⟨l, r, hr, o⟩ : ∃ l r, r = s.handleRelease p release ∧ ReleaseOutcome p release s l r :=
    ⟨_, _, rfl, releaseOutcome p s (isControl_of_isDualRole hdual)⟩
  rw [hreply, ← hr]
  cases o with
  | tapped dual tapped => simp only [tapped, true_or]
  | held dual tapped held =>
    -- A code that is down is that of a key which no interruption has settled.
    have hnot : s.down.contains release.keycode.base = false := by
      refine Bool.eq_false_iff.mpr fun hb => ?_
      obtain ⟨-, -, hsettled, -⟩ := h.of_down hstroke hb
      simp [interrupted, held] at hsettled
    simp [tapped, hnot]
  | endsDual dual tapped held =>
    have heq := untracked_eq release (s.dropped release)
    have hwaiting : ∀ w, ((s.dropped release).untracked release).waiting = some w →
        w.keycode ≠ release.keycode := by
      intro w hw hsame
      rw [heq] at hw
      have hsingle := (h.owned.waiting hw).2.1
      simp [hsame, hdual] at hsingle
    rw [endKey_fst hwaiting, strokeToRelease, code_of_stock hstroke, down_untracked]
    simp only [tapped, Bool.not_eq_false', Bool.false_eq_true, false_or]
    rfl
  | ends single => simp [hdual] at single
  | ignores single => simp [hdual] at single

end Traced

/-! ## The release of a dual role key -/

theorem mem_sendsAll {x : Sending} {first rest : List Operation}
    (h : x ∈ (s.run p first).sends p op) : x ∈ s.sendsAll p (first ++ op :: rest) := by
  induction first generalizing s with
  | nil => exact List.mem_append_left _ h
  | cons op' first ih => exact List.mem_append_right _ (ih h)

/-- Whether an operation interrupts a tracked press, and the key is typed for that. -/
def Types (p : Policy) (op : Operation) (press : Transition) (s : Shifter) : Prop :=
  s.tracked = some press ∧ op.Interrupts press ∧
    p.holdsWhenInterrupted press.keycode (s.usuallyHolds press.keycode) = false

theorem types_iff {press : Transition} :
    .ended press .typed ∈ s.milestones p op ↔ s.Types p op press := by
  constructor
  · intro h
    obtain ⟨ht, hinterrupts, holds, -⟩ := mem_milestones_iff.mp h
    exact ⟨ht, hinterrupts, holds⟩
  · rintro ⟨ht, hinterrupts, holds⟩
    exact ended_of_interrupts ht hinterrupts (by rw [holds, if_neg (by simp)])

theorem Types.sent {press : Transition} (h : s.Types p op press) :
    ∃ form, .key press.keycode form ∈ s.sends p op := by
  obtain ⟨-, -, -, -, hsent⟩ := mem_milestones_iff.mp (types_iff.mpr h)
  exact hsent

/-- From the press of a dual role key on, as long as the key does not move: its code is down exactly
if the press repeated the last key, and the key counts as typed exactly if it was interrupted that
way. -/
theorem Traced.routed (h : Traced p K F s) (hstroke : p.stroke = Policy.stock.stroke)
    {press : Transition} {between : List Operation} (hup : K press.keycode.base = none)
    (hdown : press.isDown = true) (hdual : press.keycode.isDualRole = true)
    (hbetween : ∀ op ∈ between, op.isMoveOf press.keycode.base = false)
    (hload : ∀ image, .loadSettings image ∉ between)
    (hadmits : K.admitsAll (.handle press :: between) = true) :
    (s.run p (.handle press :: between)).down.contains press.keycode.base =
        s.repeatsDualRole p press ∧
      ((s.run p (.handle press :: between)).tapped.contains press.keycode.base = true ↔
        ∃ first op rest, between = first ++ op :: rest ∧
          (s.run p (.handle press :: first)).Types p op press) := by
  rw [Keys.admitsAll, Bool.and_eq_true] at hadmits
  have hpressed := h.moved hadmits.1
  have hK : K.perform (.handle press) press.keycode.base = some press := by
    rw [Keys.perform_handle (isControl_of_isDualRole hdual), Keys.move_press _ hdown]
  obtain ⟨hdownPress, htappedPress⟩ := h.down_press hstroke hup hdown hdual
  obtain ⟨hdownRun, htappedRun⟩ :=
    hpressed.down_run hstroke hK hdual hbetween hload hadmits.2
  rw [run_cons]
  refine ⟨hdownRun.trans hdownPress, ?_⟩
  rw [htappedRun, htappedPress, mem_milestonesAll_iff]
  simp only [Bool.false_eq_true, false_or, types_iff, run_cons]

/-- A key that is up is not tracked, and its base is in no set. -/
theorem Traced.not_of_up (h : Traced p K F s) (hstroke : p.stroke = Policy.stock.stroke)
    (hup : K b = none) :
    (∀ e, s.tracked = some e → e.keycode.base ≠ b) ∧ s.tapped.contains b = false ∧
      s.held.contains b = false ∧ s.down.contains b = false := by
  obtain ⟨-, htapped, hheld⟩ := h.owned.not_of_up hup
  refine ⟨fun e he hb => ?_, htapped, hheld, Bool.eq_false_iff.mpr fun hdown => ?_⟩
  · have hK := (h.owned.tracked he).1
    rw [hb, hup] at hK
    cases hK
  · obtain ⟨⟨e, hK⟩, -⟩ := h.of_down hstroke hdown
    rw [hup] at hK
    cases hK

/-- A dual role key whose code is down, or which an interruption has typed, was sent once since its
press. -/
theorem Traced.sent_once {before between : List Operation} {press : Transition}
    (h : Traced p K (fun b => formsSince p b (F b) s (before ++ .handle press :: between))
      (s.run p (before ++ .handle press :: between)))
    (hstroke : p.stroke = Policy.stock.stroke) (hdown : press.isDown = true)
    (hdual : press.keycode.isDualRole = true)
    (hbetween : ∀ op ∈ between, op.isMoveOf press.keycode.base = false)
    (hsent :
      (s.run p (before ++ .handle press :: between)).down.contains press.keycode.base = true ∨
        ∃ first op rest, between = first ++ op :: rest ∧
          ((s.run p before).run p (.handle press :: first)).Types p op press) :
    ∃ form, forms press.keycode.base
      ((s.run p before).sendsAll p (.handle press :: between)) = [form] := by
  have hpress : Operation.isPressOf press.keycode.base (.handle press) = true := by
    simp [Operation.isPressOf, Operation.press?, hdown, isControl_of_isDualRole hdual]
  have hsince := formsSince_press p (F press.keycode.base) s before between hpress
    fun op hop => Operation.isPressOf_of_isMoveOf (hbetween op hop)
  rw [← hsince]
  cases hsent with
  | inl hcode =>
    obtain ⟨-, hone, -⟩ := h.of_down hstroke hcode
    exact hone
  | inr hcase =>
    obtain ⟨first, op, rest, rfl, htypes⟩ := hcase
    obtain ⟨form, hform⟩ := htypes.sent
    have hmem : form ∈ forms press.keycode.base
        ((s.run p before).sendsAll p (.handle press :: (first ++ op :: rest))) :=
      mem_forms (mem_sendsAll hform)
    rw [← hsince] at hmem
    exact ⟨form, (h.formed press.keycode.base).eq_of_mem hmem⟩

/-- The press of a dual role key goes on unless it repeats the last key. -/
theorem reply_press (p : Policy) (s : Shifter) {press : Transition} (hdown : press.isDown = true)
    (hdual : press.keycode.isDualRole = true) :
    s.repeatsDualRole p press = true ↔ (s.handle p press).1 = false := by
  have hreply : s.handle p press = s.handlePress p press := by simp [handle, hdown]
  rw [hreply, handlePress_eq, pressOwn_of_isDualRole p _ hdual, repeatsDualRole]
  generalize s.clearedFor p press = t
  unfold pressDualRole
  cases t.isEnabled <;> cases t.settings.has Flag.dualRole <;> cases t.hasForms p press.keycode <;>
    cases t.isRepeat press <;> simp

/-- **Only a key that the shifter has pressed itself is kept back.**  With the stock strokes, and in
a history that comes at its time, the release of a dual role key does not go on exactly if its press
repeated the last key, or an interruption between the two typed it.  Afterwards the key is not
tracked, and its base is in no set. -/
theorem release_routed (p : Policy) (hstroke : p.stroke = Policy.stock.stroke)
    (settings : Settings) (history : List Operation) (release : Transition)
    (hload : ∀ image, .loadSettings image ∉ history)
    (hadmits : Keys.up.admitsAll (history ++ [.handle release]) = true)
    (hup : release.isDown = false) (hdual : release.keycode.isDualRole = true) :
    let t := (initial settings).run p history
    let u := (t.perform p (.handle release)).2
    (∃ before press between,
        history = before ++ .handle press :: between ∧ press.isDown = true ∧
        press.keycode = release.keycode ∧ press.switch.samePlace release.switch = true ∧
        (∀ op ∈ between, op.isMoveOf release.keycode.base = false) ∧
        let s := (initial settings).run p before
        ((t.handle p release).1 = false ↔
          s.repeatsDualRole p press = true ∨
            ∃ first op rest, between = first ++ op :: rest ∧
              (s.run p (.handle press :: first)).Types p op press) ∧
        (s.repeatsDualRole p press = true ↔ (s.handle p press).1 = false) ∧
        ((t.handle p release).1 = false →
          ∃ form, forms release.keycode.base
            (s.sendsAll p (.handle press :: between)) = [form])) ∧
      (∀ e, u.tracked = some e → e.keycode.base ≠ release.keycode.base) ∧
      u.tapped.contains release.keycode.base = false ∧
      u.held.contains release.keycode.base = false ∧
      u.down.contains release.keycode.base = false := by
  intro t u
  have hcontrol := isControl_of_isDualRole hdual
  rw [Keys.admitsAll_append, Bool.and_eq_true] at hadmits
  obtain ⟨hhistory, hlast⟩ := hadmits
  rw [Keys.admitsAll, Bool.and_eq_true] at hlast
  have hall := (traced_initial p settings).run hload hhistory
  have hafter := hall.moved hlast.1
  have hreply := hall.reply_release hstroke hup hdual
  rw [Operation.move?_handle hcontrol] at hlast
  obtain ⟨press, hK, hkey, hplace⟩ := Keys.eq_some_of_admits hlast.1 hup
  obtain ⟨before, between, rfl, hdown, -, hb, hbetween⟩ := Keys.exists_press hK
  constructor
  · refine ⟨before, press, between, rfl, hdown, hkey.symm, hplace, hbetween, ?_⟩
    intro s
    rw [hkey] at hreply hbetween hdual ⊢
    rw [Keys.admitsAll_append, Bool.and_eq_true] at hhistory
    have hbefore := (traced_initial p settings).run
      (fun image hmem => hload image (List.mem_append_left _ hmem)) hhistory.1
    have hpressUp : Keys.up.run before press.keycode.base = none := by
      have hpress := (Bool.and_eq_true_iff.mp hhistory.2).1
      rw [Operation.move?_handle (isControl_of_isDualRole hdual)] at hpress
      exact Keys.eq_none_of_admits hpress hdown
    obtain ⟨hdownT, htappedT⟩ := hbefore.routed hstroke hpressUp hdown hdual hbetween
      (fun image hmem => hload image (List.mem_append_right _ (List.mem_cons_of_mem _ hmem)))
      hhistory.2
    rw [← run_append] at hdownT htappedT
    refine ⟨?_, reply_press p s hdown hdual, fun hfalse => ?_⟩
    · rw [hreply, htappedT, hdownT, or_comm]
    · refine hall.sent_once hstroke hdown hdual hbetween ?_
      rwa [← htappedT, or_comm, ← hreply]
  · refine hafter.not_of_up hstroke ?_
    rw [Keys.perform_handle hcontrol, Keys.move_release _ hup]

/-- A layer-tap key goes down three times.  The first time a verdict has it sent; the second time it
repeats that; the third time the next press types it. -/
def threeTimes : List Operation :=
  [.handle (.press (Keycode.layerTap 1 7) 0 0 0),
    .verdict (Keycode.layerTap 1 7) .hold 0 (.ofBytes 0 0 true) 50,
    .handle (.release (Keycode.layerTap 1 7) 0 0 60),
    .handle (.press (Keycode.layerTap 1 7) 0 0 100),
    .handle (.release (Keycode.layerTap 1 7) 0 0 120),
    .handle (.press (Keycode.layerTap 1 7) 0 0 400),
    .handle (.press 6 0 1 410), .handle (.release 6 0 1 420)]

theorem release_routed_of_threeTimes :
    Keys.up.admitsAll (threeTimes ++ [.handle (.release (Keycode.layerTap 1 7) 0 0 430)]) = true ∧
      (((initial dualRoleSettings).run .stock (threeTimes.take 2)).handle .stock
        (.release (Keycode.layerTap 1 7) 0 0 60)).1 = true ∧
      (((initial dualRoleSettings).run .stock (threeTimes.take 4)).handle .stock
        (.release (Keycode.layerTap 1 7) 0 0 120)).1 = false ∧
      (((initial dualRoleSettings).run .stock threeTimes).handle .stock
        (.release (Keycode.layerTap 1 7) 0 0 430)).1 = false ∧
      (∃ before press between form, threeTimes = before ++ .handle press :: between ∧
        forms (Keycode.layerTap 1 7).base
          (((initial dualRoleSettings).run .stock before).sendsAll .stock
            (.handle press :: between)) = [form]) ∧
      ((initial dualRoleSettings).run .stock threeTimes).tapped.contains 7 = true ∧
      (((initial dualRoleSettings).run .stock threeTimes).perform .stock
        (.handle (.release (Keycode.layerTap 1 7) 0 0 430))).2.tapped.contains 7 = false := by
  have hload : ∀ image, .loadSettings image ∉ threeTimes := by simp [threeTimes]
  have hadmits : Keys.up.admitsAll
      (threeTimes ++ [.handle (.release (Keycode.layerTap 1 7) 0 0 430)]) = true := by decide
  have hkept : (((initial dualRoleSettings).run .stock threeTimes).handle .stock
      (.release (Keycode.layerTap 1 7) 0 0 430)).1 = false := by decide +kernel
  obtain ⟨⟨before, press, between, heq, -, -, -, -, -, -, hsent⟩, -, htapped, -, -⟩ :=
    release_routed .stock rfl dualRoleSettings threeTimes
      (.release (Keycode.layerTap 1 7) 0 0 430) hload hadmits rfl (by decide)
  obtain ⟨form, hform⟩ := hsent hkept
  exact ⟨hadmits, by decide, by decide, hkept, ⟨before, press, between, form, heq, hform⟩,
    by decide, htapped⟩

end LongPress.Shifter
