import LongPress.Proofs.Board
import LongPress.Proofs.GivenBack
import LongPress.Proofs.NoStrandedKey
import LongPress.Proofs.Repeats
import LongPress.Proofs.Routing

/-!
# LongPress.Proofs.LeftAlone

Dual role keys while they are not tracked.

Such a key is passed on when it goes down.  When it goes up, its end is that of any key: what is
down of its base is let go, and only if nothing was does the release go on.  `Grounded B s` says
that whatever waits or is down is so for a key with a single role and a shifted form which is down
on the board; so the release of a dual role key does nothing but take the time, unless such a key
of its base is down.  If one is, that key is let go in its place, and the release of the dual role
key is kept back.

* `dual_role_key_left_alone` — the main statement;
* `release_takes_another_key` — the release of a dual role key need not go on.
-/

namespace LongPress

/-! ## Basic keys -/

namespace Keycode

variable {k n : Keycode}

theorem decide_le_of_le_lastBasic (h : k ≤ lastBasic) (hn : lastBasic < n) :
    decide (n ≤ k) = false :=
  decide_eq_false (UInt16.not_le.mpr (UInt16.lt_of_le_of_lt h hn))

theorem isControl_of_le_lastBasic (h : k ≤ lastBasic) : k.isControl = false := by
  rw [isControl, decide_le_of_le_lastBasic h (by decide), Bool.false_and]

theorem isDualRole_of_le_lastBasic (h : k ≤ lastBasic) : k.isDualRole = false := by
  rw [isDualRole, isModTap, isLayerTap, isComposite, decide_le_of_le_lastBasic h (by decide),
    decide_le_of_le_lastBasic h (by decide), decide_le_of_le_lastBasic h (by decide)]
  rfl

end Keycode

namespace Shifter

/-! ## Keys on the board -/

variable {p : Policy} {B : Board} {s : Shifter} {event w : Transition} {op : Operation} {b : UInt8}

/-- Whatever waits or is down is so for a key with a single role and a shifted form that is down on
the board, and the last key is a basic one. -/
structure Grounded (B : Board) (s : Shifter) : Prop where
  free : NoDualRole s
  off : s.settings.has Flag.dualRole = false
  waiting {w : Transition} : s.waiting = some w →
    s.isFormed .stock w.keycode.base w.keycode = true
  engaged {b : UInt8} : Engaged b s → ∃ press ∈ B, s.isFormed .stock b press.keycode = true
  last : s.last ≤ Keycode.lastBasic

theorem grounded_initial {settings : Settings} (hoff : settings.has Flag.dualRole = false) :
    Grounded [] (initial settings) where
  free := noDualRole_initial settings
  off := hoff
  waiting := nofun
  engaged h := by simp [Engaged, initial] at h
  last := show Keycode.noKey ≤ Keycode.lastBasic by decide

/-! ## Operations -/

/-- The key that waits was waiting before, or goes down now with a shifted form. -/
theorem isFormed_of_waiting (h : NoDualRole s) (hw : (s.perform p op).2.waiting = some w) :
    s.waiting = some w ∨ s.isFormed p w.keycode.base w.keycode = true := by
  cases hpress : op.isPress with
  | false =>
    rcases waits_perform (p := p) h hpress with ⟨hsame, -⟩ | ⟨e, now, -, hnone, -⟩
    · exact .inl (hsame.symm.trans hw)
    · rw [hnone] at hw
      cases hw
  | true =>
    cases op with
    | handle event =>
      obtain ⟨rfl, -, single, forms, -⟩ := begun_of_waiting h hpress hw
      exact .inr (isFormed_iff.mpr ⟨single, forms, rfl⟩)
    | _ => cases hpress

theorem le_lastBasic_of_isFormed {k : Keycode} (h : s.isFormed .stock b k = true) :
    k ≤ Keycode.lastBasic := by
  obtain ⟨single, forms, -⟩ := isFormed_iff.mp h
  exact le_lastBasic_of_hasForms single forms

theorem last_le_of_mayBecomeLast {k : Keycode} (h : NoDualRole s)
    (hlast : s.last ≤ Keycode.lastBasic) (hk : s.MayBecomeLast k) : k ≤ Keycode.lastBasic := by
  rcases hk with rfl | rfl | ⟨e, he, -⟩
  · exact hlast
  · decide
  · rw [h.tracked] at he
    cases he

namespace Grounded

/-- After an operation the last key is a basic one. -/
theorem last_perform (h : Grounded B s) (op : Operation) :
    (s.perform .stock op).2.last ≤ Keycode.lastBasic := by
  cases hpress : op.isPress with
  | false =>
    exact last_le_of_mayBecomeLast h.free h.last (Shifter.last_perform .stock s hpress)
  | true =>
    cases op with
    | handle event =>
      rcases last_press .stock s hpress with hnone | ⟨hkey, hformed⟩ | ⟨hlast, -⟩
      · rw [hnone]
        decide
      · rw [hkey]
        exact le_lastBasic_of_isFormed hformed
      · exact last_le_of_mayBecomeLast h.free h.last hlast
    | _ => cases hpress

/-- The keys that wait for or hold a base are one key. -/
theorem eq_of_waiting (h : Grounded B s) {k : Keycode} (hformed : s.isFormed .stock b k = true)
    (hw : s.waiting = some w) (hb : w.keycode.base = b) : w.keycode = k := by
  have hwaiting := h.waiting hw
  refine Keycode.base_inj (le_lastBasic_of_isFormed hwaiting) (le_lastBasic_of_isFormed hformed) ?_
  rw [hb, (isFormed_iff.mp hformed).2.2]

/-- What a press engages is its own base, or was engaged before. -/
theorem engaged_press (h : Grounded B s) (hdown : event.isDown = true)
    (hfree : ∀ press ∈ B, press.switch.samePlace event.switch = false)
    (hengaged : Engaged b (s.perform .stock (.handle event)).2) :
    ∃ press ∈ B.move event, s.isFormed .stock b press.keycode = true := by
  have hold : Engaged b s → ∃ press ∈ B.move event, s.isFormed .stock b press.keycode = true := by
    intro hs
    obtain ⟨press, hmem, hformed⟩ := h.engaged hs
    exact ⟨press, Board.mem_move.mpr (.inr ⟨hmem, hfree press hmem⟩), hformed⟩
  cases hop : Operation.isPressOf b (.handle event) with
  | false => exact hold (engaged_perform rfl h.free hop hengaged)
  | true =>
    obtain ⟨hcontrol, rfl⟩ : event.keycode.isControl = false ∧ event.keycode.base = b := by
      simpa [Operation.isPressOf, Operation.press?, hdown, Option.any_eq_true] using hop
    by_cases hs : Engaged event.keycode.base s
    · exact hold hs
    · obtain ⟨single, forms, -⟩ :=
        Shifter.engaged_press h.free h.off hdown hcontrol hs hengaged
      exact ⟨event, Board.mem_move.mpr (.inl ⟨hdown, rfl⟩), isFormed_iff.mpr ⟨single, forms, rfl⟩⟩

/-- The release of a key with forms disengages its base, and other releases leave the keys with
forms on the board. -/
theorem engaged_release (h : Grounded B s) (hone : B.OneEach) (hadmits : B.admits event = true)
    (hup : event.isDown = false) (hengaged : Engaged b (s.perform .stock (.handle event)).2) :
    ∃ press ∈ B.move event, s.isFormed .stock b press.keycode = true := by
  have hop : Operation.isPressOf b (.handle event) = false := by
    simp [Operation.isPressOf, Operation.press?, hup]
  obtain ⟨press, hmem, hformed⟩ := h.engaged (engaged_perform rfl h.free hop hengaged)
  rcases hone.mem_move_release hadmits hup hmem with hstays | ⟨hkey, -⟩
  · exact ⟨press, hstays, hformed⟩
  · rw [← hkey] at hformed
    obtain ⟨single, forms, rfl⟩ := isFormed_iff.mp hformed
    have hcontrol : event.keycode.isControl = false :=
      Keycode.isControl_of_le_lastBasic (le_lastBasic_of_isFormed hformed)
    have hnot : ¬ Engaged event.keycode.base (s.perform .stock (.handle event)).2 :=
      not_engaged_release rfl h.free hup hcontrol (fun w hw hb => h.eq_of_waiting hformed hw hb)
        fun _ => ⟨single, forms⟩
    exact absurd hengaged hnot

theorem perform (h : Grounded B s) (hone : B.OneEach) (hload : ∀ image, op ≠ .loadSettings image)
    (hadmits : op.transition?.all B.admits = true) :
    Grounded (B.perform op) (s.perform .stock op).2 := by
  have hkeeps : Keeps s (s.perform .stock op).2 := keeps_perform .stock s hload
  have hformed (b : UInt8) (k : Keycode) :
      (s.perform .stock op).2.isFormed .stock b k = s.isFormed .stock b k :=
    isFormed_congr hkeeps.switches b k
  have hoff : (s.perform .stock op).2.settings.has Flag.dualRole = false := by
    rw [Settings.has, hkeeps.switches]
    exact h.off
  refine ⟨h.free.perform h.off op, hoff, fun hw => ?_, fun hengaged => ?_, h.last_perform op⟩
  · rw [hformed]
    exact (isFormed_of_waiting h.free hw).elim h.waiting id
  · simp only [hformed]
    cases htransition : op.transition? with
    | none =>
      have hop (b : UInt8) : op.isPressOf b = false := by
        cases op with
        | handle => cases htransition
        | _ => rfl
      rw [Board.perform, htransition]
      exact h.engaged (engaged_perform rfl h.free (hop _) hengaged)
    | some event =>
      cases Operation.eq_of_transition? htransition
      rw [htransition, Option.all_some] at hadmits
      rw [Board.perform, htransition]
      cases hdown : event.isDown with
      | true => exact h.engaged_press hdown (Board.free_of_admits hadmits hdown) hengaged
      | false => exact h.engaged_release hone hadmits hdown hengaged

theorem run (h : Grounded B s) (hone : B.OneEach) {history : List Operation}
    (hload : ∀ image, .loadSettings image ∉ history) (hadmits : B.admitsAll history = true) :
    Grounded (B.run history) (s.run .stock history) := by
  induction history generalizing B s with
  | nil => exact h
  | cons op rest ih =>
    rw [Board.admitsAll, Bool.and_eq_true] at hadmits
    have hstep := h.perform hone (fun image he => hload image (he ▸ List.mem_cons_self)) hadmits.1
    exact ih hstep (hone.perform op) (fun image hmem => hload image (List.mem_cons_of_mem op hmem))
      hadmits.2

/-! ## Dual role keys -/

/-- The release of a dual role key lets go what is down of its base, and takes the time. -/
theorem handle_release_dual (h : Grounded B s) (hup : event.isDown = false)
    (hdual : event.keycode.isDualRole = true) :
    s.handle .stock event =
      (!s.down.contains event.keycode.base,
        { (s.keyUp .stock event.keycode).2 with since := event.time }) := by
  have hsame : (s.dropped event).untracked event = s := by
    rw [dropped_of_modifierBit (Keycode.modifierBit_of_isDualRole hdual), untracked, trackedAs?,
      h.free.tracked]
    rfl
  have hlast : event.keycode ≠ s.last := by
    intro hlast
    simp [Keycode.isDualRole_of_le_lastBasic (hlast ▸ h.last)] at hdual
  have hends : s.endKey .stock event.keycode event.time =
      (s.down.contains event.keycode.base,
        { (s.keyUp .stock event.keycode).2 with since := event.time }) := by
    have hgone : s.letGo .stock event.keycode event.time =
        (s.down.contains event.keycode.base,
          { (s.keyUp .stock event.keycode).2 with since := event.time }) := by
      rw [letGo, if_neg hlast, keyUp]
      dsimp only
      rw [CodeSet.remove_fst]
      rfl
    unfold endKey
    split
    · next w hw =>
      rw [if_neg, hgone]
      intro hkey
      obtain ⟨single, -⟩ := isFormed_iff.mp (h.waiting hw)
      simp [← hkey, hdual] at single
    · exact hgone
  rw [handle_release .stock s hup]
  obtain ⟨l, r, hr, o⟩ : ∃ l r, r = s.handleRelease .stock event ∧
      ReleaseOutcome .stock event s l r :=
    ⟨_, _, rfl, releaseOutcome .stock s (isControl_of_isDualRole hdual)⟩
  rw [← hr]
  cases o with
  | tapped _ tapped => simp [h.free.tapped] at tapped
  | held _ _ held => simp [h.free.held] at held
  | endsDual => rw [hsame, hends]
  | ends single => simp [hdual] at single
  | ignores single => simp [hdual] at single

/-- The release of a dual role key is nothing but the time that it tells, if nothing of its base
is down. -/
theorem handle_release_of_up (h : Grounded B s) (hup : event.isDown = false)
    (hdual : event.keycode.isDualRole = true)
    (hnot : s.down.contains event.keycode.base = false) :
    s.handle .stock event = (true, { s with since := event.time }) := by
  have hcode : (s.strokeToRelease .stock event.keycode).code = event.keycode.base := rfl
  have hsame : (s.down.remove event.keycode.base).2 = s.down := by
    refine CodeSet.eq_of_contains fun c => ?_
    rw [CodeSet.contains_remove]
    by_cases hc : c = event.keycode.base
    · rw [hc, hnot, Bool.and_false]
    · simp [hc]
  rw [h.handle_release_dual hup hdual, hnot, keyUp]
  dsimp only
  rw [CodeSet.remove_fst, hcode, hnot, hsame]
  rfl

end Grounded

/-- While dual role keys are not tracked, the press of one settles what waits and is passed on. -/
theorem handle_press_dual (p : Policy) (ht : s.tracked = none)
    (hoff : s.settings.has Flag.dualRole = false) (hdown : event.isDown = true)
    (hdual : event.keycode.isDualRole = true) :
    s.handle p event = (true, s.settle p event.time false) := by
  have hsettled : (s.settle p event.time false).settings = s.settings :=
    (agrees_settle p event.time false s).settings
  rw [handle_press p ht hdown, pressOwn_of_isDualRole p _ hdual, pressDualRole, hsettled, hoff]
  simp

/-- **Dual role keys that are not tracked are left alone**, unless another key of their base is
down.  In a history that loads no settings, and in which every switch goes down and up in turn:

* a press of a dual role key settles what waits, and is passed on;
* a release is passed on and leaves nothing but its time, if the code of its base is not down;
* if the code is down, then on behalf of a key of that base with a single role and a shifted form
  that is down on the board; that code is let go, nothing else is reported, and the release is kept
  back. -/
theorem dual_role_key_left_alone (settings : Settings)
    (hoff : settings.has Flag.dualRole = false) (history : List Operation) (event : Transition)
    (hload : ∀ image, .loadSettings image ∉ history)
    (hadmits : Board.admitsAll [] (history ++ [.handle event]) = true)
    (hdual : event.keycode.isDualRole = true) :
    let s := (initial settings).run .stock history
    let b := event.keycode.base
    (event.isDown = true → s.handle .stock event = (true, s.settle .stock event.time false)) ∧
      (event.isDown = false →
        (s.down.contains b = false →
          s.handle .stock event = (true, { s with since := event.time })) ∧
        (s.down.contains b = true →
          (s.handle .stock event).1 = false ∧
          s.reported .stock (.handle event) = [.key ⟨b, s.shifted.contains b⟩ false] ∧
          (s.handle .stock event).2.down = (s.down.remove b).2 ∧
          ∃ press ∈ Board.run [] history, press.keycode.isDualRole = false ∧
            s.hasForms .stock press.keycode = true ∧ press.keycode.base = b)) := by
  intro s b
  rw [Board.admitsAll_append, Bool.and_eq_true] at hadmits
  have h : Grounded (Board.run [] history) s :=
    (grounded_initial hoff).run Board.oneEach_nil hload hadmits.1
  refine ⟨fun hdown => handle_press_dual .stock h.free.tracked h.off hdown hdual, fun hup => ?_⟩
  refine ⟨h.handle_release_of_up hup hdual, fun hcode => ?_⟩
  have hhandle := h.handle_release_dual hup hdual
  obtain ⟨press, hmem, hformed⟩ := h.engaged (.inr hcode)
  have hreported : s.reported .stock (.handle event) =
      [.key ⟨b, s.shifted.contains b⟩ false] := by
    have hup' : (s.keyUp .stock event.keycode).2.outbox =
        s.outbox ++ [.key ⟨b, s.shifted.contains b⟩ false] := by
      rw [keyUp_outbox]
      exact congrArg (s.outbox ++ ·) (if_pos hcode)
    refine reported_eq ?_
    rw [Shifter.perform, hhandle]
    exact hup'
  refine ⟨by rw [hhandle, hcode]; rfl, hreported, by rw [hhandle]; exact keyUp_down .stock s _, ?_⟩
  exact ⟨press, hmem, isFormed_iff.mp hformed⟩

/-- A letter is held until a scan sends it, and a layer-tap key of its base goes down. -/
def heldUnderTap : List Operation :=
  [.handle (.press 4 0 0 0), .scan 200, .handle (.press (Keycode.layerTap 1 4) 0 1 210)]

theorem dual_role_key_left_alone_of_heldUnderTap :
    Board.admitsAll [] (heldUnderTap ++
        [.handle (.release 4 0 0 215), .handle (.release (Keycode.layerTap 1 4) 0 1 220)]) = true ∧
      (((initial {}).run .stock (heldUnderTap ++ [.handle (.release 4 0 0 215)])).handle .stock
        (.release (Keycode.layerTap 1 4) 0 1 220)).1 = true ∧
      (((initial {}).run .stock heldUnderTap).handle .stock
        (.release (Keycode.layerTap 1 4) 0 1 220)).1 = false ∧
      ((initial {}).run .stock heldUnderTap).reported .stock
        (.handle (.release (Keycode.layerTap 1 4) 0 1 220)) = [.key ⟨4, true⟩ false] := by
  have hadmits : Board.admitsAll [] (heldUnderTap ++ [.handle (.release 4 0 0 215),
      .handle (.release (Keycode.layerTap 1 4) 0 1 220)]) = true := by decide
  obtain ⟨-, hafter⟩ := dual_role_key_left_alone {} (by decide)
    (heldUnderTap ++ [.handle (.release 4 0 0 215)]) (.release (Keycode.layerTap 1 4) 0 1 220)
    (by simp [heldUnderTap]) hadmits (by decide)
  obtain ⟨-, hduring⟩ := dual_role_key_left_alone {} (by decide) heldUnderTap
    (.release (Keycode.layerTap 1 4) 0 1 220) (by simp [heldUnderTap]) (by decide) (by decide)
  obtain ⟨hkept, hreported, -⟩ := (hduring rfl).2 (by decide)
  exact ⟨hadmits, congrArg Prod.fst ((hafter rfl).1 (by decide)), hkept, hreported⟩

/-- The release of a dual role key can be kept back, and let another key go. -/
theorem release_takes_another_key :
    ¬ ∀ (settings : Settings) (history : List Operation) (event : Transition),
      settings.has Flag.dualRole = false → (∀ image, .loadSettings image ∉ history) →
      Board.admitsAll [] (history ++ [.handle event]) = true → event.keycode.isDualRole = true →
      (((initial settings).run .stock history).handle .stock event).1 = true ∧
        (event.isDown = false →
          ((initial settings).run .stock history).reported .stock (.handle event) = [] ∧
          (((initial settings).run .stock history).handle .stock event).2.down =
            ((initial settings).run .stock history).down) := by
  intro h
  obtain ⟨hpassed, -⟩ := h {} heldUnderTap (.release (Keycode.layerTap 1 4) 0 1 220) (by decide)
    (by simp [heldUnderTap]) (by decide) (by decide)
  exact absurd hpassed (by decide)

end Shifter

end LongPress
