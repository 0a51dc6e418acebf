import Mathlib.Data.List.Induction
import LongPress.Proofs.Down

/-!
# LongPress.Proofs.Lasting

What is down stays down until its key moves.

`isMoveOf b` tells the operations that move the key of a base.  With the stock strokes a code is let
go with its own key only, so that whatever is done to other keys spares it (`Spares`).  The one
exception is a key that is still to be decided, which is tapped when the decision falls; hence the
hypothesis of `spares_perform`, the main result.
-/

namespace LongPress

/-! ## Moves of a key -/

/-- Whether an operation is a move of the key of a base. -/
def Operation.isMoveOf (b : UInt8) (op : Operation) : Bool := op.move?.any (·.keycode.base == b)

theorem Operation.isPressOf_of_isMoveOf {b : UInt8} {op : Operation}
    (h : op.isMoveOf b = false) : op.isPressOf b = false := by
  cases op with
  | handle event => grind [isMoveOf, isPressOf, move?, press?]
  | _ => rfl

theorem Operation.eq_of_isMoveOf {b : UInt8} {op : Operation} (h : op.isMoveOf b = true) :
    ∃ event, op = .handle event ∧ event.keycode.isControl = false ∧ event.keycode.base = b := by
  obtain ⟨event, hevent, hb⟩ := (Option.any_eq_true _ _).mp h
  obtain ⟨hop, hcontrol⟩ := eq_of_move? hevent
  exact ⟨event, hop, hcontrol, beq_iff_eq.mp hb⟩

namespace Keys

variable {K : Keys} {b : UInt8} {press : Transition}

/-- The key of a base stays as it is until it moves. -/
theorem perform_of_isMoveOf {op : Operation} (h : op.isMoveOf b = false) :
    K.perform op b = K b := by
  unfold perform
  cases hmove : op.move? with
  | none => rfl
  | some event =>
    have hne : b ≠ event.keycode.base := by
      rintro rfl
      simp [Operation.isMoveOf, hmove] at h
    exact move_of_ne K hne

/-- A key that is down was pressed, and has not moved since. -/
theorem exists_press {history : List Operation} (hK : up.run history b = some press) :
    ∃ before between, history = before ++ .handle press :: between ∧ press.isDown = true ∧
      press.keycode.isControl = false ∧ press.keycode.base = b ∧
      ∀ op ∈ between, op.isMoveOf b = false := by
  -- From the end: the last operation is the press, or the press has come before it.
  induction history using List.reverseRecOn with
  | nil => cases hK
  | append_singleton history op ih =>
    have hrun : up.run (history ++ [op]) = (up.run history).perform op := by
      rw [run_append]
      rfl
    rw [hrun] at hK
    cases hop : op.isMoveOf b with
    | false =>
      rw [perform_of_isMoveOf hop] at hK
      obtain ⟨before, between, rfl, hdown, hcontrol, hb, hbetween⟩ := ih hK
      refine ⟨before, between ++ [op], by simp, hdown, hcontrol, hb, fun op' hmem => ?_⟩
      cases List.mem_append.mp hmem with
      | inl hmem => exact hbetween op' hmem
      | inr hmem => rwa [List.mem_singleton.mp hmem]
    | true =>
      obtain ⟨event, rfl, hcontrol, rfl⟩ := Operation.eq_of_isMoveOf hop
      rw [perform_handle hcontrol] at hK
      cases hdown : event.isDown with
      | false =>
        rw [move_release _ hdown] at hK
        cases hK
      | true =>
        cases (move_press _ hdown).symm.trans hK
        exact ⟨history, [], rfl, hdown, hcontrol, rfl, nofun⟩

/-- Each key is kept under its base. -/
theorem base_of_perform (h : ∀ {b : UInt8} {e : Transition}, K b = some e → e.keycode.base = b)
    {op : Operation} (hK : K.perform op b = some press) : press.keycode.base = b := by
  cases hop : op.isMoveOf b with
  | false => exact h ((perform_of_isMoveOf hop).symm.trans hK)
  | true =>
    obtain ⟨event, rfl, hcontrol, rfl⟩ := Operation.eq_of_isMoveOf hop
    rw [perform_handle hcontrol, move, Function.update_self] at hK
    split at hK
    · cases hK
      rfl
    · cases hK

end Keys

namespace Shifter

variable {p : Policy} {s t u : Shifter} {l : List Sending} {event : Transition} {op : Operation}
  {b : UInt8}

/-! ## Codes that stay down -/

/-- With the stock strokes a key sends its base. -/
theorem code_of_stock (hstroke : p.stroke = Policy.stock.stroke) (k : Keycode) (f : Bool) :
    (p.stroke k f).code = k.base := by
  rw [hstroke]
  rfl

/-- What is down stays down from `s` to `t`. -/
def Spares (b : UInt8) (s t : Shifter) : Prop :=
  s.down.contains b = true → t.down.contains b = true

theorem Spares.of_eq (h : t.down = s.down) : Spares b s t := fun hb => h ▸ hb

theorem Spares.trans (h : Spares b s t) (h' : Spares b t u) : Spares b s u := h' ∘ h

theorem spares_keyDown (p : Policy) (s : Shifter) (k : Keycode) (f : Bool) :
    Spares b s (s.keyDown p k f) := by
  intro hb
  rw [contains_keyDown, hb, Bool.or_true]

theorem spares_repeatLast (p : Policy) (s : Shifter) : Spares b s (s.repeatLast p) :=
  (Spares.of_eq (down_suppressShift s)).trans (spares_keyDown p _ _ _)

section

variable (hstroke : p.stroke = Policy.stock.stroke)

include hstroke

theorem spares_keyUp {k : Keycode} (hk : k.base ≠ b) (s : Shifter) :
    Spares b s (s.keyUp p k).2 := by
  intro hb
  have hne : b ≠ (s.strokeToRelease p k).code := by
    rw [strokeToRelease, code_of_stock hstroke]
    exact hk.symm
  rw [contains_keyUp, hb, decide_eq_false hne]
  rfl

theorem spares_decideKey (hk : event.keycode.base ≠ b) (now : Tick) (byScan : Bool) (s : Shifter) :
    Spares b s (s.decideKey p event now byScan) := by
  have hsent : Spares b s (s.sendDecided p event now) := by
    intro hb
    rw [(sendDecided_eq p event now s).1, hb, Bool.or_true]
  rw [decideKey_eq]
  split
  · exact hsent
  · have hpaused := hsent.trans (.of_eq (down_pause _))
    exact (hpaused.trans (spares_keyUp hstroke hk _)).trans (.of_eq (down_restoreShift _))

theorem spares_settle (hw : ∀ w, s.waiting = some w → w.keycode.base ≠ b) (now : Tick)
    (byScan : Bool) : Spares b s (s.settle p now byScan) := by
  unfold settle
  split
  · next w hwaiting => exact spares_decideKey hstroke (hw w hwaiting) now byScan s
  · exact id

theorem spares_letGo {k : Keycode} (hk : k.base ≠ b) (now : Tick) (s : Shifter) :
    Spares b s (s.letGo p k now).2 := by
  have hup := spares_keyUp hstroke hk s
  unfold letGo
  dsimp only
  split
  · exact hup.trans (.of_eq (down_restoreShift _))
  · exact hup

theorem spares_endKey {k : Keycode} (hk : k.base ≠ b) (now : Tick) (s : Shifter) :
    Spares b s (s.endKey p k now).2 := by
  unfold endKey
  split
  · next w _ =>
    split
    · next hw => exact spares_decideKey hstroke (hw ▸ hk) now false s
    · exact spares_letGo hstroke hk now s
  · exact spares_letGo hstroke hk now s

theorem spares_resolve (hk : event.keycode.base ≠ b)
    (hw : ∀ w, s.waiting = some w → w.keycode.base ≠ b) (now : Tick) :
    Spares b s (s.resolve p event now) := by
  have hsettled := spares_settle hstroke hw now false
  unfold resolve
  dsimp only
  generalize s.settle p now false = settled at hsettled ⊢
  refine hsettled.trans ?_
  split
  · have hdown : Spares b settled
        ({ settled with last := Keycode.noKey }.keyDown p event.keycode false) :=
      fun hb => spares_keyDown p { settled with last := Keycode.noKey } event.keycode false hb
    exact hdown.trans (spares_keyUp hstroke hk _)
  · have hbegun : ∀ w, (settled.begin event).waiting = some w → w.keycode.base ≠ b := by
      intro w hwaiting
      rw [(agrees_begin event settled).waiting] at hwaiting
      cases hwaiting
      exact hk
    exact (Spares.of_eq (down_begin event settled)).trans
      (spares_settle hstroke hbegun now false)

theorem InterruptOutcome.spares {now : Tick} (o : InterruptOutcome p now s l t)
    (hnot : ¬ Undecided b s) : Spares b s t := by
  cases o with
  | nothing => exact id
  | holds => exact id
  | @types e tracked =>
    have hk : e.keycode.base ≠ b := fun hb => hnot ⟨e, .inr tracked, hb⟩
    have hw : ∀ w, (s.marked e).waiting = some w → w.keycode.base ≠ b :=
      fun w hwaiting hb => hnot ⟨w, .inl hwaiting, hb⟩
    exact fun hb => spares_resolve hstroke hk hw now hb

theorem spares_clearedFor (event : Transition) (hnot : ¬ Undecided b s) :
    Spares b s (s.clearedFor p event) := by
  have hsettled : Spares b s (s.settle p event.time false) :=
    spares_settle hstroke (fun w hw hb => hnot ⟨w, .inl hw, hb⟩) event.time false
  have hstill : ¬ Undecided b (s.settle p event.time false) := by
    have ha := agrees_settle p event.time false s
    rintro ⟨x, hx, hb⟩
    rw [ha.waiting, ha.tracked] at hx
    exact hnot ⟨x, .inr (hx.resolve_left nofun), hb⟩
  unfold clearedFor
  dsimp only
  split
  · exact hsettled
  · exact hsettled.trans ((interruptOutcome p event.time _).spares hstroke hstill)

end

theorem PressOutcome.spares {r : Bool × Shifter} (o : PressOutcome p event s l r) :
    Spares b s r.2 := by
  cases o with
  | leaves => exact id
  | repeatsDual => exact spares_repeatLast p s
  | tracks => exact id
  | ignores => exact id
  | passes => exact id
  | bypasses => exact fun hb => spares_keyDown p (s.forgotten event) event.keycode false hb
  | repeats => exact fun hb => spares_repeatLast p (s.noteModifier event.keycode true) hb
  | begins => exact .of_eq (down_begin event (s.noteModifier event.keycode true))

theorem ReleaseOutcome.spares (hstroke : p.stroke = Policy.stock.stroke) {r : Bool × Shifter}
    (o : ReleaseOutcome p event s l r) (hb : event.keycode.base ≠ b) : Spares b s r.2 := by
  cases o with
  | tapped => exact id
  | held => exact id
  | endsDual =>
    have huntracked : Spares b s ((s.dropped event).untracked event) :=
      .of_eq (down_untracked event (s.dropped event))
    exact huntracked.trans (spares_endKey hstroke hb event.time _)
  | ends => exact fun hc => spares_endKey hstroke hb event.time (s.unpassed event) hc
  | ignores => exact id

/-- A code stays down until its key moves, unless it is still to be decided. -/
theorem spares_perform (hstroke : p.stroke = Policy.stock.stroke) (hop : op.isMoveOf b = false)
    (hnot : ¬ Undecided b s) : Spares b s (s.perform p op).2 := by
  cases op with
  | handle event =>
    simp only [perform, handle]
    split
    · rw [handlePress_eq]
      refine (spares_clearedFor hstroke event hnot).trans ?_
      cases hcontrol : event.keycode.isControl with
      | true =>
        obtain ⟨key, hkey, -⟩ := pressOwn_control p (s.clearedFor p event) hcontrol
        rw [hkey]
        exact .of_eq (down_control key _)
      | false => exact (pressOutcome p _ hcontrol).spares
    · cases hcontrol : event.keycode.isControl with
      | true =>
        rw [(handleRelease_control p s hcontrol).1]
        exact id
      | false =>
        refine (releaseOutcome p s hcontrol).spares hstroke ?_
        simpa [Operation.isMoveOf, Operation.move?, hcontrol] using hop
  | scan now =>
    have hw : ∀ w, s.waiting = some w → w.keycode.base ≠ b :=
      fun w hwaiting hb => hnot ⟨w, .inl hwaiting, hb⟩
    refine scan_keeps id (fun w hwaits => ?_) fun t e hkept _ => hkept.trans (.of_eq rfl)
    exact spares_decideKey hstroke (hw w hwaits) now true s
  | verdict keycode v pressTime switch now =>
    simp only [perform, verdict]
    cases hx : s.trackedAs? keycode switch with
    | none => exact id
    | some x =>
      cases v with
      | tap => exact id
      | hold =>
        have hk : (x.pressedAt pressTime).keycode.base ≠ b :=
          fun hb => hnot ⟨x, .inr (Option.filter_eq_some_iff.mp hx).1, hb⟩
        have hw : ∀ w, s.stopTracking.waiting = some w → w.keycode.base ≠ b :=
          fun w hwaiting hb => hnot ⟨w, .inl hwaiting, hb⟩
        exact fun hb => spares_resolve hstroke hk hw now hb
  | enable => exact .of_eq (down_control .on s)
  | disable => exact .of_eq (down_control .off s)
  | toggle => exact .of_eq (down_control .toggle s)
  | _ => exact id

end Shifter

end LongPress
