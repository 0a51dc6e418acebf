import Mathlib.Data.List.Chain
import LongPress.Proofs.History
import LongPress.Proofs.Sending

/-!
# LongPress.Proofs.Alternation

Every code goes down and up in turn, and `down` holds the codes whose last report was a down.

`moves c rs` reads off the reports what happens to one code.  `Tallied s c` is the invariant: the
moves of `c` alternate, and its bit in `down` is the last of them.  A key that is sent while its
code is down is let go first, and only a code that is down is let go, so each step of `Speaks` keeps
the invariant; the text of the timeout is typed past `down` and is left out.

* `moves_alternate` — the main statement, for every history that does not type the timeout.
-/

namespace LongPress

/-! ## The moves of a code -/

/-- What a report says of a code: it goes down, or up. -/
def Report.move? (c : UInt8) : Report → Option Bool
  | .key stroke isDown => if stroke.code = c then some isDown else none
  | _ => none

/-- The moves of a code, down as `true`, in their order. -/
def moves (c : UInt8) (reports : List Report) : List Bool := reports.filterMap (Report.move? c)

@[simp] theorem moves_nil (c : UInt8) : moves c [] = [] := rfl

@[simp] theorem moves_append (c : UInt8) (rs us : List Report) :
    moves c (rs ++ us) = moves c rs ++ moves c us := List.filterMap_append

theorem moves_of_not_isKey (c : UInt8) {r : Report} (h : r.isKey = false) : moves c [r] = [] := by
  cases r <;> simp_all [moves, Report.move?, Report.isKey]

theorem moves_key_of_ne {c : UInt8} {stroke : Stroke} (h : stroke.code ≠ c) (isDown : Bool) :
    moves c [.key stroke isDown] = [] := by
  simp [moves, Report.move?, h]

theorem moves_key_self (stroke : Stroke) (isDown : Bool) :
    moves stroke.code [.key stroke isDown] = [isDown] := by
  simp [moves, Report.move?]

namespace Shifter

/-! ## The invariant -/

/-- The moves of a code alternate, beginning with a down, and `down` has the last of them. -/
structure Tallied (s : Shifter) (c : UInt8) : Prop where
  alternates : (false :: moves c s.outbox).IsChain (· ≠ ·)
  last : (moves c s.outbox).getLastD false = s.down.contains c

variable {p : Policy} {s t : Shifter} {c : UInt8} {l : List Sending}

theorem tallied_initial (settings : Settings) (c : UInt8) : Tallied (initial settings) c := by
  constructor
  · exact List.isChain_singleton false
  · rw [show (initial settings).down = ∅ from rfl, CodeSet.contains_empty]
    rfl

/-- What is said of the code goes on in turn and ends with what `down` says then. -/
theorem Tallied.extend (h : Tallied s c) {ms : List Bool}
    (hm : moves c t.outbox = moves c s.outbox ++ ms)
    (hc : (s.down.contains c :: ms).IsChain (· ≠ ·))
    (hl : ms.getLastD (s.down.contains c) = t.down.contains c) : Tallied t c := by
  obtain ⟨hchain, hlast⟩ := h
  constructor
  · rw [hm, ← List.cons_append, List.isChain_append]
    refine ⟨hchain, hc.tail, ?_⟩
    intro x hx y hy
    rw [List.getLast?_cons, Option.mem_some_iff, ← List.getLastD_eq_getLast?, hlast] at hx
    cases ms with
    | nil => simp at hy
    | cons m ms =>
      rw [List.head?_cons, Option.mem_some_iff] at hy
      rw [← hx, ← hy]
      exact (List.isChain_cons_cons.mp hc).1
  · rw [hm, ← hl, ← hlast]
    simp only [List.getLastD_eq_getLast?, List.getLast?_append, Option.getD_or]

/-- Nothing is said of the code. -/
theorem Tallied.congr (h : Tallied s c) (hm : moves c t.outbox = moves c s.outbox)
    (hd : t.down.contains c = s.down.contains c) : Tallied t c :=
  h.extend (hm.trans (List.append_nil _).symm) (List.isChain_singleton _) hd.symm

/-! ## Steps -/

theorem Tallied.emit (h : Tallied s c) {r : Report} (hr : r.isKey = false) :
    Tallied (s.emit r) c := by
  refine h.congr ?_ rfl
  rw [emit_outbox, moves_append, moves_of_not_isKey c hr, List.append_nil]

/-- A code that is down is let go before it goes down once more. -/
theorem Tallied.keyDown (h : Tallied s c) (k : Keycode) (f : Bool) :
    Tallied (s.keyDown p k f) c := by
  by_cases hc : (p.stroke k f).code = c
  · subst hc
    cases hd : s.down.contains (p.stroke k f).code with
    | false =>
      have hm : moves (p.stroke k f).code (s.keyDown p k f).outbox =
          moves (p.stroke k f).code s.outbox ++ [true] := by
        rw [keyDown_outbox, hd, moves_append, moves_append, moves_key_self]
        simp
      refine h.extend hm ?_ ?_ <;> simp [keyDown_down, hd]
    | true =>
      have hm : moves (p.stroke k f).code (s.keyDown p k f).outbox =
          moves (p.stroke k f).code s.outbox ++ [false, true] := by
        rw [keyDown_outbox, hd, moves_append, moves_append, moves_key_self, if_pos rfl,
          moves_key_self, List.append_assoc]
        rfl
      refine h.extend hm ?_ ?_ <;> simp [keyDown_down, hd]
  · refine h.congr ?_ ?_
    · rw [keyDown_outbox, moves_append, moves_append, moves_key_of_ne hc]
      split <;> simp [moves_key_of_ne hc]
    · rw [keyDown_down, CodeSet.contains_add]
      simp [Ne.symm hc]

/-- Only a code that is down is let go. -/
theorem Tallied.keyUp (h : Tallied s c) (k : Keycode) : Tallied (s.keyUp p k).2 c := by
  by_cases hc : (s.strokeToRelease p k).code = c
  · subst hc
    cases hd : s.down.contains (s.strokeToRelease p k).code with
    | false => refine h.congr ?_ ?_ <;> simp [keyUp_outbox, keyUp_down, hd]
    | true =>
      have hm : moves (s.strokeToRelease p k).code (s.keyUp p k).2.outbox =
          moves (s.strokeToRelease p k).code s.outbox ++ [false] := by
        rw [keyUp_outbox, hd, moves_append, if_pos rfl, moves_key_self]
      refine h.extend hm ?_ ?_ <;> simp [keyUp_down, hd]
  · refine h.congr ?_ ?_
    · rw [keyUp_outbox, moves_append]
      split <;> simp [moves_key_of_ne hc]
    · rw [keyUp_down, CodeSet.contains_remove]
      simp [Ne.symm hc]

/-- Whoever types nothing keeps the tally. -/
theorem Speaks.tallied (h : Speaks p s l t) (hl : ∀ x ∈ l, x.isTyped = false)
    (hs : Tallied s c) : Tallied t c := by
  induction h with
  | quiet outbox down _ => exact hs.congr (by rw [outbox]) (by rw [down])
  | say s hr => exact hs.emit hr
  | keyDown s k f => exact hs.keyDown k f
  | keyUp s k => exact hs.keyUp k
  | typed s code => exact absurd (hl _ (List.mem_singleton_self _)) (by simp [Sending.isTyped])
  | trans _ _ ihs iht =>
    have hfirst := ihs (fun x hx => hl x (List.mem_append_left _ hx)) hs
    exact iht (fun x hx => hl x (List.mem_append_right _ hx)) hfirst

/-! ## Operations that type nothing -/

@[simp] theorem any_isTyped_settleSends (now : Tick) :
    (s.settleSends now).any Sending.isTyped = false := by
  unfold settleSends
  cases s.waiting <;> rfl

@[simp] theorem any_isTyped_endKeySends (k : Keycode) (now : Tick) :
    (s.endKeySends k now).any Sending.isTyped = false := by
  unfold endKeySends
  cases s.waiting with
  | none => rfl
  | some event => dsimp only; split <;> rfl

@[simp] theorem any_isTyped_resolveSends (event : Transition) (now : Tick) :
    (s.resolveSends p event now).any Sending.isTyped = false := by
  unfold resolveSends
  dsimp only
  rw [List.any_append, any_isTyped_settleSends, Bool.false_or]
  split
  · rfl
  · exact any_isTyped_settleSends now

@[simp] theorem any_isTyped_interruptSends (now : Tick) :
    (s.interruptSends p now).any Sending.isTyped = false := by
  unfold interruptSends
  cases s.tracked with
  | none => rfl
  | some event =>
    dsimp only
    split
    · rfl
    · exact any_isTyped_resolveSends event now

/-- Of all control keys only one types. -/
theorem any_isTyped_controlSends {key : ControlKey} (h : key ≠ .report) :
    (s.controlSends key).any Sending.isTyped = false := by
  cases key with
  | report => exact absurd rfl h
  | _ => rfl

theorem any_isTyped_ownSends {event : Transition}
    (h : event.keycode ≠ ControlKey.report.keycode) :
    (s.ownSends p event).any Sending.isTyped = false := by
  unfold ownSends
  cases hk : ControlKey.ofKeycode? event.keycode with
  | some key =>
    refine any_isTyped_controlSends ?_
    rintro rfl
    exact h (ControlKey.keycode_of_ofKeycode? hk).symm
  | none =>
    simp only [pressDualRoleSends, pressPlainSends]
    repeat' split
    all_goals rfl

theorem any_isTyped_sends {op : Operation} (h : op.typesTimeout = false) :
    (s.sends p op).any Sending.isTyped = false := by
  cases op with
  | handle event =>
    simp only [sends]
    split
    · next hdown =>
      have hk : event.keycode ≠ ControlKey.report.keycode := by
        intro e
        simp [Operation.typesTimeout, hdown, e] at h
      simp only [handlePressSends, List.any_append, any_isTyped_settleSends, Bool.false_or,
        any_isTyped_ownSends hk, Bool.or_false]
      split
      · rfl
      · exact any_isTyped_interruptSends event.time
    · simp only [handleReleaseSends, releaseDualRoleSends]
      repeat' split
      all_goals first | rfl | exact any_isTyped_endKeySends _ _
  | scan now =>
    simp only [sends, scanSends]
    repeat' split
    all_goals rfl
  | verdict keycode v pressTime switch now =>
    simp only [sends, verdictSends]
    repeat' split
    all_goals first | rfl | exact any_isTyped_resolveSends _ _
  | _ => rfl

/-! ## Histories -/

theorem tallied_run {history : List Operation}
    (h : ∀ op ∈ history, op.typesTimeout = false) {c : UInt8} (hs : Tallied s c) :
    Tallied (s.run p history) c := by
  induction history generalizing s with
  | nil => exact hs
  | cons op rest ih =>
    have hop := any_isTyped_sends (p := p) (s := s) (h op List.mem_cons_self)
    have hstep : Tallied (s.perform p op).2 c :=
      (speaks_perform p s op).tallied (by simpa using hop) hs
    rw [run_cons]
    exact ih (fun op' hop' => h op' (List.mem_cons_of_mem op hop')) hstep

/-- **Every code goes down and up in turn**: in the reports of any history that does not type the
timeout, the moves of a code alternate, beginning with a down, and after the history the code is in
`down` exactly when the last of its moves was a down. -/
theorem moves_alternate (p : Policy) (settings : Settings) (history : List Operation)
    (h : ∀ op ∈ history, op.typesTimeout = false) (c : UInt8) :
    (false :: moves c ((initial settings).run p history).outbox).IsChain (· ≠ ·) ∧
      ((initial settings).run p history).down.contains c =
        (moves c ((initial settings).run p history).outbox).getLastD false := by
  obtain ⟨halternates, hlast⟩ := tallied_run (p := p) h (tallied_initial settings c)
  exact ⟨halternates, hlast.symm⟩

/-- A keyboard with two keys, 4 and 5, that send one code. -/
def twinKeys : Policy where
  stroke keycode shifted := ⟨if keycode = 5 then 4 else keycode.base, shifted⟩

/-- Both keys are held past the timeout, let go one after the other, and one of them twice. -/
def overlap : List Operation :=
  [.handle (.press 4 0 0 0), .scan 200, .handle (.press 5 0 1 300), .scan 500,
    .handle (.release 4 0 0 600), .handle (.release 5 0 1 700), .handle (.release 5 0 1 800)]

theorem moves_alternate_of_twins :
    (∀ op ∈ overlap, op.typesTimeout = false) ∧
      moves 4 ((initial {}).run twinKeys overlap).outbox = [true, false, true, false] ∧
      (false :: moves 4 ((initial {}).run twinKeys overlap).outbox).IsChain (· ≠ ·) ∧
      ((initial {}).run twinKeys overlap).down.contains 4 =
        (moves 4 ((initial {}).run twinKeys overlap).outbox).getLastD false := by
  have h : ∀ op ∈ overlap, op.typesTimeout = false := by decide
  obtain ⟨halternates, hlast⟩ := moves_alternate twinKeys {} overlap h 4
  exact ⟨h, by decide, halternates, hlast⟩

end Shifter

end LongPress
