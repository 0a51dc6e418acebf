import LongPress.Proofs.Once

/-!
# LongPress.Proofs.Down

A code is down only on behalf of a key that is down.

A tap leaves no code behind that was not there before, so a code can only stay down when a key is
sent by its own press or by a scan (`down_perform`).  The end of a key takes out the code of the
form kept for it (`gone_endKey`), whichever other keys send that code too.  Hence every code that is
down is that of the one form of a key which is down and which no interruption has settled
(`Carried`).
-/

namespace LongPress.Shifter

open Sending (forms)

variable {p : Policy} {K : Keys} {s t : Shifter} {l : List Sending} {event : Transition}
  {b c : UInt8}

/-! ## Codes that go down and up -/

theorem down_suppressShift (s : Shifter) : s.suppressShift.down = s.down := by
  unfold suppressShift; dsimp only; split <;> rfl

theorem down_restoreShift (s : Shifter) : s.restoreShift.down = s.down := by
  unfold restoreShift; dsimp only; split <;> rfl

theorem shifted_restoreShift (s : Shifter) : s.restoreShift.shifted = s.shifted := by
  unfold restoreShift; dsimp only; split <;> rfl

theorem down_pause (s : Shifter) : s.pause.down = s.down := by
  unfold pause; split <;> rfl

theorem shifted_pause (s : Shifter) : s.pause.shifted = s.shifted := by
  unfold pause; split <;> rfl

theorem down_begin (event : Transition) (s : Shifter) : (s.begin event).down = s.down := by
  unfold begin; dsimp only; split <;> rfl

theorem contains_keyDown (p : Policy) (s : Shifter) (k : Keycode) (f : Bool) :
    (s.keyDown p k f).down.contains c =
      (decide (c = (p.stroke k f).code) || s.down.contains c) := by
  rw [keyDown_down, CodeSet.contains_add]

theorem contains_keyUp (p : Policy) (s : Shifter) (k : Keycode) :
    (s.keyUp p k).2.down.contains c =
      (!decide (c = (s.strokeToRelease p k).code) && s.down.contains c) := by
  rw [keyUp_down, CodeSet.contains_remove]

/-- A key that has just gone down is let go in that form. -/
theorem strokeToRelease_keyDown (p : Policy) (s : Shifter) (k : Keycode) (f : Bool) :
    (s.keyDown p k f).strokeToRelease p k = p.stroke k f := by
  rw [strokeToRelease, keyDown_shifted, CodeSet.contains_put, if_pos rfl]

/-- The code of the form that is kept for a key is up once the key is let go. -/
theorem gone_keyUp (p : Policy) (s : Shifter) (k : Keycode) :
    (s.keyUp p k).2.down.contains (p.stroke k ((s.keyUp p k).2.shifted.contains k.base)).code =
      false := by
  rw [contains_keyUp, keyUp_shifted, strokeToRelease]
  simp

/-! ## Decisions -/

theorem sendDecided_eq (p : Policy) (event : Transition) (now : Tick) (s : Shifter) :
    (s.sendDecided p event now).down.contains c =
        (decide (c = (p.stroke event.keycode (s.formAt event now)).code) || s.down.contains c) ∧
      (s.sendDecided p event now).strokeToRelease p event.keycode =
        p.stroke event.keycode (s.formAt event now) := by
  unfold sendDecided
  dsimp only
  refine ⟨?_, strokeToRelease_keyDown p _ event.keycode _⟩
  rw [contains_keyDown, down_suppressShift]

/-- A decision puts down at most its own code, and that only if the key stays down. -/
theorem down_decideKey {now : Tick} {byScan : Bool}
    (h : (s.decideKey p event now byScan).down.contains c = true) :
    s.down.contains c = true ∨
      byScan = true ∧ c = (p.stroke event.keycode (s.formAt event now)).code := by
  obtain ⟨hdown, hstroke⟩ := sendDecided_eq (c := c) p event now s
  rw [decideKey_eq] at h
  split at h
  · next hkeeps =>
    replace h : (s.sendDecided p event now).down.contains c = true := h
    rw [hdown, Bool.or_eq_true, decide_eq_true_eq] at h
    simp only [keepsDown, Bool.and_eq_true] at hkeeps
    exact h.symm.imp_right fun hc => ⟨hkeeps.1.1, hc⟩
  · replace h :
        ((s.sendDecided p event now).pause.keyUp p event.keycode).2.restoreShift.down.contains c =
          true := h
    have hpause : (s.sendDecided p event now).pause.strokeToRelease p event.keycode =
        p.stroke event.keycode (s.formAt event now) := by
      rw [← hstroke, strokeToRelease, shifted_pause]
      rfl
    rw [down_restoreShift, contains_keyUp, down_pause, hdown, hpause] at h
    left
    simp only [Bool.and_eq_true, Bool.not_eq_true', decide_eq_false_iff_not, Bool.or_eq_true,
      decide_eq_true_eq] at h
    exact h.2.resolve_left h.1

theorem gone_decideKey (p : Policy) (event : Transition) (now : Tick) (s : Shifter) :
    (s.decideKey p event now false).down.contains (p.stroke event.keycode
      ((s.decideKey p event now false).shifted.contains event.keycode.base)).code = false := by
  have hgone := gone_keyUp p (s.sendDecided p event now).pause event.keycode
  have heq : s.decideKey p event now false =
      { ((s.sendDecided p event now).pause.keyUp p event.keycode).2.restoreShift with
        since := now } := rfl
  rw [heq]
  dsimp only
  rwa [down_restoreShift, shifted_restoreShift]

theorem down_settle {now : Tick} (h : (s.settle p now false).down.contains c = true) :
    s.down.contains c = true := by
  unfold settle at h
  split at h
  · exact (down_decideKey h).resolve_right (by simp)
  · exact h

theorem down_letGo {k : Keycode} {now : Tick} (h : (s.letGo p k now).2.down.contains c = true) :
    s.down.contains c = true := by
  have hup : (s.letGo p k now).2.down = (s.keyUp p k).2.down := by
    unfold letGo
    dsimp only
    split
    · exact down_restoreShift _
    · rfl
  rw [hup, contains_keyUp, Bool.and_eq_true] at h
  exact h.2

theorem gone_letGo (p : Policy) (k : Keycode) (now : Tick) (s : Shifter) :
    (s.letGo p k now).2.down.contains
      (p.stroke k ((s.letGo p k now).2.shifted.contains k.base)).code = false := by
  have hgone := gone_keyUp p s k
  unfold letGo
  dsimp only
  split
  · rwa [down_restoreShift, shifted_restoreShift]
  · exact hgone

theorem down_endKey {k : Keycode} {now : Tick} (h : (s.endKey p k now).2.down.contains c = true) :
    s.down.contains c = true := by
  unfold endKey at h
  split at h
  · split at h
    · exact (down_decideKey h).resolve_right (by simp)
    · exact down_letGo h
  · exact down_letGo h

/-- The end of a key takes out the code of its form. -/
theorem gone_endKey (p : Policy) (k : Keycode) (now : Tick) (s : Shifter) :
    (s.endKey p k now).2.down.contains
      (p.stroke k ((s.endKey p k now).2.shifted.contains k.base)).code = false := by
  unfold endKey
  split
  · next w _ =>
    split
    · next hk =>
      subst hk
      exact gone_decideKey p w now s
    · exact gone_letGo p k now s
  · exact gone_letGo p k now s

theorem down_resolve {now : Tick} (h : (s.resolve p event now).down.contains c = true) :
    s.down.contains c = true := by
  unfold resolve at h
  dsimp only at h
  suffices hs : (s.settle p now false).down.contains c = true from down_settle hs
  generalize s.settle p now false = settled at h ⊢
  split at h
  · rw [contains_keyUp, strokeToRelease_keyDown, contains_keyDown] at h
    simp only [Bool.and_eq_true, Bool.not_eq_true', decide_eq_false_iff_not, Bool.or_eq_true,
      decide_eq_true_eq] at h
    exact h.2.resolve_left h.1
  · rw [← down_begin event settled]
    exact down_settle h

theorem InterruptOutcome.down {now : Tick} (o : InterruptOutcome p now s l t)
    (h : t.down.contains c = true) : s.down.contains c = true := by
  cases o with
  | nothing => exact h
  | holds => exact h
  | types =>
    have hresolved := down_resolve h
    exact hresolved

/-! ## Operations -/

theorem down_clearedFor (h : (s.clearedFor p event).down.contains c = true) :
    s.down.contains c = true := by
  unfold clearedFor at h
  dsimp only at h
  split at h
  · exact down_settle h
  · exact down_settle ((interruptOutcome p event.time _).down h)

theorem down_typeText (text : List Char) (s : Shifter) : (s.typeText text).down = s.down := by
  unfold typeText
  induction text.filterMap keyOfChar? generalizing s with
  | nil => rfl
  | cons k ks ih => exact ih _

theorem down_control (key : ControlKey) (s : Shifter) : (s.control key).down = s.down := by
  cases key with
  | report => exact down_typeText _ s
  | on => exact down_restoreShift _
  | off => exact down_restoreShift _
  | toggle =>
    show s.toggle.down = s.down
    unfold toggle
    split <;> exact down_restoreShift _
  | _ => rfl

/-- A press puts down at most the code of the form that it sends of its own key. -/
theorem PressOutcome.down {r : Bool × Shifter} (o : PressOutcome p event s l r)
    (h : r.2.down.contains c = true) :
    s.down.contains c = true ∨
      (∃ f, .key event.keycode f ∈ l ∧ c = (p.stroke event.keycode f).code) ∧
        (event.keycode.isDualRole = true ∨ s.hasForms p event.keycode = true) := by
  have hrepeat : ∀ t : Shifter, t.down = s.down → t.last = event.keycode →
      t.lastShifted = s.lastShifted → (t.repeatLast p).down.contains c = true →
        s.down.contains c = true ∨ c = (p.stroke event.keycode s.lastShifted).code := by
    intro t htdown hlast hform ht
    have ha := agrees_suppressShift t
    unfold repeatLast at ht
    dsimp only at ht
    rw [contains_keyDown, down_suppressShift, ha.last, ha.lastShifted, htdown, hlast, hform,
      Bool.or_eq_true, decide_eq_true_eq] at ht
    exact ht.symm
  cases o with
  | leaves => exact .inl h
  | repeatsDual dual again =>
    refine (hrepeat s rfl (last_of_isRepeat again) rfl h).imp_right fun hc => ?_
    exact ⟨⟨_, List.mem_singleton_self _, hc⟩, .inl dual⟩
  | tracks => exact .inl h
  | ignores => exact .inl h
  | passes => exact .inl h
  | bypasses _ forms =>
    rw [contains_keyDown, Bool.or_eq_true, decide_eq_true_eq] at h
    refine h.symm.imp_right fun hc => ?_
    exact ⟨⟨_, List.mem_singleton_self _, hc⟩, .inr forms⟩
  | repeats _ forms _ again =>
    have hlast := last_of_isRepeat again
    refine (hrepeat (s.noteModifier event.keycode true) rfl hlast rfl h).imp_right fun hc => ?_
    exact ⟨⟨_, List.mem_singleton_self _, hc⟩, .inr forms⟩
  | begins =>
    rw [down_begin] at h
    exact .inl h

theorem down_untracked (event : Transition) (s : Shifter) :
    (s.untracked event).down = s.down := by
  rw [untracked_eq]

theorem ReleaseOutcome.down {r : Bool × Shifter} (o : ReleaseOutcome p event s l r)
    (h : r.2.down.contains c = true) : s.down.contains c = true := by
  cases o with
  | tapped => exact h
  | held => exact h
  | endsDual =>
    have hu := down_endKey h
    rwa [down_untracked] at hu
  | ends =>
    have hu := down_endKey h
    exact hu
  | ignores => exact h

theorem down_scan {now : Tick} (h : (s.scan p now).down.contains c = true) :
    s.down.contains c = true ∨ ∃ w f, s.waiting = some w ∧ .key w.keycode f ∈ s.scanSends now ∧
      c = (p.stroke w.keycode f).code := by
  have hwaiting : (s.scanWaiting p now).down.contains c = true := by
    unfold scan at h
    cases scanTracked_cases now (s.scanWaiting p now) with
    | inl hscan => rwa [hscan] at h
    | inr hcase =>
      obtain ⟨e, -, hscan⟩ := hcase
      rw [hscan] at h
      exact h
  cases scanWaiting_cases p now s with
  | inl hcase =>
    obtain ⟨hscan, -⟩ := hcase
    rw [hscan] at hwaiting
    exact .inl hwaiting
  | inr hcase =>
    obtain ⟨w, hw, hscan, hsends⟩ := hcase
    rw [hscan] at hwaiting
    refine (down_decideKey hwaiting).imp_right fun hc => ?_
    rw [hsends]
    exact ⟨w, _, hw, List.mem_singleton_self _, hc.2⟩

theorem down_verdict {k : Keycode} {v : Verdict} {pressTime : Tick} {switch : Switch} {now : Tick}
    (h : (s.verdict p k v pressTime switch now).2.down.contains c = true) :
    s.down.contains c = true := by
  unfold verdict at h
  split at h
  · exact h
  · cases v with
    | tap => exact h
    | hold =>
      have hresolved := down_resolve h
      exact hresolved

end LongPress.Shifter
