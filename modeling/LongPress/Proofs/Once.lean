import LongPress.Proofs.Ownership

/-!
# LongPress.Proofs.Once

A key is sent at most once for each of its presses.

A key is undecided while it waits or is tracked.  Apart from a key's own press, an operation sends a
key only by deciding it, and then it is undecided no more (`decides_perform`).  So `formsSince`, the
forms a key was sent in since it went down, is never longer than one; and that one form is the form
kept for the release (`Formed`).
-/

namespace LongPress.Shifter

open Sending (forms)

variable {p : Policy} {K : Keys} {s t u : Shifter} {l m : List Sending} {event : Transition}
  {b : UInt8}

/-! ## Deciding -/

/-- Whether a key of a base waits or is tracked. -/
def Undecided (b : UInt8) (s : Shifter) : Prop :=
  ∃ e, (s.waiting = some e ∨ s.tracked = some e) ∧ e.keycode.base = b

/-- From `s` to `t` nothing of a base is sent, and nothing of it is undecided anew; or else its
undecided key is sent, and decided by that. -/
def Decides (b : UInt8) (s : Shifter) (l : List Sending) (t : Shifter) : Prop :=
  (forms b l = [] ∧ (Undecided b t → Undecided b s)) ∨
    (∃ f, forms b l = [f]) ∧ Undecided b s ∧ ¬ Undecided b t

theorem Decides.trans (h : Decides b s l t) (h' : Decides b t m u) : Decides b s (l ++ m) u := by
  unfold Decides at *
  rw [Sending.forms_append]
  cases h with
  | inl hcase =>
    obtain ⟨hl, hback⟩ := hcase
    cases h' with
    | inl hcase =>
      obtain ⟨hm, hback'⟩ := hcase
      exact .inl ⟨by rw [hl, hm, List.append_nil], fun hu => hback (hback' hu)⟩
    | inr hcase =>
      obtain ⟨⟨g, hm⟩, ht, hu⟩ := hcase
      exact .inr ⟨⟨g, by rw [hl, hm, List.nil_append]⟩, hback ht, hu⟩
  | inr hcase =>
    obtain ⟨⟨f, hl⟩, hs, ht⟩ := hcase
    cases h' with
    | inl hcase =>
      obtain ⟨hm, hback'⟩ := hcase
      exact .inr ⟨⟨f, by rw [hl, hm, List.append_nil]⟩, hs, fun hu => ht (hback' hu)⟩
    | inr hcase =>
      obtain ⟨-, ht', -⟩ := hcase
      exact absurd ht' ht

/-- Nothing of the base is sent, and the slots hold nothing new of it. -/
theorem Decides.quiet (hl : forms b l = [])
    (waiting : ∀ e, e.keycode.base = b → t.waiting = some e → s.waiting = some e)
    (tracked : ∀ e, e.keycode.base = b → t.tracked = some e → s.tracked = some e) :
    Decides b s l t := by
  refine .inl ⟨hl, ?_⟩
  rintro ⟨e, he, hb⟩
  exact ⟨e, he.imp (waiting e hb) (tracked e hb), hb⟩

/-- Nothing of the base is sent, and the slots stay. -/
theorem Decides.same (hl : forms b l = []) (waiting : t.waiting = s.waiting)
    (tracked : t.tracked = s.tracked) : Decides b s l t :=
  .quiet hl (fun _ _ he => waiting ▸ he) fun _ _ he => tracked ▸ he

theorem Decides.refl : Decides b s [] s := .same rfl rfl rfl

theorem Agrees.undecided (ha : Agrees s t) (h : Undecided b t) : Undecided b s := by
  obtain ⟨e, he, hb⟩ := h
  rw [ha.waiting, ha.tracked] at he
  exact ⟨e, he, hb⟩

theorem Decides.agrees (hl : forms b l = []) (ha : Agrees s t) : Decides b s l t :=
  .inl ⟨hl, ha.undecided⟩

/-- One key with its form, of whatever base. -/
theorem forms_key (b : UInt8) (k : Keycode) (f : Bool) :
    forms b [.key k f] = if k.base = b then [f] else [] := by
  split
  · next hb => rw [← hb, Sending.forms_key_self]
  · next hb => exact Sending.forms_key_of_ne hb f

theorem decides_decideKey (h : Owned p K s) {w : Transition} (hw : s.waiting = some w) (now : Tick)
    (byScan : Bool) :
    Decides b s [.key w.keycode (s.formAt w now)] (s.decideKey p w now byScan) := by
  have ha := agrees_decideKey p w now byScan s
  unfold Decides
  rw [forms_key]
  split
  · next hb =>
    refine .inr ⟨⟨_, rfl⟩, ⟨w, .inl hw, hb⟩, ?_⟩
    rintro ⟨e, he, hb'⟩
    rw [ha.waiting, ha.tracked] at he
    cases he with
    | inl he => cases he
    | inr he => exact h.base_ne hw he (hb.trans hb'.symm)
  · refine .inl ⟨rfl, ?_⟩
    rintro ⟨e, he, hb'⟩
    rw [ha.waiting, ha.tracked] at he
    cases he with
    | inl he => cases he
    | inr he => exact ⟨e, .inr he, hb'⟩

theorem decides_settle (h : Owned p K s) (now : Tick) (byScan : Bool) :
    Decides b s (s.settleSends now) (s.settle p now byScan) := by
  unfold settle settleSends
  cases hw : s.waiting with
  | none => exact .refl
  | some w => exact decides_decideKey h hw now byScan

theorem decides_letGo (keycode : Keycode) (now : Tick) (s : Shifter) :
    Decides b s [] (s.letGo p keycode now).2 := .agrees rfl (agrees_letGo p keycode now s)

theorem decides_endKey (h : Owned p K s) (keycode : Keycode) (now : Tick) :
    Decides b s (s.endKeySends keycode now) (s.endKey p keycode now).2 := by
  unfold endKey endKeySends
  cases hw : s.waiting with
  | none => exact decides_letGo keycode now s
  | some w =>
    dsimp only
    split
    · exact decides_decideKey h hw now false
    · exact decides_letGo keycode now s

/-! ## Tracked keys -/

/-- A tracked key is sent once, after whatever waits. -/
theorem resolveSends_eq (p : Policy) (event : Transition) (now : Tick) (s : Shifter) :
    ∃ f, s.resolveSends p event now = s.settleSends now ++ [.key event.keycode f] := by
  unfold resolveSends
  dsimp only
  split
  · exact ⟨false, rfl⟩
  · generalize s.settle p now false = settled
    refine ⟨(settled.begin event).formAt event now, ?_⟩
    rw [settleSends.eq_def now (settled.begin event), (agrees_begin event settled).waiting]

/-- The tracked key is decided by being sent, though it is tracked no more by then. -/
theorem decides_resolve (h : Owned p K s) {e : Transition} (he : s.tracked = some e)
    (hkey : event.keycode = e.keycode) (waiting : t.waiting = s.waiting)
    (tracked : t.tracked = none) (now : Tick) :
    Decides b s (t.resolveSends p event now) (t.resolve p event now) := by
  have ha := agrees_resolve p event now t
  have hnot : ¬ Undecided b (t.resolve p event now) := by
    rintro ⟨x, hx, -⟩
    rw [ha.waiting, ha.tracked, tracked] at hx
    rcases hx with hx | hx <;> cases hx
  obtain ⟨f, hf⟩ := resolveSends_eq p event now t
  have hsettle : forms b (t.settleSends now) = [] ∨
      (∃ g, forms b (t.settleSends now) = [g]) ∧ ∃ w, s.waiting = some w ∧ w.keycode.base = b := by
    unfold settleSends
    rw [waiting]
    cases hw : s.waiting with
    | none => exact .inl rfl
    | some w =>
      dsimp only
      rw [forms_key]
      split
      · next hb => exact .inr ⟨⟨_, rfl⟩, w, rfl, hb⟩
      · exact .inl rfl
  unfold Decides
  rw [hf, Sending.forms_append, forms_key, hkey]
  split
  · next hb =>
    cases hsettle with
    | inl hnone => exact .inr ⟨⟨f, by rw [hnone, List.nil_append]⟩, ⟨e, .inr he, hb⟩, hnot⟩
    | inr hcase =>
      obtain ⟨-, w, hw, hb'⟩ := hcase
      exact absurd (hb'.trans hb.symm) (h.base_ne hw he)
  · rw [List.append_nil]
    cases hsettle with
    | inl hnone => exact .inl ⟨hnone, fun hu => absurd hu hnot⟩
    | inr hcase =>
      obtain ⟨hone, w, hw, hb'⟩ := hcase
      exact .inr ⟨hone, ⟨w, .inl hw, hb'⟩, hnot⟩

theorem InterruptOutcome.decides (h : Owned p K s) {now : Tick}
    (o : InterruptOutcome p now s l t) : Decides b s l t := by
  cases o with
  | nothing => exact .refl
  | holds => exact .quiet rfl (fun _ _ => id) nofun
  | @types e tracked =>
    have hwaiting : (s.marked e).waiting = s.waiting := rfl
    exact decides_resolve h tracked rfl hwaiting rfl now

/-! ## Presses -/

theorem decides_clearedFor (h : Owned p K s) (event : Transition) :
    Decides b s
      (s.settleSends event.time ++
        if (s.settle p event.time false).isTrackingAt event.switch then []
        else (s.settle p event.time false).interruptSends p event.time)
      (s.clearedFor p event) := by
  unfold clearedFor
  dsimp only
  refine (decides_settle h event.time false).trans ?_
  split
  · exact .refl
  · exact (interruptOutcome p event.time _).decides (h.settle event.time false)

/-- A press sends no key of another base for its own sake. -/
theorem PressOutcome.decides {r : Bool × Shifter} (o : PressOutcome p event s l r)
    (hb : event.keycode.base ≠ b) : Decides b s l r.2 := by
  have hnoted := agrees_noteModifier event.keycode true s
  cases o with
  | leaves => exact .refl
  | repeatsDual => exact .agrees (Sending.forms_key_of_ne hb _) (agrees_repeatLast p s)
  | tracks =>
    refine .quiet rfl (fun _ _ => id) fun e he ht => ?_
    cases ht
    exact absurd he hb
  | ignores => exact .same rfl rfl rfl
  | passes => exact .same rfl rfl rfl
  | bypasses =>
    have ha := agrees_keyDown p (s.forgotten event) event.keycode false
    exact .same (Sending.forms_key_of_ne hb _) ha.waiting ha.tracked
  | repeats =>
    exact .agrees (Sending.forms_key_of_ne hb _) (hnoted.trans (agrees_repeatLast p _))
  | begins =>
    have ha := agrees_begin event (s.noteModifier event.keycode true)
    refine .quiet rfl (fun e he hw => ?_) fun _ _ he => ha.tracked ▸ he
    rw [ha.waiting] at hw
    cases hw
    exact absurd he hb

/-- A press that sends its own key leaves it decided. -/
theorem PressOutcome.sends_own {r : Bool × Shifter} (o : PressOutcome p event s l r)
    (hnot : ¬ Undecided event.keycode.base s) :
    forms event.keycode.base l = [] ∨
      (∃ f, forms event.keycode.base l = [f]) ∧ ¬ Undecided event.keycode.base r.2 := by
  have hnoted := agrees_noteModifier event.keycode true s
  cases o with
  | leaves => exact .inl rfl
  | repeatsDual =>
    exact .inr ⟨⟨_, Sending.forms_key_self _ _⟩, hnot ∘ (agrees_repeatLast p s).undecided⟩
  | tracks => exact .inl rfl
  | ignores => exact .inl rfl
  | passes => exact .inl rfl
  | bypasses =>
    have ha := agrees_keyDown p (s.forgotten event) event.keycode false
    exact .inr ⟨⟨_, Sending.forms_key_self _ _⟩, fun hu => hnot (ha.undecided hu)⟩
  | repeats =>
    have ha := hnoted.trans (agrees_repeatLast p (s.noteModifier event.keycode true))
    exact .inr ⟨⟨_, Sending.forms_key_self _ _⟩, hnot ∘ ha.undecided⟩
  | begins => exact .inl rfl

theorem decides_control (key : ControlKey) (s : Shifter) :
    Decides b s (s.controlSends key) (s.control key) := by
  have ha := agrees_control key s
  refine .same ?_ ha.waiting ha.tracked
  cases key with
  | report =>
    have htyped := Sending.forms_typed b ((s.timeoutText.filterMap keyOfChar?).map Keycode.base)
    rwa [List.map_map] at htyped
  | _ => rfl

theorem decides_handlePress (h : Owned p K s)
    (hb : event.keycode.isControl = true ∨ event.keycode.base ≠ b) :
    Decides b s (s.handlePressSends p event) (s.handlePress p event).2 := by
  rw [handlePress_eq, handlePressSends, ← List.append_assoc]
  refine (decides_clearedFor h event).trans ?_
  cases hcontrol : event.keycode.isControl with
  | true =>
    obtain ⟨key, hkey, hsends⟩ := pressOwn_control p (s.clearedFor p event) hcontrol
    rw [hkey, hsends]
    exact decides_control key _
  | false =>
    have hne := hb.resolve_left (by simp [hcontrol])
    exact (pressOutcome p _ hcontrol).decides hne

theorem Owned.not_undecided (h : Owned p K s) (hup : K b = none) : ¬ Undecided b s := by
  rintro ⟨e, he, rfl⟩
  cases he with
  | inl he => simp [(h.waiting he).1] at hup
  | inr he => simp [(h.tracked he).1] at hup

/-- A press whose key was up sends that key at most once, and then it is decided. -/
theorem handlePress_own (h : Owned p K s) (hup : K event.keycode.base = none)
    (hcontrol : event.keycode.isControl = false) :
    forms event.keycode.base (s.handlePressSends p event) = [] ∨
      (∃ f, forms event.keycode.base (s.handlePressSends p event) = [f]) ∧
        ¬ Undecided event.keycode.base (s.handlePress p event).2 := by
  have hcleared : forms event.keycode.base (s.settleSends event.time ++
      if (s.settle p event.time false).isTrackingAt event.switch then []
      else (s.settle p event.time false).interruptSends p event.time) = [] := by
    cases decides_clearedFor h event with
    | inl hcase =>
      obtain ⟨hnone, -⟩ := hcase
      exact hnone
    | inr hcase =>
      obtain ⟨-, hs, -⟩ := hcase
      exact absurd hs (h.not_undecided hup)
  rw [handlePress_eq, handlePressSends, ← List.append_assoc, Sending.forms_append, hcleared,
    List.nil_append]
  exact (pressOutcome p _ hcontrol).sends_own ((h.clearedFor event).not_undecided hup)

/-! ## Every operation -/

theorem ReleaseOutcome.decides (h : Owned p K s) {r : Bool × Shifter}
    (o : ReleaseOutcome p event s l r) : Decides b s l r.2 := by
  cases o with
  | tapped => exact .same rfl rfl rfl
  | held => exact .same rfl rfl rfl
  | endsDual =>
    have huntracked := (h.of_agrees (agrees_dropped event s)).untracked event
    have heq := untracked_eq event (s.dropped event)
    have hquiet : Decides b s [] ((s.dropped event).untracked event) := by
      unfold untracked
      split
      · exact .quiet rfl (fun _ _ => id) nofun
      · exact .agrees rfl (agrees_dropped event s)
    have hsends : s.endKeySends event.keycode event.time =
        ((s.dropped event).untracked event).endKeySends event.keycode event.time := by
      rw [heq]
      rfl
    rw [hsends]
    exact hquiet.trans (decides_endKey huntracked event.keycode event.time)
  | ends =>
    have hquiet : Decides b s [] (s.unpassed event) := .same rfl rfl rfl
    exact hquiet.trans (decides_endKey (h.unpassed event) event.keycode event.time)
  | ignores => exact .same rfl rfl rfl

theorem decides_scan (h : Owned p K s) (now : Tick) :
    Decides b s (s.scanSends now) (s.scan p now) := by
  have hwaiting : Decides b s (s.scanSends now) (s.scanWaiting p now) := by
    cases scanWaiting_cases p now s with
    | inl hcase =>
      obtain ⟨hscan, hsends⟩ := hcase
      rw [hscan, hsends]
      exact .refl
    | inr hcase =>
      obtain ⟨w, hw, hscan, hsends⟩ := hcase
      rw [hscan, hsends]
      exact decides_decideKey h hw now true
  have htracked : Decides b (s.scanWaiting p now) [] (s.scan p now) := by
    unfold scan
    cases scanTracked_cases now (s.scanWaiting p now) with
    | inl hscan =>
      rw [hscan]
      exact .refl
    | inr hcase =>
      obtain ⟨e, -, hscan⟩ := hcase
      rw [hscan]
      exact .quiet rfl (fun _ _ => id) nofun
  have hall := hwaiting.trans htracked
  rwa [List.append_nil] at hall

theorem decides_verdict (h : Owned p K s) (keycode : Keycode) (v : Verdict) (pressTime : Tick)
    (switch : Switch) (now : Tick) :
    Decides b s (s.verdictSends p keycode v pressTime switch now)
      (s.verdict p keycode v pressTime switch now).2 := by
  unfold verdict verdictSends
  cases he : s.trackedAs? keycode switch with
  | none => exact .refl
  | some e =>
    cases v with
    | tap => exact .quiet rfl (fun _ _ => id) nofun
    | hold =>
      have ht : s.tracked = some e := (Option.filter_eq_some_iff.mp he).1
      have hkey : (e.pressedAt pressTime).keycode = e.keycode := rfl
      have hwaiting : s.stopTracking.waiting = s.waiting := rfl
      exact decides_resolve h ht hkey hwaiting rfl now

/-- An operation that does not press a key of the base. -/
theorem decides_perform (h : Owned p K s) {op : Operation} (hop : op.isPressOf b = false) :
    Decides b s (s.sends p op) (s.perform p op).2 := by
  cases op with
  | handle event =>
    simp only [sends, perform, handle]
    cases hdown : event.isDown with
    | true =>
      refine decides_handlePress h ?_
      rw [Operation.isPressOf, Operation.press?, hdown] at hop
      by_cases hcontrol : event.keycode.isControl = true
      · exact .inl hcontrol
      · right
        simpa [hcontrol] using hop
    | false =>
      cases hcontrol : event.keycode.isControl with
      | true =>
        obtain ⟨hrelease, hsends⟩ := handleRelease_control p s hcontrol
        rw [if_neg (by simp), if_neg (by simp), hrelease, hsends]
        exact .refl
      | false => exact (releaseOutcome p s hcontrol).decides h
  | scan now => exact decides_scan h now
  | verdict keycode v pressTime switch now => exact decides_verdict h keycode v pressTime switch now
  | enable => exact decides_control .on s
  | disable => exact decides_control .off s
  | toggle => exact decides_control .toggle s
  | _ => exact .same rfl rfl rfl

/-! ## The form since the press -/

/-- The forms of a base, of which `F` were sent since its press, after one more operation. -/
def formsAfter (p : Policy) (b : UInt8) (F : List Bool) (s : Shifter) (op : Operation) :
    List Bool :=
  (if op.isPressOf b then [] else F) ++ forms b (s.sends p op)

/-- The forms in which a key was sent since its press; `F` those before the history. -/
def formsSince (p : Policy) (b : UInt8) : List Bool → Shifter → List Operation → List Bool
  | F, _, [] => F
  | F, s, op :: rest => formsSince p b (formsAfter p b F s op) (s.perform p op).2 rest

/-- At most one form was sent; then it is the one kept for the release, and the key is decided. -/
def Formed (b : UInt8) (F : List Bool) (s : Shifter) : Prop :=
  F = [] ∨ F = [s.shifted.contains b] ∧ ¬ Undecided b s

variable {F : List Bool}

/-- Deciding a key adds its form, and nothing else does. -/
theorem Formed.decides (hF : Formed b F s) (hs : Speaks p s l t) (hd : Decides b s l t) :
    Formed b (F ++ forms b l) t := by
  have hshifted := hs.contains_shifted b
  unfold Formed
  cases hd with
  | inl hcase =>
    obtain ⟨hnone, hback⟩ := hcase
    rw [hnone] at hshifted
    rw [hnone, List.append_nil]
    cases hF with
    | inl heq =>
      subst heq
      exact .inl rfl
    | inr hcase =>
      obtain ⟨rfl, hdecided⟩ := hcase
      refine .inr ⟨?_, fun ht => hdecided (hback ht)⟩
      rw [hshifted]
      rfl
  | inr hcase =>
    obtain ⟨⟨f, hone⟩, hu, hnot⟩ := hcase
    rw [hone] at hshifted
    cases hF with
    | inl heq =>
      subst heq
      refine .inr ⟨?_, hnot⟩
      rw [hone, hshifted]
      rfl
    | inr hcase =>
      obtain ⟨rfl, hdecided⟩ := hcase
      exact absurd hu hdecided

/-- Every operation that comes at its time keeps this. -/
theorem Formed.perform (hF : Formed b F s) (h : Owned p K s) {op : Operation}
    (hadmits : op.move?.all K.admits = true) :
    Formed b (formsAfter p b F s op) (s.perform p op).2 := by
  have hspeaks := speaks_perform p s op
  unfold formsAfter
  cases hop : op.isPressOf b with
  | false => exact hF.decides hspeaks (decides_perform h hop)
  | true =>
    obtain ⟨event, hevent, hb⟩ := (Option.any_eq_true _ _).mp hop
    obtain ⟨rfl, hdown, hcontrol⟩ := Operation.eq_of_press? hevent
    rw [beq_iff_eq] at hb
    subst hb
    rw [Operation.move?_handle hcontrol] at hadmits
    have hown := handlePress_own (p := p) h (Keys.eq_none_of_admits hadmits hdown) hcontrol
    have hshifted := hspeaks.contains_shifted event.keycode.base
    simp only [sends, perform, handle, hdown, if_true, List.nil_append] at hshifted ⊢
    unfold Formed
    cases hown with
    | inl hnone => exact .inl hnone
    | inr hcase =>
      obtain ⟨⟨f, hone⟩, hnot⟩ := hcase
      rw [hone] at hshifted
      refine .inr ⟨?_, hnot⟩
      rw [hone, hshifted]
      rfl

/-- Between its press and the next, a key is sent in the forms of all operations. -/
theorem formsSince_eq {history : List Operation} (h : ∀ op ∈ history, op.isPressOf b = false) :
    formsSince p b F s history = F ++ forms b (s.sendsAll p history) := by
  induction history generalizing F s with
  | nil => exact (List.append_nil F).symm
  | cons op rest ih =>
    rw [formsSince, ih fun op' hop' => h op' (List.mem_cons_of_mem op hop'), formsAfter,
      h op List.mem_cons_self, sendsAll, Sending.forms_append, List.append_assoc]
    rfl

theorem formsSince_append (first rest : List Operation) :
    formsSince p b F s (first ++ rest) =
      formsSince p b (formsSince p b F s first) (s.run p first) rest := by
  induction first generalizing F s with
  | nil => rfl
  | cons op first ih =>
    rw [List.cons_append, formsSince, formsSince, run_cons]
    exact ih

end LongPress.Shifter
