import LongPress.Proofs.Board
import LongPress.Proofs.Endings
import LongPress.Proofs.Host

/-!
# LongPress.Proofs.Holding

Which modifiers count as held while dual role keys are tracked.

A modifier counts as held, taken back or not, from the operation that takes it to the next one that
drops it.  It is taken by the press of its key, and by an interruption that holds a dual role key
(`Takes`); it is dropped by the release of such a key (`Drops`).  Nobody counts the keys that hold a
modifier, so the first of them to go up drops it for all (`dropped_for_all`).

* `held_until_dropped` — the main statement.
-/

namespace LongPress

/-- The modifiers that count as held for the sake of a key: its own bit, or those it is held for. -/
def Keycode.mayHold (k : Keycode) : Modifiers := k.modifiers ||| k.modifierBit

namespace Shifter

open Modifiers (bit)

variable {p : Policy} {s t : Shifter} {event : Transition} {op : Operation} {i : Nat}

/-! ## Taking and dropping -/

/-- A modifier counts as held from this operation on: its key goes down, or a dual role key is held
by an interruption. -/
def Takes (p : Policy) (op : Operation) (i : Nat) (s : Shifter) : Prop :=
  (∃ event, op = .handle event ∧ event.isDown = true ∧ bit event.keycode.modifierBit i = true) ∨
    ∃ e, .ended e .held ∈ s.milestones p op ∧ bit e.keycode.modifiers i = true

/-- The modifiers that a release takes away. -/
def freed (event : Transition) (s : Shifter) : Modifiers :=
  if s.endsHold event then event.keycode.modifiers else event.keycode.modifierBit

/-- A modifier counts as held no more. -/
def Drops (op : Operation) (i : Nat) (s : Shifter) : Prop :=
  ∃ event, op = .handle event ∧ event.isDown = false ∧ bit (s.freed event) i = true

/-- A modifier is never dropped in a history. -/
def Lasts (p : Policy) (i : Nat) (s : Shifter) (history : List Operation) : Prop :=
  ∀ first op rest, history = first ++ op :: rest → ¬ (s.run p first).Drops op i

theorem lasts_nil : s.Lasts p i [] := fun first op rest heq => by simp at heq

theorem lasts_cons_iff {rest : List Operation} :
    s.Lasts p i (op :: rest) ↔ ¬ s.Drops op i ∧ (s.perform p op).2.Lasts p i rest := by
  constructor
  · exact fun h => ⟨h [] op rest rfl, fun first op' rest' heq =>
      h (op :: first) op' rest' (congrArg (op :: ·) heq)⟩
  · rintro ⟨hop, hrest⟩ first op' rest' heq
    cases first with
    | nil =>
      cases heq
      exact hop
    | cons op first =>
      cases heq
      exact hrest first op' rest' rfl

theorem drops_handle_iff (hup : event.isDown = false) :
    s.Drops (.handle event) i ↔ bit (s.freed event) i = true := by
  constructor
  · rintro ⟨e, heq, -, hbit⟩
    cases heq
    exact hbit
  · exact fun hbit => ⟨event, rfl, hup, hbit⟩

theorem not_drops_of_isDown (hdown : event.isDown = true) : ¬ s.Drops (.handle event) i := by
  rintro ⟨e, heq, hup, -⟩
  cases heq
  rw [hdown] at hup
  cases hup

/-- Only a press takes a modifier. -/
theorem Takes.isPress (h : s.Takes p op i) : ∃ event, op = .handle event ∧ event.isDown = true := by
  rcases h with ⟨event, hop, hdown, -⟩ | ⟨e, hended, -⟩
  · exact ⟨event, hop, hdown⟩
  · obtain ⟨-, ⟨event, hop, hdown, -⟩, -⟩ := mem_milestones_iff.mp hended
    exact ⟨event, hop, hdown⟩

/-! ## Presses -/

/-- An interruption that holds a dual role key takes its modifiers. -/
theorem Clears.claimed {ms : List Milestone} {l : List Sending} (c : Clears p event s ms l t) :
    (bit t.claimed i = true ↔
        bit s.claimed i = true ∨ ∃ e, .ended e .held ∈ ms ∧ bit e.keycode.modifiers i = true) ∧
      (TakesShiftOnly s → TakesShiftOnly t) := by
  have hsettled := steady_settle p event.time false s
  cases c with
  | nothing => exact ⟨by simp [hsettled.claimed], hsettled.shift⟩
  | @holds e =>
    have hbit : bit ((s.settle p event.time false).heldFor e).claimed i =
        (bit s.claimed i || bit e.keycode.modifiers i) := by
      rw [← hsettled.claimed]
      simp only [Shifter.claimed, heldFor, stopTracking, Modifiers.bit_or]
      exact Bool.or_right_comm _ _ _
    exact ⟨by simp [hbit], hsettled.shift⟩
  | @types e =>
    have hmarked : Steady (s.settle p event.time false)
        ((s.settle p event.time false).marked e) := .of_eq rfl rfl
    have hall := hsettled.trans (hmarked.trans (steady_resolve p e event.time _))
    exact ⟨by simp [hall.claimed], hall.shift⟩

theorem claimed_pressOwn (p : Policy) (s : Shifter) (hdown : event.isDown = true) :
    (s.pressOwn p event).2.claimed = Modifiers.move s.claimed event ∧
      (TakesShiftOnly s → TakesShiftOnly (s.pressOwn p event).2) := by
  cases hcontrol : event.keycode.isControl with
  | true =>
    obtain ⟨key, hkey, -⟩ := pressOwn_control p s hcontrol
    have hdone := steady_control key s
    rw [hkey, Modifiers.move_of_modifierBit (Keycode.modifierBit_of_isControl hcontrol)]
    exact ⟨hdone.claimed, hdone.shift⟩
  | false =>
    have hown := (pressOutcome p s hcontrol).steady
    exact ⟨hown.claimed.trans (claimed_pressed s hdown), hown.shift⟩

theorem takes_press_iff (hdown : event.isDown = true) :
    s.Takes p (.handle event) i ↔
      bit event.keycode.modifierBit i = true ∨
        ∃ e, .ended e .held ∈ s.interruptEnds p event ∧ bit e.keycode.modifiers i = true := by
  simp only [Takes, mem_handle_press_iff hdown]
  refine or_congr_left ⟨?_, fun hbit => ⟨event, rfl, hdown, hbit⟩⟩
  rintro ⟨e, heq, -, hbit⟩
  cases heq
  exact hbit

theorem claimed_handlePress (hdown : event.isDown = true) :
    (bit (s.handlePress p event).2.claimed i = true ↔
        s.Takes p (.handle event) i ∨ bit s.claimed i = true) ∧
      (TakesShiftOnly s → TakesShiftOnly (s.handlePress p event).2) := by
  obtain ⟨hcleared, hclearedShift⟩ := (clears p event s).claimed (i := i)
  obtain ⟨hown, hownShift⟩ := claimed_pressOwn p (s.clearedFor p event) hdown
  rw [handlePress_eq]
  refine ⟨?_, hownShift ∘ hclearedShift⟩
  rw [hown, Modifiers.move, if_pos hdown, Modifiers.bit_or, Bool.or_eq_true, hcleared,
    takes_press_iff hdown, or_comm, ← or_assoc, or_right_comm]

/-! ## Releases -/

theorem ReleaseOutcome.claimed {l : List Sending} {r : Bool × Shifter}
    (o : ReleaseOutcome p event s l r) (hshift : TakesShiftOnly s) (hup : event.isDown = false) :
    r.2.claimed = s.claimed &&& ~~~s.freed event ∧ TakesShiftOnly r.2 := by
  cases hends : s.endsHold event with
  | false =>
    have hsteady := o.steady hends
    refine ⟨?_, hsteady.shift fun i hi => hshift i (bit_dropped hi).1⟩
    rw [hsteady.claimed, claimed_released hshift hup, freed, hends, Modifiers.move,
      if_neg (by simp [hup])]
    rfl
  | true =>
    have hends' := hends
    simp only [endsHold, Bool.and_eq_true, Bool.not_eq_true'] at hends'
    obtain ⟨⟨dual, htapped⟩, hheld⟩ := hends'
    cases o with
    | held =>
      have hdropped := dropped_of_modifierBit (Keycode.modifierBit_of_isDualRole dual) s
      constructor
      · refine Modifiers.eq_of_bit fun i => ?_
        simp only [Shifter.claimed, freed, hends, hdropped, if_true, Modifiers.bit_or,
          Modifiers.bit_and_not, Bool.and_or_distrib_right]
      · intro i hi
        rw [hdropped, Modifiers.bit_and_not, Bool.and_eq_true] at hi
        exact hshift i hi.1
    | tapped _ tapped => simp [htapped] at tapped
    | endsDual _ _ held => simp [hheld] at held
    | ends single => simp [dual] at single
    | ignores single => simp [dual] at single

theorem claimed_handleRelease (hshift : TakesShiftOnly s) (hup : event.isDown = false) :
    (s.handleRelease p event).2.claimed = s.claimed &&& ~~~s.freed event ∧
      TakesShiftOnly (s.handleRelease p event).2 := by
  cases hcontrol : event.keycode.isControl with
  | false => exact (releaseOutcome p s hcontrol).claimed hshift hup
  | true =>
    have hnone : s.freed event = 0 := by
      simp [freed, endsHold, isDualRole_of_isControl hcontrol,
        Keycode.modifierBit_of_isControl hcontrol]
    rw [(handleRelease_control p s hcontrol).1, hnone]
    exact ⟨by simp, hshift⟩

/-! ## Histories -/

/-- What is no move of a key leaves the modifiers that count as held, unless it sets them. -/
theorem steady_other (hother : op.transition? = none) (hset : ∀ bits, op ≠ .setModifiers bits) :
    Steady s (s.perform p op).2 := by
  cases op with
  | handle event => cases hother
  | scan now =>
    exact scan_keeps .refl (fun e _ => steady_decideKey p e now true s)
      fun t e h _ => h.trans (.of_eq rfl rfl)
  | verdict keycode v pressTime switch now =>
    simp only [perform, verdict]
    have hstopped : Steady s s.stopTracking := .of_eq rfl rfl
    cases s.trackedAs? keycode switch with
    | none => exact .refl
    | some e =>
      cases v with
      | tap => exact hstopped
      | hold => exact hstopped.trans (steady_resolve p _ now _)
  | setModifiers bits => exact absurd rfl (hset bits)
  | enable => exact steady_control .on s
  | disable => exact steady_control .off s
  | toggle => exact steady_control .toggle s
  | _ => exact .of_eq rfl rfl

/-- What an operation does to a modifier that counts as held or not. -/
theorem bit_claimed_perform (hshift : TakesShiftOnly s) (hset : ∀ bits, op ≠ .setModifiers bits) :
    (bit (s.perform p op).2.claimed i = true ↔
        s.Takes p op i ∨ bit s.claimed i = true ∧ ¬ s.Drops op i) ∧
      TakesShiftOnly (s.perform p op).2 := by
  cases hop : op.transition? with
  | none =>
    have hsteady := steady_other (p := p) (s := s) hop hset
    have hnot : ∀ event, op ≠ .handle event := by
      rintro event rfl
      cases hop
    have htakes : ¬ s.Takes p op i := fun h => by
      obtain ⟨event, heq, -⟩ := h.isPress
      exact hnot event heq
    have hdrops : ¬ s.Drops op i := fun ⟨event, heq, _⟩ => hnot event heq
    rw [hsteady.claimed, or_iff_right htakes, and_iff_left hdrops]
    exact ⟨Iff.rfl, hsteady.shift hshift⟩
  | some event =>
    obtain rfl := Operation.eq_of_transition? hop
    cases hdown : event.isDown with
    | true =>
      obtain ⟨hbit, hkeeps⟩ := claimed_handlePress (p := p) (s := s) (i := i) hdown
      rw [perform_press p s hdown, hbit, and_iff_left (not_drops_of_isDown hdown)]
      exact ⟨Iff.rfl, hkeeps hshift⟩
    | false =>
      obtain ⟨hclaimed, hkeeps⟩ := claimed_handleRelease (p := p) hshift hdown
      have htakes : ¬ s.Takes p (.handle event) i := fun h => by
        obtain ⟨e, heq, hpress⟩ := h.isPress
        cases heq
        rw [hdown] at hpress
        cases hpress
      rw [perform_release p s hdown, hclaimed, or_iff_right htakes, drops_handle_iff hdown,
        Modifiers.bit_and_not, Bool.and_eq_true, Bool.not_eq_true', Bool.not_eq_true]
      exact ⟨Iff.rfl, hkeeps⟩

/-- A modifier counts as held after a history if it was taken, or counted as held before, and is not
dropped since. -/
theorem bit_claimed_run_iff (hshift : TakesShiftOnly s) {history : List Operation}
    (hset : ∀ bits, .setModifiers bits ∉ history) :
    bit (s.run p history).claimed i = true ↔
      bit s.claimed i = true ∧ s.Lasts p i history ∨
        ∃ before op rest, history = before ++ op :: rest ∧ (s.run p before).Takes p op i ∧
          (s.run p (before ++ [op])).Lasts p i rest := by
  induction history generalizing s with
  | nil => simp [lasts_nil]
  | cons op history ih =>
    have hop : ∀ bits, op ≠ .setModifiers bits :=
      fun bits he => hset bits (he ▸ List.mem_cons_self)
    obtain ⟨hbit, hshift'⟩ := bit_claimed_perform (p := p) (i := i) hshift hop
    rw [run_cons, ih hshift' fun bits hmem => hset bits (List.mem_cons_of_mem op hmem), hbit,
      lasts_cons_iff]
    constructor
    · rintro (⟨htakes | ⟨hclaimed, hnot⟩, hlasts⟩ | ⟨before, op', rest, rfl, htakes, hlasts⟩)
      · exact .inr ⟨[], op, history, rfl, htakes, hlasts⟩
      · exact .inl ⟨hclaimed, hnot, hlasts⟩
      · exact .inr ⟨op :: before, op', rest, rfl, htakes, hlasts⟩
    · rintro (⟨hclaimed, hnot, hlasts⟩ | ⟨before, op', rest, heq, htakes, hlasts⟩)
      · exact .inl ⟨.inr ⟨hclaimed, hnot⟩, hlasts⟩
      · cases before with
        | nil =>
          cases heq
          exact .inl ⟨.inl htakes, hlasts⟩
        | cons op before =>
          cases heq
          exact .inr ⟨before, op', rest, rfl, htakes, hlasts⟩

theorem bit_mayHold_of_freed (h : bit (s.freed event) i = true) :
    bit event.keycode.mayHold i = true := by
  rw [Keycode.mayHold, Modifiers.bit_or, Bool.or_eq_true]
  unfold freed at h
  split at h
  · exact .inl h
  · exact .inr h

/-- Modifiers that are all taken last until a key goes up that may hold one of them. -/
theorem contained_run (hshift : TakesShiftOnly s) {before rest : List Operation}
    (hset : ∀ bits, .setModifiers bits ∉ before ++ op :: rest) {taken : Modifiers}
    (htakes : ∀ i, bit taken i = true → (s.run p before).Takes p op i)
    (hapart : ∀ release, .handle release ∈ rest → release.isDown = false →
      release.keycode.mayHold &&& taken = 0) :
    taken &&& ~~~(s.run p (before ++ op :: rest)).claimed = 0 := by
  refine Modifiers.eq_of_bit fun i => ?_
  rw [Modifiers.bit_and_not, Modifiers.bit_zero, Bool.and_eq_false_imp]
  intro hbit
  rw [Bool.not_eq_false']
  refine (bit_claimed_run_iff hshift hset).mpr (.inr ⟨before, op, rest, rfl, htakes i hbit, ?_⟩)
  rintro first op' rest' rfl ⟨release, rfl, hup, hfreed⟩
  have hnone := hapart release (List.mem_append_right _ List.mem_cons_self) hup
  have hboth : bit (release.keycode.mayHold &&& taken) i = true := by
    rw [Modifiers.bit_and, bit_mayHold_of_freed hfreed, hbit]
    rfl
  rw [hnone, Modifiers.bit_zero] at hboth
  cases hboth

/-- **A modifier counts as held until a key that holds it goes up.**  In every history that does not
set the modifiers:

* a modifier counts as held, taken back or not, exactly if it was taken and not dropped since;
* the modifiers of a dual role key that an interruption holds count as held until a key that may
  hold one of them goes up, itself or another one;
* so does the modifier of a modifier key from its press on. -/
theorem held_until_dropped (p : Policy) (settings : Settings) (history : List Operation)
    (hset : ∀ bits, .setModifiers bits ∉ history) :
    let after (first : List Operation) := (initial settings).run p first
    let counted := (after history).modifiers ||| (after history).suppressed
    (∀ i, bit counted i = true ↔
        ∃ before op rest, history = before ++ op :: rest ∧ (after before).Takes p op i ∧
          (after (before ++ [op])).Lasts p i rest) ∧
      (∀ before op rest press, history = before ++ op :: rest →
        .ended press .held ∈ (after before).milestones p op →
        (∀ release, .handle release ∈ rest → release.isDown = false →
          release.keycode.mayHold &&& press.keycode.modifiers = 0) →
        press.keycode.modifiers &&& ~~~counted = 0) ∧
      ∀ before press rest, history = before ++ .handle press :: rest → press.isDown = true →
        (∀ release, .handle release ∈ rest → release.isDown = false →
          release.keycode.mayHold &&& press.keycode.modifierBit = 0) →
        press.keycode.modifierBit &&& ~~~counted = 0 := by
  have hshift := takesShiftOnly_initial settings
  refine ⟨fun i => ?_, ?_, ?_⟩
  · have hnone : bit (initial settings).claimed i = false := by simp [claimed, initial]
    have hiff := bit_claimed_run_iff (p := p) (i := i) hshift hset
    rwa [hnone, or_iff_right (by simp)] at hiff
  · rintro before op rest press rfl hended hapart
    exact contained_run hshift hset (fun i hbit => .inr ⟨press, hended, hbit⟩) hapart
  · rintro before press rest rfl hdown hapart
    exact contained_run hshift hset (fun i hbit => .inl ⟨press, rfl, hdown, hbit⟩) hapart

/-- Two mod-tap keys are held by the presses that follow them, the first for control and the second
for alt, while left shift is down; then the first one goes up. -/
def chorded : List Operation :=
  [.handle (.press 0xe1 0 0 0), .handle (.press (Keycode.modTap 1 4) 0 1 10),
    .handle (.press (Keycode.modTap 4 5) 0 2 20), .handle (.press Keycode.enter 0 3 30),
    .handle (.release (Keycode.modTap 1 4) 0 1 40)]

theorem held_until_dropped_of_chorded :
    let after (first : List Operation) := (initial dualRoleSettings).run .stock first
    let counted := (after chorded).modifiers ||| (after chorded).suppressed
    (∀ bits, .setModifiers bits ∉ chorded) ∧ counted = 6 ∧
      (∃ before op rest, chorded = before ++ op :: rest ∧ (after before).Takes .stock op 2 ∧
        (after (before ++ [op])).Lasts .stock 2 rest) ∧
      .ended (.press (Keycode.modTap 4 5) 0 2 20) .held ∈
        (after (chorded.take 3)).milestones .stock (.handle (.press Keycode.enter 0 3 30)) ∧
      (Keycode.modTap 4 5).modifiers &&& ~~~counted = 0 ∧
      Keycode.leftShift.modifierBit &&& ~~~counted = 0 := by
  intro after counted
  have hset : ∀ bits, .setModifiers bits ∉ chorded := by simp [chorded]
  have hended : .ended (.press (Keycode.modTap 4 5) 0 2 20) .held ∈
      (after (chorded.take 3)).milestones .stock (.handle (.press Keycode.enter 0 3 30)) := by
    decide
  obtain ⟨hcounted, hheld, hmodifier⟩ := held_until_dropped .stock dualRoleSettings chorded hset
  refine ⟨hset, by decide, (hcounted 2).mp (by decide), hended, ?_, ?_⟩
  · exact hheld (chorded.take 3) (.handle (.press Keycode.enter 0 3 30)) (chorded.drop 4)
      (.press (Keycode.modTap 4 5) 0 2 20) rfl hended (by simp [chorded]; decide)
  · exact hmodifier [] (.press Keycode.leftShift 0 0 0) (chorded.drop 1) rfl rfl
      (by simp [chorded]; decide)

/-- Two mod-tap keys are held for control by the presses that follow them; the first one goes up. -/
def sharedControl : List Operation :=
  [.handle (.press (Keycode.modTap 1 4) 0 0 0), .handle (.press (Keycode.modTap 1 5) 0 1 10),
    .handle (.press Keycode.enter 0 2 20), .handle (.release (Keycode.modTap 1 4) 0 0 30)]

/-- Control is down when a mod-tap key is held for it as well; the mod-tap key goes up. -/
def doubledControl : List Operation :=
  [.handle (.press 0xe0 0 0 0), .handle (.press (Keycode.modTap 1 5) 0 1 10),
    .handle (.press Keycode.enter 0 2 20), .handle (.release (Keycode.modTap 1 5) 0 1 30)]

/-- The first key to go up drops a modifier for all that hold it: a dual role key that is still held
for control, and the control key itself, count for nothing. -/
theorem dropped_for_all :
    let after (first : List Operation) := (initial dualRoleSettings).run .stock first
    let second : Transition := .press (Keycode.modTap 1 5) 0 1 10
    (Board.admitsAll [] sharedControl = true ∧ second ∈ Board.run [] sharedControl ∧
        .ended second .held ∈
          (after (sharedControl.take 2)).milestones .stock (.handle (.press Keycode.enter 0 2 20)) ∧
        second.keycode.modifiers &&&
          ~~~((after sharedControl).modifiers ||| (after sharedControl).suppressed) ≠ 0) ∧
      (Board.admitsAll [] doubledControl = true ∧ isHeld 0xe0 doubledControl = true ∧
        Keycode.modifierBit 0xe0 &&&
          ~~~((after doubledControl).modifiers ||| (after doubledControl).suppressed) ≠ 0) := by
  decide

end Shifter

end LongPress
