import LongPress.Proofs.Board
import LongPress.Proofs.Endings

/-!
# LongPress.Proofs.NoStaleKey

The tracker never outlives its key.

What the shifter remembers of a dual role key — that it is tracked, or that an interruption has
settled its base — has to go with the key.  `Remembers B s` says that every such memory is that of
a key in `B`, and that a tracked key is not settled as well.  The release of a key forgets its base
first, and the tracker only if the base was not settled; so the invariant needs that two keys of one
base are never down together (`Board.StaysApart`), and without that it fails
(`stale_key_of_twins`).

* `no_stale_key` — the main statement.
-/

namespace LongPress.Shifter

variable {p : Policy} {B : Board} {s t : Shifter} {event : Transition} {op : Operation}

/-- What the shifter remembers of dual role keys is about keys that are down. -/
structure Remembers (B : Board) (s : Shifter) : Prop where
  tracked {e : Transition} : s.tracked = some e →
    e ∈ B ∧ e.keycode.isDualRole = true ∧ s.interrupted e.keycode.base = false
  interrupted {b : UInt8} : s.interrupted b = true →
    ∃ press ∈ B, press.keycode.isDualRole = true ∧ press.keycode.base = b
  once {b : UInt8} : s.tapped.contains b = true → s.held.contains b = false

namespace Remembers

theorem initial (settings : Settings) : Remembers [] (initial settings) where
  tracked := nofun
  interrupted h := by simp [Shifter.interrupted, Shifter.initial] at h
  once h := by simp [Shifter.initial] at h

/-- Memories may go, and keys that none is about. -/
theorem shrink (h : Remembers B s) {B' : Board} (tracked : t.tracked = none ∨ t.tracked = s.tracked)
    (tapped : ∀ b, t.tapped.contains b = true → s.tapped.contains b = true)
    (held : ∀ b, t.held.contains b = true → s.held.contains b = true)
    (stays : ∀ press ∈ B, press.keycode.isDualRole = true →
      t.tracked = some press ∨ t.interrupted press.keycode.base = true → press ∈ B') :
    Remembers B' t := by
  have hinterrupted : ∀ b, t.interrupted b = true → s.interrupted b = true := by
    intro b hb
    rw [Shifter.interrupted, Bool.or_eq_true] at hb ⊢
    exact hb.imp (tapped b) (held b)
  constructor
  · intro e he
    rw [he] at tracked
    obtain ⟨hmem, hdual, hnot⟩ := h.tracked (tracked.resolve_left (Option.some_ne_none e)).symm
    refine ⟨stays e hmem hdual (.inl he), hdual, Bool.eq_false_iff.mpr fun hb => ?_⟩
    rw [hinterrupted _ hb] at hnot
    cases hnot
  · intro b hb
    obtain ⟨press, hmem, hdual, rfl⟩ := h.interrupted (hinterrupted b hb)
    exact ⟨press, stays press hmem hdual (.inr hb), hdual, rfl⟩
  · intro b hb
    refine Bool.eq_false_iff.mpr fun hheld => ?_
    have hnot := h.once (tapped b hb)
    rw [held b hheld] at hnot
    cases hnot

theorem congr (h : Remembers B s) (tracked : t.tracked = none ∨ t.tracked = s.tracked)
    (tapped : t.tapped = s.tapped) (held : t.held = s.held) : Remembers B t :=
  h.shrink tracked (fun _ hb => tapped ▸ hb) (fun _ hb => held ▸ hb) fun _ hmem _ _ => hmem

/-! ## Presses -/

/-- A press where no key is down leaves nothing tracked; a key that it settles was tracked, and so
is down. -/
theorem clearedFor (h : Remembers B s)
    (hfree : ∀ press ∈ B, press.switch.samePlace event.switch = false) :
    (s.clearedFor p event).tracked = none ∧ Remembers B (s.clearedFor p event) := by
  have hclears := clears p event s
  have hended {e : Transition} {how : Ending} (he : .ended e how ∈ s.interruptEnds p event) :
      s.tracked = some e := (mem_interruptEnds_iff.mp he).1
  have hnone : (s.clearedFor p event).tracked = none := by
    generalize s.interruptEnds p event = ms at hclears
    generalize s.clearedSends p event = l at hclears
    generalize s.clearedFor p event = t at hclears
    cases hclears with
    | nothing here =>
      rw [(agrees_settle p event.time false s).tracked]
      refine Option.eq_none_iff_forall_ne_some.mpr fun e he => ?_
      have haway := hfree e (h.tracked he).1
      rw [here e he] at haway
      cases haway
    | holds => rfl
    | @types e => exact (agrees_resolve p e event.time _).tracked
  refine ⟨hnone, ?_, fun hb => ?_, fun {b} htapped => Bool.eq_false_iff.mpr fun hheld => ?_⟩
  · rw [hnone]
    nofun
  · rcases (keeps_clearedFor p event s).interrupted hb with hb | ⟨e, he, rfl⟩
    · exact h.interrupted hb
    · obtain ⟨hmem, hdual, -⟩ := h.tracked he
      exact ⟨e, hmem, hdual, rfl⟩
  · rcases hclears.tapped_iff.mp htapped with hb | ⟨e, he, rfl⟩
    · rcases hclears.held_iff.mp hheld with hb' | ⟨e, he, rfl⟩
      · simp [h.once hb] at hb'
      · obtain ⟨-, -, hnot⟩ := h.tracked (hended he)
        simp [Shifter.interrupted, hb] at hnot
    · rcases hclears.held_iff.mp hheld with hb' | ⟨e', he', -⟩
      · obtain ⟨-, -, hnot⟩ := h.tracked (hended he)
        simp [Shifter.interrupted, hb'] at hnot
      · -- One interruption does not both type and hold.
        cases (hended he).symm.trans (hended he')
        have htyped := (mem_interruptEnds_iff.mp he).2.2
        rw [← (mem_interruptEnds_iff.mp he').2.2] at htyped
        cases htyped

theorem press (h : Remembers B s) (hdown : event.isDown = true)
    (hfree : ∀ press ∈ B, press.switch.samePlace event.switch = false)
    (hapart : (B.move event).Apart) : Remembers (B.move event) (s.handlePress p event).2 := by
  obtain ⟨hnone, hcleared⟩ := h.clearedFor (p := p) hfree
  obtain ⟨htapped, hheld⟩ := settled_handlePress p event s
  have hstays : ∀ press ∈ B, press ∈ B.move event :=
    fun press hmem => Board.mem_move.mpr (.inr ⟨hmem, hfree press hmem⟩)
  have hown : event ∈ B.move event := Board.mem_move.mpr (.inl ⟨hdown, rfl⟩)
  constructor
  · intro e he
    rw [handlePress_eq, tracked_pressOwn_eq, hnone] at he
    split at he
    · next hstarts =>
      cases he
      have hdual : event.keycode.isDualRole = true := by
        simp only [startsTracking, Bool.and_eq_true] at hstarts
        exact hstarts.1.1.1.1
      refine ⟨hown, hdual, Bool.eq_false_iff.mpr fun hb => ?_⟩
      rw [Shifter.interrupted, htapped, hheld] at hb
      obtain ⟨press, hmem, hpressDual, hbase⟩ := hcleared.interrupted hb
      cases hapart press (hstays press hmem) event hown hpressDual hdual hbase
      have hself := hfree event hmem
      rw [Switch.samePlace_iff.mpr ⟨rfl, rfl⟩] at hself
      cases hself
    · cases he
  · intro b hb
    rw [Shifter.interrupted, htapped, hheld] at hb
    obtain ⟨press, hmem, hdual, hbase⟩ := hcleared.interrupted hb
    exact ⟨press, hstays press hmem, hdual, hbase⟩
  · intro b hb
    rw [htapped] at hb
    rw [hheld]
    exact hcleared.once hb

end Remembers

/-! ## Releases -/

/-- A release adds nothing to what is remembered of dual role keys. -/
theorem ReleaseOutcome.shrinks {l : List Sending} {r : Bool × Shifter}
    (o : ReleaseOutcome p event s l r) :
    (r.2.tracked = none ∨ r.2.tracked = s.tracked) ∧
      (∀ b, r.2.tapped.contains b = true → s.tapped.contains b = true) ∧
      ∀ b, r.2.held.contains b = true → s.held.contains b = true := by
  cases o with
  | tapped =>
    refine ⟨.inr rfl, fun b hb => ?_, fun _ => id⟩
    rw [CodeSet.contains_remove, Bool.and_eq_true] at hb
    exact hb.2
  | held =>
    refine ⟨.inr rfl, fun _ => id, fun b hb => ?_⟩
    rw [CodeSet.contains_remove, Bool.and_eq_true] at hb
    exact hb.2
  | endsDual =>
    have ha := agrees_endKey p event.keycode event.time ((s.dropped event).untracked event)
    rw [ha.tracked, ha.tapped, ha.held, untracked_eq]
    refine ⟨?_, fun _ => id, fun _ => id⟩
    dsimp only
    rw [tracked_untracked_eq]
    split
    · exact .inl rfl
    · exact .inr rfl
  | ends =>
    have ha := agrees_endKey p event.keycode event.time (s.unpassed event)
    exact ⟨.inr ha.tracked, fun _ hb => ha.tapped ▸ hb, fun _ hb => ha.held ▸ hb⟩
  | ignores => exact ⟨.inr rfl, fun _ => id, fun _ => id⟩

namespace Remembers

/-- After the release of a dual role key nothing is remembered of it. -/
theorem forgets (h : Remembers B s) (dual : event.keycode.isDualRole = true) {l : List Sending}
    {r : Bool × Shifter} (o : ReleaseOutcome p event s l r) :
    r.2.interrupted event.keycode.base = false ∧
      ∀ press, event.keycode = press.keycode → press.switch.samePlace event.switch = true →
        r.2.tracked ≠ some press := by
  have hsettled : s.interrupted event.keycode.base = true →
      ∀ press, event.keycode = press.keycode → s.tracked ≠ some press := by
    intro hb press hkey he
    obtain ⟨-, -, hnot⟩ := h.tracked he
    rw [← hkey, hb] at hnot
    cases hnot
  cases o with
  | tapped _ tapped =>
    have hheld : (s.dropped event).held.contains event.keycode.base = false := h.once tapped
    constructor
    · simp [Shifter.interrupted, hheld]
    · exact fun press hkey _ => hsettled (by simp [Shifter.interrupted, tapped]) press hkey
  | held _ tapped held =>
    have htapped : (s.dropped event).tapped.contains event.keycode.base = false := tapped
    constructor
    · simp [Shifter.interrupted, htapped]
    · exact fun press hkey _ => hsettled (by simp [Shifter.interrupted, held]) press hkey
  | endsDual _ tapped held =>
    have ha := agrees_endKey p event.keycode event.time ((s.dropped event).untracked event)
    constructor
    · rw [Shifter.interrupted, ha.tapped, ha.held, untracked_eq]
      exact Bool.or_eq_false_iff.mpr ⟨tapped, held⟩
    · intro press hkey hplace
      rw [ha.tracked]
      exact tracked_untracked (s.dropped event) hkey hplace
  | ends single => simp [dual] at single
  | ignores single => simp [dual] at single

theorem release (h : Remembers B s) (hone : B.OneEach) (hadmits : B.admits event = true)
    (hup : event.isDown = false) : Remembers (B.move event) (s.handleRelease p event).2 := by
  cases hcontrol : event.keycode.isControl with
  | true =>
    rw [(handleRelease_control p s hcontrol).1]
    refine h.shrink (.inr rfl) (fun _ => id) (fun _ => id) fun press hmem hdual _ => ?_
    refine (hone.mem_move_release hadmits hup hmem).resolve_right fun ⟨hkey, _⟩ => ?_
    rw [hkey, isControl_of_isDualRole hdual] at hcontrol
    cases hcontrol
  | false =>
    have o := releaseOutcome p s hcontrol
    obtain ⟨htracked, htapped, hheld⟩ := o.shrinks
    refine h.shrink htracked htapped hheld fun press hmem hdual hremembered => ?_
    -- A key that is remembered is not the one that goes up.
    refine (hone.mem_move_release hadmits hup hmem).resolve_right fun ⟨hkey, hplace⟩ => ?_
    obtain ⟨hforgotten, huntracked⟩ := h.forgets (hkey ▸ hdual) o
    rcases hremembered with he | hb
    · exact huntracked press hkey hplace he
    · rw [← hkey, hforgotten] at hb
      cases hb

/-! ## Histories -/

theorem control (h : Remembers B s) (key : ControlKey) : Remembers B (s.control key) :=
  have ha := agrees_control key s
  h.congr (.inr ha.tracked) ha.tapped ha.held

/-- A scan and a verdict may end the tracking; all else has nothing to do with dual role keys. -/
theorem other (h : Remembers B s) (hother : op.transition? = none) :
    Remembers B (s.perform p op).2 := by
  cases op with
  | handle event => cases hother
  | scan now =>
    refine scan_keeps h (fun w _ => ?_) fun t e hkept _ => hkept.congr (.inl rfl) rfl rfl
    have ha := agrees_decideKey p w now true s
    exact h.congr (.inr ha.tracked) ha.tapped ha.held
  | verdict keycode v pressTime switch now =>
    simp only [Shifter.perform, Shifter.verdict]
    cases s.trackedAs? keycode switch with
    | none => exact h
    | some e =>
      cases v with
      | tap => exact h.congr (.inl rfl) rfl rfl
      | hold =>
        have ha := agrees_resolve p (e.pressedAt pressTime) now s.stopTracking
        exact h.congr (.inl ha.tracked) ha.tapped ha.held
  | enable => exact h.control .on
  | disable => exact h.control .off
  | toggle => exact h.control .toggle
  | _ => exact h.congr (.inr rfl) rfl rfl

theorem perform (h : Remembers B s) (hone : B.OneEach)
    (hadmits : op.transition?.all B.admits = true) (hapart : (B.perform op).Apart) :
    Remembers (B.perform op) (s.perform p op).2 := by
  cases hop : op.transition? with
  | none =>
    rw [Board.perform, hop]
    exact h.other hop
  | some event =>
    obtain rfl := Operation.eq_of_transition? hop
    cases hdown : event.isDown with
    | true =>
      rw [perform_press p s hdown]
      exact h.press hdown (Board.free_of_admits hadmits hdown) hapart
    | false =>
      rw [perform_release p s hdown]
      exact h.release hone hadmits hdown

theorem run (h : Remembers B s) (hone : B.OneEach) {history : List Operation}
    (hadmits : B.admitsAll history = true) (hapart : B.StaysApart history) :
    Remembers (B.run history) (s.run p history) := by
  induction history generalizing B s with
  | nil => exact h
  | cons op rest ih =>
    rw [Board.admitsAll, Bool.and_eq_true] at hadmits
    exact ih (h.perform hone hadmits.1 hapart.tail.head) (hone.perform op) hadmits.2 hapart.tail

end Remembers

/-! ## The tracker and its key -/

/-- **The tracker never outlives its key.**  On a board where each switch goes down and up in turn,
with one code at a time, and where no two dual role keys of one base are down together:

* a key that is tracked is down, so none is tracked at a place once the key there has been let go;
* tracking starts only while no key is tracked;
* only keys that are down are handed off. -/
theorem no_stale_key (p : Policy) (settings : Settings) (history : List Operation)
    (hadmits : Board.admitsAll [] history = true) (hapart : Board.StaysApart [] history) :
    let after (first : List Operation) := (initial settings).run p first
    (∀ press, (after history).tracked = some press → press ∈ Board.run [] history) ∧
      (∀ before release rest, history = before ++ .handle release :: rest →
        release.isDown = false →
          (after (before ++ [.handle release])).isTrackingAt release.switch = false) ∧
      (∀ before op rest press, history = before ++ op :: rest →
        .started press ∈ (after before).milestones p op →
          ((after before).clearedFor p press).tracked = none) ∧
      ∀ before op rest keycode switch, history = before ++ op :: rest →
        .handOff keycode switch ∈ (after before).reported p op →
          ∃ press ∈ Board.run [] before, press.keycode = keycode ∧ press.switch = switch := by
  intro after
  have hfirst (first rest : List Operation) (heq : history = first ++ rest) :
      Remembers (Board.run [] first) (after first) := by
    subst heq
    rw [Board.admitsAll_append, Bool.and_eq_true] at hadmits
    exact (Remembers.initial settings).run Board.oneEach_nil hadmits.1 hapart.left
  refine ⟨fun press he => ?_, ?_, ?_, ?_⟩
  · exact ((hfirst history [] (List.append_nil history).symm).tracked he).1
  · intro before release rest heq hup
    have hreleased := hfirst (before ++ [.handle release]) rest (by simp [heq])
    refine Bool.eq_false_iff.mpr fun htracking => ?_
    obtain ⟨press, he, hplace⟩ := (Option.any_eq_true _ _).mp htracking
    have hmem := (hreleased.tracked he).1
    rw [Board.run_append] at hmem
    rcases Board.mem_move.mp hmem with ⟨hdown, -⟩ | ⟨-, haway⟩
    · rw [hup] at hdown
      cases hdown
    · rw [hplace] at haway
      cases haway
  · intro before op rest press heq hstarted
    obtain ⟨rfl, hdown, -, -⟩ := tracked_of_started hstarted
    refine ((hfirst before _ heq).clearedFor (Board.free_of_admits ?_ hdown)).1
    rw [heq, Board.admitsAll_append, Board.admitsAll, Bool.and_eq_true, Bool.and_eq_true] at hadmits
    exact hadmits.2.1
  · intro before op rest keycode switch heq hoff
    obtain ⟨now, press, -, he, rfl, rfl, -⟩ := handOff_mem_reported_iff.mp hoff
    exact ⟨press, ((hfirst before _ heq).tracked he).1, rfl, rfl⟩

/-- A mod-tap key is held by the press of a layer-tap key, which is let go before any verdict and
pressed again until it is handed off. -/
def rolledOver : List Operation :=
  [.handle (.press (Keycode.modTap 1 4) 0 0 0), .handle (.press (Keycode.layerTap 1 5) 0 1 10),
    .handle (.release (Keycode.layerTap 1 5) 0 1 20),
    .handle (.press (Keycode.layerTap 1 5) 0 1 600), .scan 1100]

theorem no_stale_key_of_rolledOver :
    let after (first : List Operation) := (initial dualRoleSettings).run .stock first
    Board.admitsAll [] rolledOver = true ∧ Board.StaysApart [] rolledOver ∧
      (after (rolledOver.take 2)).isTrackingAt ⟨0, 1, true⟩ = true ∧
      (after (rolledOver.take 3)).isTrackingAt ⟨0, 1, false⟩ = false ∧
      ((after (rolledOver.take 1)).clearedFor .stock
        (.press (Keycode.layerTap 1 5) 0 1 10)).tracked = none ∧
      ∃ press ∈ Board.run [] (rolledOver.take 4),
        press.keycode = Keycode.layerTap 1 5 ∧ press.switch = ⟨0, 1, true⟩ := by
  intro after
  have hadmits : Board.admitsAll [] rolledOver = true := by decide
  have hapart : Board.StaysApart [] rolledOver := .of_inits (by decide)
  obtain ⟨-, hreleased, hstarts, hoff⟩ :=
    no_stale_key .stock dualRoleSettings rolledOver hadmits hapart
  refine ⟨hadmits, hapart, by decide, ?_, ?_, ?_⟩
  · exact hreleased (rolledOver.take 2) (.release (Keycode.layerTap 1 5) 0 1 20)
      (rolledOver.drop 3) rfl rfl
  · exact hstarts (rolledOver.take 1) (.handle (.press (Keycode.layerTap 1 5) 0 1 10))
      (rolledOver.drop 2) (.press (Keycode.layerTap 1 5) 0 1 10) rfl (by decide)
  · exact hoff (rolledOver.take 4) (.scan 1100) [] (Keycode.layerTap 1 5) ⟨0, 1, true⟩ rfl
      (by decide)

/-- A mod-tap key is held by the press of a layer-tap key of the same base, which is let go. -/
def twins : List Operation :=
  [.handle (.press (Keycode.modTap 1 4) 0 0 0), .handle (.press (Keycode.layerTap 1 4) 0 1 10),
    .handle (.release (Keycode.layerTap 1 4) 0 1 20)]

/-- Two keys of one base share their memory: the release of the second one finds the base held and
leaves the tracker as it is.  A scan then hands off the key that is up, and if the key is pressed
again instead, its tracking starts while it is still tracked. -/
theorem stale_key_of_twins :
    let after := (initial dualRoleSettings).run .stock twins
    let again : Transition := .press (Keycode.layerTap 1 4) 0 1 30
    Board.admitsAll [] (twins ++ [.handle again]) = true ∧
      Board.run [] twins = [.press (Keycode.modTap 1 4) 0 0 0] ∧
      after.isTrackingAt ⟨0, 1, false⟩ = true ∧
      .handOff (Keycode.layerTap 1 4) ⟨0, 1, true⟩ ∈ after.reported .stock (.scan 510) ∧
      .started again ∈ after.milestones .stock (.handle again) ∧
      (after.clearedFor .stock again).tracked.isSome = true := by
  decide

end LongPress.Shifter
