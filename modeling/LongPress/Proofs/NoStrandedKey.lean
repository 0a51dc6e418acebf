import LongPress.Proofs.Alternation
import LongPress.Proofs.Form
import LongPress.Proofs.Lasting
import LongPress.Proofs.Tracking

/-!
# LongPress.Proofs.NoStrandedKey

Which settings may be loaded while a key is down.

A key is *engaged* while it waits or its code is down.  Only a press with a shifted form engages a
key, and a release lets it go only if the key still has a shifted form then: both look the form up
in the settings of their own time.  So a key whose form was not taken from it in between
(`KeepsForms`) is let go with its release whatever else was loaded, and a key whose form was taken
is left behind (`stranded_by_loading`).

* `no_key_stranded` — the main statement.
-/

namespace LongPress

/-- The key of a base stays as it is while it does not move. -/
theorem Keys.run_of_isMoveOf {K : Keys} {b : UInt8} {history : List Operation}
    (h : ∀ op ∈ history, op.isMoveOf b = false) : K.run history b = K b := by
  induction history generalizing K with
  | nil => rfl
  | cons op rest ih =>
    have hrest : ∀ op' ∈ rest, op'.isMoveOf b = false :=
      fun op' hmem => h op' (List.mem_cons_of_mem op hmem)
    exact (ih hrest).trans (perform_of_isMoveOf (h op List.mem_cons_self))

namespace Shifter

open Sending (forms)

variable {p : Policy} {s t : Shifter} {event w : Transition} {op : Operation} {b : UInt8}

/-! ## Engaged keys -/

/-- The key of a base waits, or its code is down. -/
def Engaged (b : UInt8) (s : Shifter) : Prop :=
  (∃ w, s.waiting = some w ∧ w.keycode.base = b) ∨ s.down.contains b = true

/-- A key that waits has waited before, unless it has just been pressed. -/
theorem waiting_perform (h : NoDualRole s) (hop : op.isPressOf b = false)
    (hw : (s.perform p op).2.waiting = some w) (hb : w.keycode.base = b) :
    s.waiting = some w := by
  cases hpress : op.isPress with
  | false =>
    rcases waits_perform (p := p) h hpress with ⟨hsame, -⟩ | ⟨e, now, -, hnone, -⟩
    · rwa [← hsame]
    · rw [hnone] at hw
      cases hw
  | true =>
    cases op with
    | handle event =>
      obtain ⟨rfl, hcontrol, -⟩ := begun_of_waiting h hpress hw
      rw [Operation.isPress] at hpress
      simp [Operation.isPressOf, Operation.press?, hpress, hcontrol, hb] at hop
    | _ => cases hpress

/-- The press of a key engages it only if the key has a single role and a shifted form. -/
theorem engaged_press (h : NoDualRole s) (hoff : s.settings.has Flag.dualRole = false)
    (hdown : event.isDown = true) (hcontrol : event.keycode.isControl = false)
    (hnot : ¬ Engaged event.keycode.base s)
    (hengaged : Engaged event.keycode.base (s.perform p (.handle event)).2) :
    event.keycode.isDualRole = false ∧ s.hasForms p event.keycode = true ∧
      ∀ w, (s.perform p (.handle event)).2.waiting = some w → w = event := by
  have ha := agrees_settle p event.time false s
  have hforms : (s.settle p event.time false).hasForms p event.keycode =
      s.hasForms p event.keycode := hasForms_congr (by rw [ha.settings]) _
  have houtcome := pressOutcome p (s.settle p event.time false) hcontrol
  rw [perform, handle_press p h.tracked hdown] at hengaged ⊢
  rw [← hforms]
  cases dual : event.keycode.isDualRole with
  | true =>
    have hleft : ((s.settle p event.time false).pressOwn p event).2 =
        s.settle p event.time false := by
      rw [pressOwn_of_isDualRole p _ dual]
      simp [pressDualRole, ha.settings, hoff]
    dsimp only at hengaged
    rw [hleft] at hengaged
    rcases hengaged with ⟨w, hw, -⟩ | hcode
    · rw [ha.waiting] at hw
      cases hw
    · exact absurd (.inr (down_settle hcode)) hnot
  | false =>
    refine ⟨rfl, ?_, fun w hw => (houtcome.eq_begin ha.waiting hw).1⟩
    rcases hengaged with ⟨w, hw, -⟩ | hcode
    · obtain ⟨-, -, forms, -⟩ := houtcome.eq_begin ha.waiting hw
      exact forms
    · rcases houtcome.down hcode with hcode | ⟨-, hkind⟩
      · exact absurd (.inr (down_settle hcode)) hnot
      · exact hkind.resolve_left (by simp [dual])

section

variable (hstroke : p.stroke = Policy.stock.stroke)

include hstroke

/-- A code that is down was down before, or its key was waiting, unless that has just been
pressed. -/
theorem engaged_of_down (h : NoDualRole s) (hop : op.isPressOf b = false)
    (hdown : (s.perform p op).2.down.contains b = true) : Engaged b s := by
  cases op with
  | handle event =>
    cases hpress : event.isDown with
    | true =>
      rw [perform, handle_press p h.tracked hpress] at hdown
      cases hcontrol : event.keycode.isControl with
      | true =>
        obtain ⟨key, hkey, -⟩ := pressOwn_control p (s.settle p event.time false) hcontrol
        rw [hkey, down_control] at hdown
        exact .inr (down_settle hdown)
      | false =>
        rcases (pressOutcome p _ hcontrol).down hdown with hdown | ⟨⟨f, -, hb⟩, -⟩
        · exact .inr (down_settle hdown)
        · rw [code_of_stock hstroke] at hb
          simp [Operation.isPressOf, Operation.press?, hpress, hcontrol, hb] at hop
    | false =>
      rw [perform, handle_release p s hpress] at hdown
      cases hcontrol : event.keycode.isControl with
      | true =>
        rw [(handleRelease_control p s hcontrol).1] at hdown
        exact .inr hdown
      | false => exact .inr ((releaseOutcome p s hcontrol).down hdown)
  | scan now =>
    rcases down_scan hdown with hdown | ⟨w, f, hw, -, hb⟩
    · exact .inr hdown
    · rw [code_of_stock hstroke] at hb
      exact .inl ⟨w, hw, hb.symm⟩
  | verdict => exact .inr (down_verdict hdown)
  | enable => exact .inr (down_control .on s ▸ hdown)
  | disable => exact .inr (down_control .off s ▸ hdown)
  | toggle => exact .inr (down_control .toggle s ▸ hdown)
  | _ => exact .inr hdown

/-- Only its press engages a key. -/
theorem engaged_perform (h : NoDualRole s) (hop : op.isPressOf b = false)
    (hengaged : Engaged b (s.perform p op).2) : Engaged b s := by
  rcases hengaged with ⟨w, hw, hb⟩ | hdown
  · exact .inl ⟨w, waiting_perform h hop hw hb, hb⟩
  · exact engaged_of_down hstroke h hop hdown

/-- The release of a key lets it go, provided that it finds the key with its shifted form if it
finds it engaged. -/
theorem not_engaged_release (h : NoDualRole s) (hup : event.isDown = false)
    (hcontrol : event.keycode.isControl = false)
    (hkey : ∀ w, s.waiting = some w → w.keycode.base = event.keycode.base →
      w.keycode = event.keycode)
    (hkeeps : Engaged event.keycode.base s →
      event.keycode.isDualRole = false ∧ s.hasForms p event.keycode = true) :
    ¬ Engaged event.keycode.base (s.perform p (.handle event)).2 := by
  intro hengaged
  have hop : Operation.isPressOf event.keycode.base (.handle event) = false := by
    simp [Operation.isPressOf, Operation.press?, hup]
  obtain ⟨single, forms⟩ := hkeeps (engaged_perform hstroke h hop hengaged)
  obtain ⟨l, r, hr, o⟩ : ∃ l r, r = s.handleRelease p event ∧ ReleaseOutcome p event s l r :=
    ⟨_, _, rfl, releaseOutcome p s hcontrol⟩
  rw [perform, handle_release p s hup, ← hr] at hengaged
  cases o with
  | ends =>
    rcases hengaged with ⟨w, hw, hb⟩ | hcode
    · obtain ⟨hwaiting, hne⟩ := waiting_endKey hw
      exact hne (hkey w hwaiting hb)
    · have hgone := gone_endKey p event.keycode event.time (s.unpassed event)
      rw [code_of_stock hstroke] at hgone
      exact absurd (hcode.symm.trans hgone) (by simp)
  | ignores _ hnot => simp [forms] at hnot
  | tapped dual => simp [single] at dual
  | held dual => simp [single] at dual
  | endsDual dual => simp [single] at dual

end

/-! ## What is sent for other keys -/

theorem Decides.forms_eq_nil {l : List Sending} (h : Decides b s l t) (hnot : ¬ Undecided b s) :
    forms b l = [] := by
  rcases h with ⟨hnone, -⟩ | ⟨-, hundecided, -⟩
  · exact hnone
  · exact absurd hundecided hnot

/-- The waiting key of another base. -/
theorem forms_key_of_waiting (hnot : ∀ w, s.waiting = some w → w.keycode.base ≠ b) {now : Tick}
    (hw : s.waiting = some w) : forms b [.key w.keycode (s.formAt w now)] = [] :=
  Sending.forms_key_of_ne (hnot w hw) _

theorem forms_settleSends (hnot : ∀ w, s.waiting = some w → w.keycode.base ≠ b) (now : Tick) :
    forms b (s.settleSends now) = [] := by
  unfold settleSends
  split
  · next w hw => exact forms_key_of_waiting hnot hw
  · rfl

theorem forms_endKeySends (hnot : ∀ w, s.waiting = some w → w.keycode.base ≠ b) (k : Keycode)
    (now : Tick) : forms b (s.endKeySends k now) = [] := by
  unfold endKeySends
  split
  · next w hw =>
    split
    · exact forms_key_of_waiting hnot hw
    · rfl
  · rfl

theorem ReleaseOutcome.forms_eq_nil {l : List Sending} {r : Bool × Shifter}
    (o : ReleaseOutcome p event s l r) (hnot : ∀ w, s.waiting = some w → w.keycode.base ≠ b) :
    forms b l = [] := by
  cases o with
  | endsDual => exact forms_endKeySends hnot event.keycode event.time
  | ends => exact forms_endKeySends hnot event.keycode event.time
  | _ => rfl

/-- Nothing is sent for a key that neither waits nor is pressed. -/
theorem forms_sends (h : NoDualRole s) (hnot : ∀ w, s.waiting = some w → w.keycode.base ≠ b)
    (hop : op.isPressOf b = false) : forms b (s.sends p op) = [] := by
  cases op with
  | handle event =>
    cases hdown : event.isDown with
    | true =>
      have hnone : ¬ Undecided b (s.settle p event.time false) := by
        have ha := agrees_settle p event.time false s
        rintro ⟨w, hw, -⟩
        rw [ha.waiting, ha.tracked, h.tracked] at hw
        rcases hw with hw | hw <;> cases hw
      rw [sends, if_pos hdown, (clearedFor_of_tracked p event h.tracked).2, Sending.forms_append,
        forms_settleSends hnot, List.nil_append]
      cases hcontrol : event.keycode.isControl with
      | true =>
        obtain ⟨key, -, hsends⟩ := pressOwn_control p (s.settle p event.time false) hcontrol
        rw [hsends]
        exact (decides_control key _).forms_eq_nil hnone
      | false =>
        have hb : event.keycode.base ≠ b := by
          rintro rfl
          simp [Operation.isPressOf, Operation.press?, hdown, hcontrol] at hop
        exact ((pressOutcome p _ hcontrol).decides hb).forms_eq_nil hnone
    | false =>
      rw [sends, if_neg (by simp [hdown])]
      cases hcontrol : event.keycode.isControl with
      | true =>
        rw [(handleRelease_control p s hcontrol).2]
        rfl
      | false => exact (releaseOutcome p s hcontrol).forms_eq_nil hnot
  | scan now =>
    rw [sends]
    rcases scanWaiting_cases p now s with ⟨-, hsends⟩ | ⟨w, hw, -, hsends⟩
    · rw [hsends]
      rfl
    · rw [hsends]
      exact forms_key_of_waiting hnot hw
  | verdict keycode v pressTime switch now =>
    have hnone : s.trackedAs? keycode switch = none := by
      rw [trackedAs?, h.tracked]
      rfl
    rw [sends, verdictSends, hnone]
    rfl
  | _ => rfl

/-! ## Histories -/

/-- A key with a single role went down with a shifted form, and has not moved since. -/
structure PressedWithForms (p : Policy) (s : Shifter) (history : List Operation)
    (press : Transition) : Prop where
  single : press.keycode.isDualRole = false
  split : ∃ before between, history = before ++ .handle press :: between ∧
    press.isDown = true ∧ press.keycode.isControl = false ∧
    (∀ op ∈ between, op.isMoveOf press.keycode.base = false) ∧
    (s.run p before).hasForms p press.keycode = true

/-- No shifted form is taken from a key of a base between its press and its release. -/
def KeepsForms (p : Policy) (b : UInt8) (s : Shifter) (history : List Operation) : Prop :=
  ∀ before press between release rest,
    history = before ++ .handle press :: (between ++ .handle release :: rest) →
    press.isDown = true → press.keycode.base = b → release.isDown = false →
    release.keycode = press.keycode → (∀ op ∈ between, op.isMoveOf b = false) →
    (s.run p before).hasForms p press.keycode = true →
      (s.run p (before ++ .handle press :: between)).hasForms p press.keycode = true

variable {history : List Operation} {press : Transition}

theorem KeepsForms.left {first rest : List Operation} (h : KeepsForms p b s (first ++ rest)) :
    KeepsForms p b s first := by
  rintro before press between release rest' rfl
  exact h before press between release (rest' ++ rest) (by simp)

/-- A basic key keeps its shifted form while its kind is admitted. -/
theorem KeepsForms.of_admits (hp : ∀ k, p.isExtra k = false)
    (h : ∀ first ∈ history.inits, (s.run p first).settings.admits b = true) :
    KeepsForms p b s history := by
  rintro before press between release rest heq - rfl - - - hforms
  have hprefix : before ++ .handle press :: between <+: history :=
    ⟨.handle release :: rest, by simp [heq]⟩
  have hadmits := h _ ((List.mem_inits _ _).mpr hprefix)
  simp only [hasForms, hp, Bool.and_false, Bool.or_false] at hforms ⊢
  obtain ⟨code, hcode, -⟩ := (Option.any_eq_true _ _).mp hforms
  have hbase : code = press.keycode.base := by
    unfold formCode? at hcode
    split at hcode
    · exact (Option.some.inj hcode).symm
    · cases hcode
  rw [hcode, Option.any_some, hbase]
  exact hadmits

namespace PressedWithForms

theorem isDown (h : PressedWithForms p s history press) :
    Keys.up.run history press.keycode.base = some press := by
  obtain ⟨before, between, rfl, hdown, hcontrol, hbetween, -⟩ := h.split
  rw [Keys.run_append]
  exact (Keys.run_of_isMoveOf hbetween).trans
    ((congrFun (Keys.perform_handle hcontrol) _).trans (Keys.move_press _ hdown))

theorem extend (h : PressedWithForms p s history press)
    (hop : op.isMoveOf press.keycode.base = false) :
    PressedWithForms p s (history ++ [op]) press := by
  obtain ⟨before, between, rfl, hdown, hcontrol, hbetween, hforms⟩ := h.split
  refine ⟨h.single, before, between ++ [op], by simp, hdown, hcontrol, fun op' hmem => ?_, hforms⟩
  cases List.mem_append.mp hmem with
  | inl hmem => exact hbetween op' hmem
  | inr hmem => rwa [List.mem_singleton.mp hmem]

end PressedWithForms

/-- After a history the key of a base is engaged only if it is down since a press with a shifted
form. -/
structure Attended (p : Policy) (b : UInt8) (s : Shifter) (history : List Operation) : Prop where
  waiting {w : Transition} : (s.run p history).waiting = some w → w.keycode.base = b →
    PressedWithForms p s history w
  down : (s.run p history).down.contains b = true →
    ∃ press, press.keycode.base = b ∧ PressedWithForms p s history press

namespace Attended

theorem of_engaged (h : Attended p b s history) (hengaged : Engaged b (s.run p history)) :
    ∃ press, press.keycode.base = b ∧ PressedWithForms p s history press := by
  rcases hengaged with ⟨w, hw, hb⟩ | hdown
  · exact ⟨w, hb, h.waiting hw hb⟩
  · exact h.down hdown

theorem of_not_engaged (h : ¬ Engaged b (s.run p history)) : Attended p b s history where
  waiting hw hb := absurd (.inl ⟨_, hw, hb⟩) h
  down hdown := absurd (.inr hdown) h

theorem not_engaged (h : Attended p b s history) (hup : Keys.up.run history b = none) :
    ¬ Engaged b (s.run p history) := by
  intro hengaged
  obtain ⟨press, rfl, hpress⟩ := h.of_engaged hengaged
  rw [hpress.isDown] at hup
  cases hup

/-- The key goes down. -/
theorem pressed (h : Attended p event.keycode.base s history) (hfree : NoDualRole (s.run p history))
    (hoff : (s.run p history).settings.has Flag.dualRole = false) (hdown : event.isDown = true)
    (hcontrol : event.keycode.isControl = false)
    (hup : Keys.up.run history event.keycode.base = none) :
    Attended p event.keycode.base s (history ++ [.handle event]) := by
  have hown (hengaged : Engaged event.keycode.base (s.run p (history ++ [.handle event]))) :
      PressedWithForms p s (history ++ [.handle event]) event ∧
        ∀ w, (s.run p (history ++ [.handle event])).waiting = some w → w = event := by
    rw [run_append] at hengaged ⊢
    obtain ⟨single, forms, hwaits⟩ :=
      engaged_press hfree hoff hdown hcontrol (h.not_engaged hup) hengaged
    exact ⟨⟨single, history, [], rfl, hdown, hcontrol, nofun, forms⟩, hwaits⟩
  constructor
  · intro w hw hb
    obtain ⟨hdone, hwaits⟩ := hown (.inl ⟨w, hw, hb⟩)
    rwa [hwaits w hw]
  · exact fun hcode => ⟨event, rfl, (hown (.inr hcode)).1⟩

variable (hstroke : p.stroke = Policy.stock.stroke)

include hstroke

/-- The key does not move. -/
theorem other (h : Attended p b s history) (hfree : NoDualRole (s.run p history))
    (hop : op.isMoveOf b = false) : Attended p b s (history ++ [op]) := by
  have hpress := Operation.isPressOf_of_isMoveOf hop
  constructor
  · rintro w hw rfl
    rw [run_append] at hw
    exact (h.waiting (waiting_perform hfree hpress hw rfl) rfl).extend hop
  · intro hdown
    rw [run_append] at hdown
    obtain ⟨press, rfl, hdone⟩ := h.of_engaged (engaged_of_down hstroke hfree hpress hdown)
    exact ⟨press, rfl, hdone.extend hop⟩

/-- The key goes up. -/
theorem released (h : Attended p event.keycode.base s history)
    (hfree : NoDualRole (s.run p history)) (hup : event.isDown = false)
    (hcontrol : event.keycode.isControl = false)
    (hadmits : (Keys.up.run history).admits event = true)
    (hkeeps : KeepsForms p event.keycode.base s (history ++ [.handle event])) :
    Attended p event.keycode.base s (history ++ [.handle event]) := by
  obtain ⟨e, he, hkey, -⟩ := Keys.eq_some_of_admits hadmits hup
  have hown {press : Transition} (hb : press.keycode.base = event.keycode.base)
      (hdone : PressedWithForms p s history press) : press.keycode = event.keycode := by
    have hdown := hdone.isDown
    rw [hb, he] at hdown
    cases hdown
    exact hkey.symm
  refine of_not_engaged ?_
  rw [run_append]
  refine not_engaged_release hstroke hfree hup hcontrol (fun w hw hb => ?_) fun hengaged => ?_
  · exact hown hb (h.waiting hw hb)
  · obtain ⟨press, hb, hdone⟩ := h.of_engaged hengaged
    have hcode := hown hb hdone
    obtain ⟨before, between, rfl, hdown, -, hbetween, forms⟩ := hdone.split
    rw [hb] at hbetween
    rw [← hcode]
    exact ⟨hdone.single,
      hkeeps before press between event [] (by simp) hdown hb hup hcode.symm hbetween forms⟩

theorem run {settings : Settings} (hoff : NeverTracks p (initial settings) history)
    (hadmits : Keys.up.admitsAll history = true)
    (hkeeps : KeepsForms p b (initial settings) history) :
    Attended p b (initial settings) history := by
  induction history using List.reverseRecOn with
  | nil => exact of_not_engaged (by simp [Engaged, initial])
  | append_singleton history op ih =>
    rw [Keys.admitsAll_append, Keys.admitsAll, Bool.and_eq_true, Bool.and_eq_true] at hadmits
    obtain ⟨hhistory, hop, -⟩ := hadmits
    have hattended := ih hoff.left hhistory hkeeps.left
    have hfree := (noDualRole_initial settings).run hoff.left
    cases hmove : op.isMoveOf b with
    | false => exact hattended.other hstroke hfree hmove
    | true =>
      obtain ⟨event, rfl, hcontrol, rfl⟩ := Operation.eq_of_isMoveOf hmove
      rw [Operation.move?_handle hcontrol] at hop
      cases hdown : event.isDown with
      | true =>
        exact hattended.pressed hfree (hoff history (List.prefix_append _ _)) hdown hcontrol
          (Keys.eq_none_of_admits hop hdown)
      | false => exact hattended.released hstroke hfree hdown hcontrol hop hkeeps

end Attended

/-- **No key is left behind by the settings.**  In a history that never tracks dual role keys and
comes at its time, a key that keeps its shifted form while it is down is done with once it is up,
whatever is loaded: it does not wait, its code is not down, and until it is pressed again nothing
is sent for it.  Only the text of the timeout may hold its code. -/
theorem no_key_stranded (p : Policy) (hstroke : p.stroke = Policy.stock.stroke)
    (settings : Settings) (history : List Operation) (b : UInt8)
    (hoff : NeverTracks p (initial settings) history)
    (hadmits : Keys.up.admitsAll history = true)
    (hkeeps : KeepsForms p b (initial settings) history)
    (hup : Keys.up.run history b = none) :
    let s := (initial settings).run p history
    (∀ w, s.waiting = some w → w.keycode.base ≠ b) ∧ s.down.contains b = false ∧
      ∀ op : Operation, op.isPressOf b = false → forms b (s.sends p op) = [] ∧
        (op.typesTimeout = false → ∀ stroke ∈ downs (s.reported p op), stroke.code ≠ b) := by
  intro s
  have hnot := (Attended.run hstroke hoff hadmits hkeeps).not_engaged hup
  have hwaiting : ∀ w, s.waiting = some w → w.keycode.base ≠ b :=
    fun w hw hb => hnot (.inl ⟨w, hw, hb⟩)
  refine ⟨hwaiting, Bool.eq_false_iff.mpr fun hdown => hnot (.inr hdown), fun op hop => ?_⟩
  have hforms : forms b (s.sends p op) = [] :=
    forms_sends ((noDualRole_initial settings).run hoff) hwaiting hop
  refine ⟨hforms, fun htypes stroke hmem hb => ?_⟩
  rw [downs_reported, List.mem_map] at hmem
  obtain ⟨x, hx, rfl⟩ := hmem
  cases x with
  | key k f =>
    have hcode : k.base = b := (code_of_stock hstroke k f).symm.trans hb
    have hsent := mem_forms hx
    rw [hcode, hforms] at hsent
    cases hsent
  | typed code =>
    have htyped : (s.sends p op).any Sending.isTyped = true := List.any_eq_true.mpr ⟨_, hx, rfl⟩
    rw [any_isTyped_sends htypes] at htyped
    cases htyped

/-- The switches go to letters alone while a letter is held down and a digit waits. -/
def reloaded : List Operation :=
  [.handle (.press 4 0 0 0), .scan 175, .handle (.press 0x1e 0 1 200),
    .loadSettings [1, 1, 4, Flag.letters], .handle (.release 4 0 0 220),
    .handle (.release 0x1e 0 1 230)]

theorem no_key_stranded_of_reloaded :
    let s := (initial {}).run .stock reloaded
    NeverTracks .stock (initial {}) reloaded ∧ Keys.up.admitsAll reloaded = true ∧
      KeepsForms .stock 4 (initial {}) reloaded ∧ Keys.up.run reloaded 4 = none ∧
      ((initial {}).run .stock (reloaded.take 4)).down.contains 4 = true ∧
      s.down.contains 4 = false ∧ s.waiting = some (.press 0x1e 0 1 200) ∧
      ∀ stroke ∈ downs (s.reported .stock (.scan 400)), stroke.code ≠ 4 := by
  intro s
  have hoff : NeverTracks .stock (initial {}) reloaded := .of_inits (by decide)
  have hadmits : Keys.up.admitsAll reloaded = true := by decide
  have hkeeps : KeepsForms .stock 4 (initial {}) reloaded := .of_admits (fun _ => rfl) (by decide)
  have hup : Keys.up.run reloaded 4 = none := by decide
  obtain ⟨-, hdown, hother⟩ := no_key_stranded .stock rfl {} reloaded 4 hoff hadmits hkeeps hup
  exact ⟨hoff, hadmits, hkeeps, hup, by decide, hdown, by decide,
    (hother (.scan 400) (by decide)).2 (by decide)⟩

/-- A letter goes down, all switches go off, and the letter goes up. -/
def switchedOff : List Operation :=
  [.handle (.press 4 0 0 0), .loadSettings [1, 1, 4, 0], .handle (.release 4 0 0 50)]

/-- The same, but the letter has been sent before the switches go off. -/
def heldAndSwitchedOff : List Operation :=
  [.handle (.press 4 0 0 0), .scan 175, .loadSettings [1, 1, 4, 0], .handle (.release 4 0 0 250)]

/-- A key whose shifted form is taken from it while it is down is left behind by its release.  It
waits on, and a later scan sends it; or its code stays down. -/
theorem stranded_by_loading :
    let after (history : List Operation) := (initial {}).run .stock history
    (NeverTracks .stock (initial {}) switchedOff ∧ Keys.up.admitsAll switchedOff = true ∧
        Keys.up.run switchedOff 4 = none ∧
        (after switchedOff).waiting = some (.press 4 0 0 0) ∧
        downs ((after switchedOff).reported .stock (.scan 200)) = [⟨4, true⟩]) ∧
      NeverTracks .stock (initial {}) heldAndSwitchedOff ∧
      Keys.up.admitsAll heldAndSwitchedOff = true ∧ Keys.up.run heldAndSwitchedOff 4 = none ∧
      (after heldAndSwitchedOff).down.contains 4 = true := by
  exact ⟨⟨.of_inits (by decide), by decide, by decide, by decide, by decide⟩,
    .of_inits (by decide), by decide, by decide, by decide⟩

end Shifter

end LongPress
