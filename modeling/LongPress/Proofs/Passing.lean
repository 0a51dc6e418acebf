import Mathlib.Data.List.Chain
import LongPress.Proofs.NoStuckKey
import LongPress.Proofs.Tracking

/-!
# LongPress.Proofs.Passing

The release of a key goes where its press went.

A press of a single role key with a shifted form is passed on exactly while the feature is off, and
its base is then put among `passing`; the release of the key is passed on exactly if its base is
still there.  Nothing but the moves of such keys touches `passing` (`passing_perform`), so whatever
else is done between the two, the release finds what the press left.

* `release_answered_as_press` — the main statement.
-/

namespace LongPress

/-! ## Moves in turn -/

/-- Whether a move can come after another: a press after a release, and a release after the press of
its code. -/
def Transition.follows (event before : Transition) : Bool :=
  if event.isDown then !before.isDown else before.isDown && event.keycode == before.keycode

/-- The first move is a press, and from then on each move can come after the one before it. -/
def InTurn (moves : List Transition) : Prop :=
  (∀ first, moves.head? = some first → first.isDown = true) ∧
    moves.IsChain fun before event => event.follows before = true

namespace InTurn

variable {moves rest : List Transition} {event last : Transition}

theorem left (h : InTurn (moves ++ rest)) : InTurn moves := by
  refine ⟨fun first hfirst => h.1 first ?_, (List.isChain_append.mp h.2).1⟩
  rw [List.head?_append, hfirst]
  rfl

/-- The move before another one. -/
theorem follows_last (h : InTurn (moves ++ event :: rest)) (hlast : moves.getLast? = some last) :
    event.follows last = true :=
  (List.isChain_append.mp h.2).2.2 last hlast event rfl

/-- A press comes first or after a release. -/
theorem up_before_press (h : InTurn (moves ++ event :: rest)) (hdown : event.isDown = true)
    (hlast : moves.getLast? = some last) : last.isDown = false := by
  have hfollows := h.follows_last hlast
  rw [Transition.follows, if_pos hdown] at hfollows
  simpa using hfollows

/-- A release comes after the press of its code. -/
theorem press_before_release (h : InTurn (moves ++ event :: rest)) (hup : event.isDown = false)
    (hlast : moves.getLast? = some last) :
    last.isDown = true ∧ event.keycode = last.keycode := by
  have hfollows := h.follows_last hlast
  rw [Transition.follows, if_neg (by simp [hup])] at hfollows
  simpa using hfollows

/-- No move comes between a release and the press before it. -/
theorem eq_nil_of_release {between : List Transition}
    (h : InTurn (moves ++ (between ++ [event]))) (hup : event.isDown = false)
    (hno : ∀ m ∈ between, m.isDown = true → m.keycode ≠ event.keycode) : between = [] := by
  cases List.eq_nil_or_concat between with
  | inl hnil => exact hnil
  | inr hconcat =>
    obtain ⟨first, last, rfl⟩ := hconcat
    rw [List.concat_eq_append] at h hno
    rw [← List.append_assoc] at h
    have hlast : (moves ++ (first ++ [last])).getLast? = some last := by
      rw [← List.append_assoc, List.getLast?_concat]
    obtain ⟨hdown, hkey⟩ := h.press_before_release hup hlast
    have hmem : last ∈ first ++ [last] := List.mem_append_right _ (List.mem_singleton_self last)
    exact absurd hkey.symm (hno last hmem hdown)

end InTurn

namespace Shifter

variable {p : Policy} {s t : Shifter} {event : Transition} {op : Operation} {b : UInt8}
  {l : List Sending}

/-! ## Moves of keys with forms -/

/-- Whether a key has a single role, a shifted form and a base. -/
def isFormed (p : Policy) (b : UInt8) (k : Keycode) (s : Shifter) : Bool :=
  !k.isDualRole && s.hasForms p k && k.base == b

theorem isFormed_iff {k : Keycode} :
    s.isFormed p b k = true ↔
      k.isDualRole = false ∧ s.hasForms p k = true ∧ k.base = b := by
  simp [isFormed, and_assoc]

theorem isFormed_congr (h : t.settings.switches = s.settings.switches) (b : UInt8) (k : Keycode) :
    t.isFormed p b k = s.isFormed p b k := by
  rw [isFormed, isFormed, hasForms_congr h]

/-- The move of a key of a base with a shifted form, if an operation is one. -/
def formedMove? (p : Policy) (b : UInt8) (s : Shifter) (op : Operation) : Option Transition :=
  op.move?.filter (s.isFormed p b ·.keycode)

/-- The moves of the keys of a base with a shifted form. -/
def formedMoves (p : Policy) (b : UInt8) (s : Shifter) (history : List Operation) :
    List Transition :=
  history.filterMap (s.formedMove? p b)

theorem formedMoves_append (p : Policy) (b : UInt8) (s : Shifter) (first rest : List Operation) :
    s.formedMoves p b (first ++ rest) = s.formedMoves p b first ++ s.formedMoves p b rest :=
  List.filterMap_append

theorem formedMove?_congr (h : t.settings.switches = s.settings.switches) (b : UInt8) :
    t.formedMove? p b = s.formedMove? p b := by
  funext op
  simp only [formedMove?, isFormed_congr h]

theorem formedMove?_handle (hcontrol : event.keycode.isControl = false) :
    s.formedMove? p b (.handle event) =
      if s.isFormed p b event.keycode then some event else none := by
  rw [formedMove?, Operation.move?_handle hcontrol, Option.filter_some]

theorem formedMove?_control (hcontrol : event.keycode.isControl = true) :
    s.formedMove? p b (.handle event) = none := by
  simp [formedMove?, Operation.move?, hcontrol]

/-! ## The keys that pass -/

theorem hasForms_clearedFor (p : Policy) (event : Transition) (s : Shifter) (k : Keycode) :
    (s.clearedFor p event).hasForms p k = s.hasForms p k :=
  hasForms_congr (by rw [(clearedFor_keeps p event s).1]) k

theorem isFormed_clearedFor (p : Policy) (event : Transition) (s : Shifter) (b : UInt8)
    (k : Keycode) : (s.clearedFor p event).isFormed p b k = s.isFormed p b k :=
  isFormed_congr (by rw [(clearedFor_keeps p event s).1]) b k

/-- A press makes its own base pass if it has forms while the feature is off. -/
theorem PressOutcome.passing {r : Bool × Shifter} (o : PressOutcome p event s l r) :
    r.2.passing.contains b =
      (s.passing.contains b || (s.isFormed p b event.keycode && !s.isEnabled)) := by
  have hnoted := agrees_noteModifier event.keycode true s
  cases o with
  | leaves dual => simp [isFormed, dual]
  | repeatsDual dual => simp [isFormed, dual, (agrees_repeatLast p s).passing]
  | tracks dual => simp [isFormed, dual]
  | ignores _ forms => simp [isFormed, forms, forgotten, hnoted.passing]
  | passes single forms off =>
    simp [isFormed, single, forms, off, Bool.or_comm, beq_eq_decide, eq_comm]
  | bypasses _ _ on =>
    rw [(agrees_keyDown p (s.forgotten event) event.keycode false).passing]
    simp [on, forgotten, hnoted.passing]
  | repeats _ _ on =>
    rw [(hnoted.trans (agrees_repeatLast p _)).passing]
    simp [on]
  | begins _ _ on =>
    rw [(agrees_begin event (s.noteModifier event.keycode true)).passing]
    simp [on, hnoted.passing]

/-- A release takes its own base out if it has forms. -/
theorem ReleaseOutcome.passing {r : Bool × Shifter} (o : ReleaseOutcome p event s l r) :
    r.2.passing.contains b =
      (s.passing.contains b && !s.isFormed p b event.keycode) := by
  have hdropped := agrees_dropped event s
  cases o with
  | tapped dual => simp [isFormed, dual, hdropped.passing]
  | held dual => simp [isFormed, dual, hdropped.passing]
  | endsDual dual =>
    rw [(agrees_endKey p event.keycode event.time _).passing, untracked_eq]
    simp [isFormed, dual, hdropped.passing]
  | ends single forms =>
    rw [(agrees_endKey p event.keycode event.time _).passing]
    simp [isFormed, single, forms, unpassed, Bool.and_comm, beq_eq_decide, eq_comm]
  | ignores _ forms =>
    rw [(agrees_noteModifier event.keycode false _).passing]
    simp [isFormed, forms, hdropped.passing]

theorem passing_handle (p : Policy) (event : Transition) (s : Shifter) :
    (s.handle p event).2.passing.contains b =
      match s.formedMove? p b (.handle event) with
      | some e => e.isDown && (s.passing.contains b || !s.isEnabled)
      | none => s.passing.contains b := by
  obtain ⟨-, hon, hpassing⟩ := clearedFor_keeps p event s
  unfold handle
  cases hcontrol : event.keycode.isControl with
  | true =>
    rw [formedMove?_control hcontrol]
    dsimp only
    split
    · obtain ⟨key, hkey, -⟩ := pressOwn_control p (s.clearedFor p event) hcontrol
      rw [handlePress_eq, hkey, (agrees_control key _).passing]
      dsimp only
      rw [hpassing]
    · rw [(handleRelease_control p s hcontrol).1]
  | false =>
    rw [formedMove?_handle hcontrol]
    cases hdown : event.isDown with
    | true =>
      rw [if_pos rfl, handlePress_eq, (pressOutcome p _ hcontrol).passing, hpassing, hon,
        isFormed_clearedFor]
      cases s.isFormed p b event.keycode <;> simp [hdown]
    | false =>
      rw [if_neg (by simp), (releaseOutcome p s hcontrol).passing]
      cases s.isFormed p b event.keycode <;> simp [hdown]

/-- Only the moves of its keys with forms tell whether a base passes: a press puts it in while the
feature is off, and a release takes it out. -/
theorem passing_perform (p : Policy) (s : Shifter) (b : UInt8) (op : Operation) :
    (s.perform p op).2.passing.contains b =
      match s.formedMove? p b op with
      | some e => e.isDown && (s.passing.contains b || !s.isEnabled)
      | none => s.passing.contains b := by
  cases op with
  | handle event => exact passing_handle p event s
  | scan now =>
    have hscan : (s.scan p now).passing = s.passing :=
      scan_keeps (P := fun t => t.passing = s.passing) rfl
        (fun e _ => (agrees_decideKey p e now true s).passing) fun _ _ ht _ => ht
    exact congrArg (CodeSet.contains · b) hscan
  | verdict keycode v pressTime switch now =>
    show (s.verdict p keycode v pressTime switch now).2.passing.contains b = _
    unfold verdict
    split
    · rfl
    · next e _ =>
      cases v with
      | tap => rfl
      | hold =>
        have hresolved := agrees_resolve p (e.pressedAt pressTime) now s.stopTracking
        exact congrArg (CodeSet.contains · b) hresolved.passing
  | enable => exact congrArg (CodeSet.contains · b) (agrees_control .on s).passing
  | disable => exact congrArg (CodeSet.contains · b) (agrees_control .off s).passing
  | toggle => exact congrArg (CodeSet.contains · b) (agrees_control .toggle s).passing
  | _ => rfl

/-! ## What the moves leave -/

/-- A base that passes was pressed last, of all moves of its keys with forms. -/
theorem last_of_passing {settings : Settings} {history : List Operation}
    (hload : ∀ image, .loadSettings image ∉ history)
    (hturns : InTurn ((initial settings).formedMoves p b history))
    (hpassing : ((initial settings).run p history).passing.contains b = true) :
    ∃ last, ((initial settings).formedMoves p b history).getLast? = some last ∧
      last.isDown = true := by
  induction history using List.reverseRecOn with
  | nil => simp [initial] at hpassing
  | append_singleton first op ih =>
    have hload' : ∀ image, .loadSettings image ∉ first :=
      fun image hmem => hload image (List.mem_append_left _ hmem)
    have hsame : ((initial settings).run p first).formedMove? p b op =
        (initial settings).formedMove? p b op :=
      congrFun (formedMove?_congr (switches_run p _ hload') b) op
    rw [run_append, run_cons, run_nil, passing_perform, hsame] at hpassing
    rw [formedMoves_append] at hturns ⊢
    cases hmove : (initial settings).formedMove? p b op with
    | none =>
      rw [hmove] at hpassing
      have hnone : (initial settings).formedMoves p b [op] = [] := by simp [formedMoves, hmove]
      rw [hnone, List.append_nil]
      exact ih hload' hturns.left hpassing
    | some event =>
      rw [hmove, Bool.and_eq_true] at hpassing
      have hsome : (initial settings).formedMoves p b [op] = [event] := by
        simp [formedMoves, hmove]
      exact ⟨event, by rw [hsome, List.getLast?_concat], hpassing.1⟩

/-- Without such moves a base passes or not as before. -/
theorem passing_run (p : Policy) (s : Shifter) {history : List Operation}
    (hload : ∀ image, .loadSettings image ∉ history) (hnone : s.formedMoves p b history = []) :
    (s.run p history).passing.contains b = s.passing.contains b := by
  induction history generalizing s with
  | nil => rfl
  | cons op rest ih =>
    have hkeeps : Keeps s (s.perform p op).2 :=
      keeps_perform p s fun image he => hload image (he ▸ List.mem_cons_self)
    have hop : s.formedMove? p b op = none := by
      by_contra hsome
      obtain ⟨event, hevent⟩ := Option.ne_none_iff_exists'.mp hsome
      simp [formedMoves, hevent] at hnone
    have hrest : (s.perform p op).2.formedMoves p b rest = [] := by
      rw [formedMoves, formedMove?_congr hkeeps.switches]
      rwa [formedMoves, List.filterMap_cons_none hop] at hnone
    rw [run_cons, ih _ (fun image hmem => hload image (List.mem_cons_of_mem op hmem)) hrest,
      passing_perform, hop]

/-! ## Replies -/

/-- A press goes on if its key has no forms, or the feature is off. -/
theorem PressOutcome.reply {r : Bool × Shifter} (o : PressOutcome p event s l r)
    (hsingle : event.keycode.isDualRole = false) :
    r.1 = (!s.hasForms p event.keycode || !s.isEnabled) := by
  cases o with
  | leaves dual => simp [hsingle] at dual
  | repeatsDual dual => simp [hsingle] at dual
  | tracks dual => simp [hsingle] at dual
  | ignores _ forms => simp [forms]
  | passes _ forms off => simp [off]
  | bypasses _ forms on => simp [forms, on]
  | repeats _ forms on => simp [forms, on]
  | begins _ forms on => simp [forms, on]

/-- A release goes on if its key has no forms, or its base passes. -/
theorem ReleaseOutcome.reply {r : Bool × Shifter} (o : ReleaseOutcome p event s l r)
    (hsingle : event.keycode.isDualRole = false) :
    r.1 = (!s.hasForms p event.keycode || s.passing.contains event.keycode.base) := by
  cases o with
  | tapped dual => simp [hsingle] at dual
  | held dual => simp [hsingle] at dual
  | endsDual dual => simp [hsingle] at dual
  | ends _ forms => simp [forms]
  | ignores _ forms => simp [forms]

theorem reply_of_press (p : Policy) (s : Shifter) (hdown : event.isDown = true)
    (hcontrol : event.keycode.isControl = false) (hsingle : event.keycode.isDualRole = false) :
    (s.handle p event).1 = (!s.hasForms p event.keycode || !s.isEnabled) := by
  obtain ⟨-, hon, -⟩ := clearedFor_keeps p event s
  rw [handle, if_pos hdown, handlePress_eq, (pressOutcome p _ hcontrol).reply hsingle,
    hasForms_clearedFor, hon]

theorem reply_of_release (p : Policy) (s : Shifter) (hup : event.isDown = false)
    (hcontrol : event.keycode.isControl = false) (hsingle : event.keycode.isDualRole = false) :
    (s.handle p event).1 =
      (!s.hasForms p event.keycode || s.passing.contains event.keycode.base) := by
  rw [handle, if_neg (by simp [hup]), (releaseOutcome p s hcontrol).reply hsingle]

/-! ## A press and its release -/

/-- Right after the press of a key with forms, its base passes exactly if the feature is off. -/
theorem passing_press {settings : Settings} {before : List Operation} {press : Transition}
    (hload : ∀ image, .loadSettings image ∉ before)
    (hturns : InTurn ((initial settings).formedMoves p b (before ++ [.handle press])))
    (hmove : (initial settings).formedMove? p b (.handle press) = some press)
    (hdown : press.isDown = true) :
    (((initial settings).run p before).perform p (.handle press)).2.passing.contains b =
      !((initial settings).run p before).isEnabled := by
  have hone : (initial settings).formedMoves p b [.handle press] = [press] := by
    simp [formedMoves, hmove]
  rw [formedMoves_append, hone] at hturns
  have hnot : ((initial settings).run p before).passing.contains b = false := by
    refine Bool.eq_false_iff.mpr fun hpassing => ?_
    obtain ⟨last, hlast, hlastdown⟩ := last_of_passing hload hturns.left hpassing
    simp [hturns.up_before_press hdown hlast] at hlastdown
  rw [passing_perform, formedMove?_congr (switches_run p _ hload), hmove]
  simp [hdown, hnot]

/-- **A release is answered as its press was.**  In a history that keeps the switches of the
settings, and in which the moves of the keys with forms come in turn, the release of a key with a
single role goes on exactly if the press before it did; that is, if the key has no forms, or the
feature was off at its press. -/
theorem release_answered_as_press (p : Policy) (settings : Settings)
    (before between : List Operation) (press release : Transition)
    (hload : ∀ image, .loadSettings image ∉ before ++ .handle press :: between)
    (hturns : InTurn ((initial settings).formedMoves p release.keycode.base
      (before ++ .handle press :: (between ++ [.handle release]))))
    (hdown : press.isDown = true) (hup : release.isDown = false)
    (hkey : press.keycode = release.keycode)
    (hbetween : ∀ op ∈ between, op.moveOf? release.keycode ≠ some true)
    (hcontrol : release.keycode.isControl = false)
    (hsingle : release.keycode.isDualRole = false) :
    let s := (initial settings).run p before
    let t := s.run p (.handle press :: between)
    (t.handle p release).1 = (s.handle p press).1 ∧
      (s.handle p press).1 =
        (!(initial settings).hasForms p release.keycode || !s.isEnabled) := by
  intro s t
  have hbefore : ∀ image, .loadSettings image ∉ before :=
    fun image hmem => hload image (List.mem_append_left _ hmem)
  have hrest : ∀ image, .loadSettings image ∉ .handle press :: between :=
    fun image hmem => hload image (List.mem_append_right _ hmem)
  have hs : s.settings.switches = (initial settings).settings.switches := switches_run p _ hbefore
  have ht : t.settings.switches = s.settings.switches := switches_run p s hrest
  have hpress := reply_of_press p s hdown (hkey ▸ hcontrol) (hkey ▸ hsingle)
  have hrelease := reply_of_release p t hup hcontrol hsingle
  rw [hkey, hasForms_congr hs] at hpress
  rw [hasForms_congr ht, hasForms_congr hs] at hrelease
  refine ⟨?_, hpress⟩
  rw [hpress, hrelease]
  cases hforms : (initial settings).hasForms p release.keycode with
  | false => rfl
  | true =>
    have hmove (event : Transition) (he : event.keycode = release.keycode) :
        (initial settings).formedMove? p release.keycode.base (.handle event) = some event := by
      rw [formedMove?_handle (he ▸ hcontrol), he, if_pos (isFormed_iff.mpr ⟨hsingle, hforms, rfl⟩)]
    have hone : (initial settings).formedMoves p release.keycode.base [.handle release] =
        [release] := by
      simp [formedMoves, hmove release rfl]
    rw [List.append_cons, formedMoves_append p _ _ (before ++ [Operation.handle press]),
      formedMoves_append p _ _ between, hone] at hturns
    have hnone : (initial settings).formedMoves p release.keycode.base between = [] := by
      refine hturns.eq_nil_of_release hup fun m hm hmdown hmkey => ?_
      obtain ⟨op, hop, hopm⟩ := List.mem_filterMap.mp hm
      obtain ⟨hopmove, -⟩ := Option.filter_eq_some_iff.mp hopm
      obtain ⟨rfl, -⟩ := Operation.eq_of_move? hopmove
      exact hbetween _ hop (by simp [Operation.moveOf?, hmkey, hmdown])
    have hput := passing_press hbefore hturns.left (hmove press hkey) hdown
    have hkeeps : Keeps s (s.perform p (.handle press)).2 := keeps_perform p s nofun
    have hkept : t.passing.contains release.keycode.base = !s.isEnabled := by
      rw [← hput]
      refine passing_run p _ (fun image hmem => hrest image (List.mem_cons_of_mem _ hmem)) ?_
      rw [formedMoves, formedMove?_congr (hkeeps.switches.trans hs)]
      exact hnone
    rw [hkept]

/-- The feature is turned off and on again, once by a control key, so that one of two letters is
down while it goes off and the other while it comes back; a dual role key and a key without forms
move in between. -/
def turning : List Operation :=
  [.handle (.press 4 0 0 0), .handle (.press ControlKey.off.keycode 0 2 10),
    .handle (.press (Keycode.layerTap 1 4) 0 3 15), .handle (.press 5 0 1 20),
    .handle (.release (Keycode.layerTap 1 4) 0 3 25), .handle (.press Keycode.enter 0 4 28),
    .handle (.release 4 0 0 30), .enable, .setTimeout 90, .handle (.release 5 0 1 40)]

theorem release_answered_as_press_of_turning :
    InTurn ((initial {}).formedMoves .stock 4 (turning.take 7)) ∧
      InTurn ((initial {}).formedMoves .stock 5 turning) ∧
      (((initial {}).run .stock (turning.take 6)).handle .stock (.release 4 0 0 30)).1 = false ∧
      (((initial {}).run .stock (turning.take 6)).isEnabled = false) ∧
      (((initial {}).run .stock (turning.take 9)).handle .stock (.release 5 0 1 40)).1 = true ∧
      (((initial {}).run .stock (turning.take 9)).isEnabled = true) := by
  have hfour : InTurn ((initial {}).formedMoves .stock 4 (turning.take 7)) := by
    rw [show (initial {}).formedMoves .stock 4 (turning.take 7) =
      [.press 4 0 0 0, .release 4 0 0 30] by decide]
    exact ⟨by simp [Transition.isDown, Transition.press, Switch.ofBytes], by decide⟩
  have hfive : InTurn ((initial {}).formedMoves .stock 5 turning) := by
    rw [show (initial {}).formedMoves .stock 5 turning =
      [.press 5 0 1 20, .release 5 0 1 40] by decide]
    exact ⟨by simp [Transition.isDown, Transition.press, Switch.ofBytes], by decide⟩
  obtain ⟨hsame, hpress⟩ := release_answered_as_press .stock {} [] ((turning.drop 1).take 5)
    (.press 4 0 0 0) (.release 4 0 0 30) (by simp [turning]) hfour rfl rfl rfl (by decide)
    (by decide) (by decide)
  obtain ⟨hsame', hpress'⟩ := release_answered_as_press .stock {} (turning.take 3)
    ((turning.drop 4).take 5) (.press 5 0 1 20) (.release 5 0 1 40) (by simp [turning]) hfive
    rfl rfl rfl (by decide) (by decide) (by decide)
  exact ⟨hfour, hfive, hsame.trans (hpress.trans (by decide)), by decide,
    hsame'.trans (hpress'.trans (by decide)), by decide⟩

end Shifter

end LongPress
