import LongPress.Proofs.Carried
import LongPress.Proofs.Modifiers

/-!
# LongPress.Proofs.NoStuckKey

No key is left behind.

`Accounted` puts together what is known of a shifter at any time of a history: each slot and set
belongs to a key that is down (`Owned`), each key was sent at most once since its press (`Formed`),
each code that is down belongs to such a key (`Carried`), and so does each modifier (`Backed`).  One
operation keeps all four, hence every history does (`Accounted.run`).

* `no_key_stuck` — the main statement.
-/

namespace LongPress.Shifter

open Sending (forms)

variable {p : Policy} {K : Keys} {F : UInt8 → List Bool} {s : Shifter} {event : Transition}
  {b : UInt8}

/-- Whatever the shifter remembers is accounted for by the keys that are down and by the forms they
were sent in since their presses. -/
structure Accounted (p : Policy) (K : Keys) (F : UInt8 → List Bool) (s : Shifter) : Prop where
  owned : Owned p K s
  formed (b : UInt8) : Formed b (F b) s
  carried : Carried p K F s
  backed : Backed K s

theorem accounted_initial (p : Policy) (settings : Settings) :
    Accounted p .up (fun _ => []) (initial settings) where
  owned := owned_initial p settings
  formed _ := .inl rfl
  carried c hc := by simp [initial] at hc
  backed := backed_initial settings

namespace Accounted

theorem perform (h : Accounted p K F s) {op : Operation}
    (hset : ∀ bits, op ≠ .setModifiers bits) (hload : ∀ image, op ≠ .loadSettings image)
    (hadmits : op.move?.all K.admits = true) :
    Accounted p (K.perform op) (fun b => formsAfter p b (F b) s op) (s.perform p op).2 where
  owned := h.owned.perform hload hadmits
  formed b := (h.formed b).perform h.owned hadmits
  carried := h.carried.perform h.owned h.formed hload hadmits
  backed := h.backed.perform h.owned hset hadmits

theorem run (h : Accounted p K F s) {history : List Operation}
    (hset : ∀ bits, .setModifiers bits ∉ history) (hload : ∀ image, .loadSettings image ∉ history)
    (hadmits : K.admitsAll history = true) :
    Accounted p (K.run history) (fun b => formsSince p b (F b) s history) (s.run p history) := by
  induction history generalizing K F s with
  | nil => exact h
  | cons op rest ih =>
    rw [Keys.admitsAll, Bool.and_eq_true] at hadmits
    have hstep := h.perform (fun bits he => hset bits (he ▸ List.mem_cons_self))
      (fun image he => hload image (he ▸ List.mem_cons_self)) hadmits.1
    exact ih hstep (fun bits hmem => hset bits (List.mem_cons_of_mem op hmem))
      (fun image hmem => hload image (List.mem_cons_of_mem op hmem)) hadmits.2

/-- With every key up nothing is remembered. -/
theorem empty (h : Accounted p K F s) (hup : ∀ b, K b = none) :
    s.waiting = none ∧ s.tracked = none ∧ s.modifiers = 0 ∧ s.suppressed = 0 ∧
      s.down = ∅ ∧ s.passing = ∅ ∧ s.tapped = ∅ ∧ s.held = ∅ := by
  have hnot : ∀ b, ¬ Undecided b s := fun b => h.owned.not_undecided (hup b)
  obtain ⟨hmodifiers, hsuppressed⟩ := h.backed.eq_zero hup
  refine ⟨?_, ?_, hmodifiers, hsuppressed, ?_, ?_, ?_, ?_⟩
  · exact Option.eq_none_iff_forall_ne_some.mpr fun e he => hnot _ ⟨e, .inl he, rfl⟩
  · exact Option.eq_none_iff_forall_ne_some.mpr fun e he => hnot _ ⟨e, .inr he, rfl⟩
  · refine CodeSet.eq_empty_of_contains fun c => Bool.eq_false_iff.mpr fun hc => ?_
    obtain ⟨b, e, f, hK, -⟩ := h.carried c hc
    simp [hup] at hK
  · exact CodeSet.eq_empty_of_contains fun b => (h.owned.not_of_up (hup b)).1
  · exact CodeSet.eq_empty_of_contains fun b => (h.owned.not_of_up (hup b)).2.1
  · exact CodeSet.eq_empty_of_contains fun b => (h.owned.not_of_up (hup b)).2.2

/-- The release of a single role key with a shifted form: no key of its base waits any more, and the
code of the form kept for it is up. -/
theorem release (h : Accounted p K F s) (hup : event.isDown = false)
    (hcontrol : event.keycode.isControl = false) (hsingle : event.keycode.isDualRole = false)
    (hforms : s.hasForms p event.keycode = true) (hadmits : K.admits event = true) :
    (∀ e, (s.perform p (.handle event)).2.waiting = some e →
        e.keycode.base ≠ event.keycode.base) ∧
      (s.perform p (.handle event)).2.down.contains (p.stroke event.keycode
        ((s.perform p (.handle event)).2.shifted.contains event.keycode.base)).code = false := by
  obtain ⟨press, hK, hkey, -⟩ := Keys.eq_some_of_admits hadmits hup
  have hstep : (s.perform p (.handle event)).2 = (s.handleRelease p event).2 := by
    simp [Shifter.perform, handle, hup]
  have howned := h.owned.handle hadmits hcontrol
  obtain ⟨-, htapped, hheld⟩ := h.owned.not_of_single hK (hkey ▸ hsingle)
  constructor
  · intro e he hb
    have hdown := (howned.waiting he).1
    rw [hb, K.move_release hup] at hdown
    cases hdown
  · rw [hstep]
    refine (releaseOutcome p s hcontrol).gone ?_ (.inr hforms)
    rw [interrupted, htapped, hheld]
    rfl

end Accounted

/-- The switches of the settings are those of the start. -/
theorem switches_run (p : Policy) (s : Shifter) {history : List Operation}
    (hload : ∀ image, .loadSettings image ∉ history) :
    (s.run p history).settings.switches = s.settings.switches := by
  induction history generalizing s with
  | nil => rfl
  | cons op rest ih =>
    have hkeeps : Keeps s (s.perform p op).2 :=
      keeps_perform p s fun image he => hload image (he ▸ List.mem_cons_self)
    rw [run_cons, ih _ fun image hmem => hload image (List.mem_cons_of_mem op hmem)]
    exact hkeeps.switches

/-- The forms sent since a press are those of all operations from the press on. -/
theorem formsSince_press (p : Policy) (F : List Bool) (s : Shifter) (before rest : List Operation)
    {press : Transition} (hpress : Operation.isPressOf b (.handle press) = true)
    (hrest : ∀ op ∈ rest, op.isPressOf b = false) :
    formsSince p b F s (before ++ .handle press :: rest) =
      forms b ((s.run p before).sendsAll p (.handle press :: rest)) := by
  rw [formsSince_append, formsSince, formsSince_eq hrest, formsAfter, if_pos hpress,
    List.nil_append, sendsAll, Sending.forms_append]

/-- What the end of a history leaves of a single role key with a shifted form, when its release
comes last. -/
theorem run_release (p : Policy) (settings : Settings) (first : List Operation)
    {release : Transition} (hset : ∀ bits, .setModifiers bits ∉ first)
    (hload : ∀ image, .loadSettings image ∉ first)
    (hadmits : Keys.up.admitsAll (first ++ [.handle release]) = true)
    (hup : release.isDown = false) (hcontrol : release.keycode.isControl = false)
    (hsingle : release.keycode.isDualRole = false)
    (hforms : (initial settings).hasForms p release.keycode = true) :
    (∀ e, ((initial settings).run p (first ++ [.handle release])).waiting = some e →
        e.keycode.base ≠ release.keycode.base) ∧
      ((initial settings).run p (first ++ [.handle release])).down.contains
        (p.stroke release.keycode (((initial settings).run p
          (first ++ [.handle release])).shifted.contains release.keycode.base)).code = false := by
  rw [Keys.admitsAll_append, Bool.and_eq_true] at hadmits
  obtain ⟨hfirst, hlast⟩ := hadmits
  have hprior := (accounted_initial p settings).run hset hload hfirst
  have hfits : (Keys.up.run first).admits release = true := by
    rw [Keys.admitsAll, Operation.move?_handle hcontrol] at hlast
    exact (Bool.and_eq_true_iff.mp hlast).1
  have hstill : ((initial settings).run p first).hasForms p release.keycode = true := by
    rwa [hasForms_congr (switches_run p _ hload)]
  rw [run_append, run_cons, run_nil]
  exact hprior.release hup hcontrol hsingle hstill hfits

/-- The form a key was sent in since its press is the one kept for it. -/
theorem Formed.shifted_of_sent {before rest : List Operation} {press : Transition} {k : Keycode}
    {f : Bool} {G : List Bool}
    (h : Formed k.base (formsSince p k.base G s (before ++ .handle press :: rest))
      (s.run p (before ++ .handle press :: rest)))
    (hpress : Operation.isPressOf k.base (.handle press) = true)
    (hrest : ∀ op ∈ rest, op.isPressOf k.base = false)
    (hf : .key k f ∈ (s.run p before).sendsAll p (.handle press :: rest)) :
    (s.run p (before ++ .handle press :: rest)).shifted.contains k.base = f := by
  have hmem := mem_forms hf
  rw [formsSince_press p _ s before rest hpress hrest] at h
  cases h with
  | inl hnone =>
    rw [hnone] at hmem
    cases hmem
  | inr hcase =>
    obtain ⟨hone, -⟩ := hcase
    rw [hone, List.mem_singleton] at hmem
    exact hmem.symm

/-- **No key is stuck.**  In a history that comes at its time, and in which neither the modifiers
nor the switches are changed from outside:

* after the release of a single role key with a shifted form, that key does not wait, and none of
  the codes it was sent as since its press is down;
* whenever every key is up, nothing waits and nothing is tracked, no modifier counts as held, and
  all sets of keys are empty. -/
theorem no_key_stuck (p : Policy) (settings : Settings) (history : List Operation)
    (hset : ∀ bits, .setModifiers bits ∉ history) (hload : ∀ image, .loadSettings image ∉ history)
    (hadmits : Keys.up.admitsAll history = true) :
    (∀ (before between : List Operation) (press release : Transition),
        history = before ++ .handle press :: (between ++ [.handle release]) →
        press.isDown = true → release.isDown = false → press.keycode = release.keycode →
        (∀ op ∈ between, op.isPressOf release.keycode.base = false) →
        release.keycode.isControl = false → release.keycode.isDualRole = false →
        (initial settings).hasForms p release.keycode = true →
          (∀ e, ((initial settings).run p history).waiting = some e →
            e.keycode ≠ release.keycode) ∧
          ∀ f, .key release.keycode f ∈ ((initial settings).run p before).sendsAll p
              (.handle press :: (between ++ [.handle release])) →
            ((initial settings).run p history).down.contains
              (p.stroke release.keycode f).code = false) ∧
      ((∀ b, Keys.up.run history b = none) →
        ((initial settings).run p history).waiting = none ∧
        ((initial settings).run p history).tracked = none ∧
        ((initial settings).run p history).modifiers = 0 ∧
        ((initial settings).run p history).suppressed = 0 ∧
        ((initial settings).run p history).down = ∅ ∧
        ((initial settings).run p history).passing = ∅ ∧
        ((initial settings).run p history).tapped = ∅ ∧
        ((initial settings).run p history).held = ∅) := by
  have hall := (accounted_initial p settings).run hset hload hadmits
  refine ⟨?_, hall.empty⟩
  rintro before between press release rfl hdown hup hkey hbetween hcontrol hsingle hforms
  have hpress : Operation.isPressOf release.keycode.base (.handle press) = true := by
    simp [Operation.isPressOf, Operation.press?, hdown, hkey, hcontrol]
  have hrest : ∀ op ∈ between ++ [.handle release], op.isPressOf release.keycode.base = false := by
    intro op hmem
    cases List.mem_append.mp hmem with
    | inl hmem => exact hbetween op hmem
    | inr hmem =>
      rw [List.mem_singleton.mp hmem, Operation.isPressOf, Operation.press?, hup]
      rfl
  have hlast : before ++ .handle press :: (between ++ [.handle release]) =
      (before ++ .handle press :: between) ++ [.handle release] := by simp
  have hset' : ∀ bits, .setModifiers bits ∉ before ++ .handle press :: between :=
    fun bits hmem => hset bits (hlast ▸ List.mem_append_left _ hmem)
  have hload' : ∀ image, .loadSettings image ∉ before ++ .handle press :: between :=
    fun image hmem => hload image (hlast ▸ List.mem_append_left _ hmem)
  obtain ⟨hwaiting, hgone⟩ :=
    run_release p settings _ hset' hload' (hlast ▸ hadmits) hup hcontrol hsingle hforms
  rw [← hlast] at hwaiting hgone
  constructor
  · intro e he hsame
    exact hwaiting e he (by rw [hsame])
  · intro f hf
    rwa [(hall.formed release.keycode.base).shifted_of_sent hpress hrest hf] at hgone

/-- A keyboard whose keys all send one code. -/
def oneCode : Policy where
  stroke _ shifted := ⟨4, shifted⟩

/-- The settings to begin with, dual role keys tracked. -/
def trackingSettings : Settings := Settings.turn {} Flag.dualRole true

/-- A key is pressed while a dual role key is tracked, is typed shifted by that, and goes up after
two other keys. -/
def tangle : List Operation :=
  [.handle (.press (Keycode.modTap 2 5) 0 0 0), .handle (.press 4 0 1 50), .scan 300,
    .handle (.press 6 0 2 310), .disable, .handle (.release 6 0 2 320),
    .handle (.release (Keycode.modTap 2 5) 0 0 330), .handle (.release 4 0 1 340)]

theorem no_key_stuck_of_tangle :
    Keys.up.admitsAll tangle = true ∧ (∀ b, Keys.up.run tangle b = none) ∧
      Sending.key 4 true ∈ ((initial trackingSettings).run oneCode (tangle.take 1)).sendsAll oneCode
        (tangle.drop 1) ∧
      ((initial trackingSettings).run oneCode (tangle.take 4)).down.contains 4 = true ∧
      ((initial trackingSettings).run oneCode tangle).down.contains 4 = false ∧
      ((initial trackingSettings).run oneCode tangle).held = ∅ := by
  have hset : ∀ bits, .setModifiers bits ∉ tangle := by simp [tangle]
  have hload : ∀ image, .loadSettings image ∉ tangle := by simp [tangle]
  have hadmits : Keys.up.admitsAll tangle = true := by decide
  have hup : ∀ b, Keys.up.run tangle b = none := by
    have hall : ∀ n : Fin 256, Keys.up.run tangle (UInt8.ofNat n.val) = none := by
      decide +kernel
    intro b
    have hb := hall ⟨b.toNat, b.toNat_lt⟩
    rwa [UInt8.ofNat_toNat] at hb
  have hsent : Sending.key 4 true ∈
      ((initial trackingSettings).run oneCode (tangle.take 1)).sendsAll oneCode
        (tangle.drop 1) := by decide
  obtain ⟨hreleased, hempty⟩ := no_key_stuck oneCode trackingSettings tangle hset hload hadmits
  obtain ⟨-, -, -, -, -, -, -, hheld⟩ := hempty hup
  obtain ⟨-, hgone⟩ := hreleased (tangle.take 1) ((tangle.drop 2).take 5) (.press 4 0 1 50)
    (.release 4 0 1 340) rfl rfl rfl rfl (by decide) (by decide) (by decide) (by decide)
  exact ⟨hadmits, hup, hsent, by decide, hgone true hsent, hheld⟩

end LongPress.Shifter
