import LongPress.Proofs.Down

/-!
# LongPress.Proofs.Carried

Every code that is down is the code of a key that is down.

`Carried p K F s` says that each code in `down` is that of the form which one of the keys `K` was
sent in since its press; `F` are those forms.  The key must still be owed a release by the shifter:
no interruption has settled it, and it is of a kind whose release is looked at.  Several keys may
send one code, and then the release of any of them takes it out; this does no harm to the others.
-/

namespace LongPress.Shifter

open Sending (forms)

variable {p : Policy} {K : Keys} {F : UInt8 → List Bool} {s t : Shifter} {l : List Sending}
  {event : Transition} {op : Operation} {b c : UInt8}

/-! ## Interruptions -/

/-- Whether an interruption has settled the dual role key of a base. -/
def interrupted (b : UInt8) (s : Shifter) : Bool := s.tapped.contains b || s.held.contains b

/-- From `s` to `t` the switches stay, and only a tracked key is settled by an interruption. -/
structure Keeps (s t : Shifter) : Prop where
  switches : t.settings.switches = s.settings.switches
  interrupted {b : UInt8} : t.interrupted b = true →
    s.interrupted b = true ∨ ∃ e, s.tracked = some e ∧ e.keycode.base = b

/-- The sets of settled keys may lose bases. -/
theorem Keeps.of_subset (switches : t.settings.switches = s.settings.switches)
    (tapped : ∀ b, t.tapped.contains b = true → s.tapped.contains b = true)
    (held : ∀ b, t.held.contains b = true → s.held.contains b = true) : Keeps s t where
  switches := switches
  interrupted {b} hb := by
    rw [Shifter.interrupted, Bool.or_eq_true] at hb ⊢
    exact .inl (hb.imp (tapped b) (held b))

theorem Keeps.of_eq (switches : t.settings.switches = s.settings.switches)
    (tapped : t.tapped = s.tapped) (held : t.held = s.held) : Keeps s t :=
  .of_subset switches (fun _ hb => tapped ▸ hb) fun _ hb => held ▸ hb

theorem Keeps.refl : Keeps s s := .of_eq rfl rfl rfl

/-- Something may be done afterwards that settles no key. -/
theorem Keeps.congr (h : Keeps s t) {u : Shifter} (settings : u.settings = t.settings)
    (tapped : u.tapped = t.tapped) (held : u.held = t.held) : Keeps s u where
  switches := by rw [settings, h.switches]
  interrupted hb := by
    rw [Shifter.interrupted, tapped, held] at hb
    exact h.interrupted hb

theorem InterruptOutcome.keeps {now : Tick} (o : InterruptOutcome p now s l t) : Keeps s t := by
  cases o with
  | nothing => exact .refl
  | @holds e tracked =>
    refine ⟨rfl, fun {b} hb => ?_⟩
    simp only [Shifter.interrupted, heldFor, CodeSet.contains_add, Bool.or_eq_true,
      decide_eq_true_eq] at hb ⊢
    rcases hb with hb | rfl | hb
    · exact .inl (.inl hb)
    · exact .inr ⟨e, tracked, rfl⟩
    · exact .inl (.inr hb)
  | @types e tracked =>
    have hmarked : Keeps s (s.marked e) := by
      refine ⟨rfl, fun {b} hb => ?_⟩
      simp only [Shifter.interrupted, marked, CodeSet.contains_add, Bool.or_eq_true,
        decide_eq_true_eq] at hb ⊢
      rcases hb with (rfl | hb) | hb
      · exact .inr ⟨e, tracked, rfl⟩
      · exact .inl (.inl hb)
      · exact .inl (.inr hb)
    have ha := agrees_resolve p e now (s.marked e)
    exact hmarked.congr ha.settings ha.tapped ha.held

theorem keeps_clearedFor (p : Policy) (event : Transition) (s : Shifter) :
    Keeps s (s.clearedFor p event) := by
  have ha := agrees_settle p event.time false s
  have hinterrupt := (interruptOutcome p event.time (s.settle p event.time false)).keeps
  unfold clearedFor
  dsimp only
  split
  · exact .of_eq (by rw [ha.settings]) ha.tapped ha.held
  · refine ⟨hinterrupt.switches.trans (by rw [ha.settings]), fun {b} hb => ?_⟩
    have hkept := hinterrupt.interrupted hb
    rw [Shifter.interrupted, ha.tapped, ha.held, ha.tracked] at hkept
    exact hkept

theorem keeps_control (key : ControlKey) (s : Shifter) : Keeps s (s.control key) := by
  have ha := agrees_control key s
  exact .of_eq (switches_control key s) ha.tapped ha.held

theorem PressOutcome.keeps {r : Bool × Shifter} (o : PressOutcome p event s l r) :
    r.2.settings = s.settings ∧ r.2.tapped = s.tapped ∧ r.2.held = s.held := by
  have hnoted := agrees_noteModifier event.keycode true s
  have hrepeat := agrees_repeatLast p
  cases o with
  | leaves => exact ⟨rfl, rfl, rfl⟩
  | repeatsDual => exact ⟨(hrepeat s).settings, (hrepeat s).tapped, (hrepeat s).held⟩
  | tracks => exact ⟨rfl, rfl, rfl⟩
  | ignores => exact ⟨rfl, rfl, rfl⟩
  | passes => exact ⟨rfl, rfl, rfl⟩
  | bypasses =>
    have ha := agrees_keyDown p (s.forgotten event) event.keycode false
    exact ⟨ha.settings, ha.tapped, ha.held⟩
  | repeats =>
    have ha := hnoted.trans (hrepeat (s.noteModifier event.keycode true))
    exact ⟨ha.settings, ha.tapped, ha.held⟩
  | begins =>
    have ha := agrees_begin event (s.noteModifier event.keycode true)
    exact ⟨ha.settings, ha.tapped, ha.held⟩

theorem keeps_handlePress (p : Policy) (event : Transition) (s : Shifter) :
    Keeps s (s.handlePress p event).2 := by
  have hcleared := keeps_clearedFor p event s
  rw [handlePress_eq]
  cases hcontrol : event.keycode.isControl with
  | false =>
    obtain ⟨hsettings, htapped, hheld⟩ :=
      (pressOutcome p (s.clearedFor p event) hcontrol).keeps
    exact hcleared.congr hsettings htapped hheld
  | true =>
    obtain ⟨key, hkey, -⟩ := pressOwn_control p (s.clearedFor p event) hcontrol
    rw [hkey]
    have ha := agrees_control key (s.clearedFor p event)
    refine ⟨(switches_control key _).trans hcleared.switches, fun hb => ?_⟩
    rw [Shifter.interrupted, ha.tapped, ha.held] at hb
    exact hcleared.interrupted hb

theorem ReleaseOutcome.keeps {r : Bool × Shifter} (o : ReleaseOutcome p event s l r) :
    Keeps s r.2 := by
  cases o with
  | tapped =>
    refine .of_subset rfl (fun b hb => ?_) fun _ => id
    rw [CodeSet.contains_remove, Bool.and_eq_true] at hb
    exact hb.2
  | held =>
    refine .of_subset rfl (fun _ => id) (fun b hb => ?_)
    rw [CodeSet.contains_remove, Bool.and_eq_true] at hb
    exact hb.2
  | endsDual =>
    have huntracked : Keeps s ((s.dropped event).untracked event) := by
      unfold untracked
      split <;> exact .of_eq rfl rfl rfl
    have ha := agrees_endKey p event.keycode event.time ((s.dropped event).untracked event)
    exact huntracked.congr ha.settings ha.tapped ha.held
  | ends =>
    have hunpassed : Keeps s (s.unpassed event) := .of_eq rfl rfl rfl
    have ha := agrees_endKey p event.keycode event.time (s.unpassed event)
    exact hunpassed.congr ha.settings ha.tapped ha.held
  | ignores => exact .of_eq rfl rfl rfl

/-- Every operation but the loading of settings. -/
theorem keeps_perform (p : Policy) (s : Shifter) (hload : ∀ image, op ≠ .loadSettings image) :
    Keeps s (s.perform p op).2 := by
  cases op with
  | handle event =>
    simp only [perform, handle]
    split
    · exact keeps_handlePress p event s
    · cases hcontrol : event.keycode.isControl with
      | true =>
        rw [(handleRelease_control p s hcontrol).1]
        exact .refl
      | false => exact (releaseOutcome p s hcontrol).keeps
  | scan now =>
    have hscan : Keeps s (s.scanWaiting p now) := by
      cases scanWaiting_cases p now s with
      | inl hcase =>
        obtain ⟨hscan, -⟩ := hcase
        rw [hscan]
        exact .refl
      | inr hcase =>
        obtain ⟨w, -, hscan, -⟩ := hcase
        have ha := agrees_decideKey p w now true s
        rw [hscan]
        exact .of_eq (by rw [ha.settings]) ha.tapped ha.held
    have ha := agrees_scanTracked now (s.scanWaiting p now)
    exact hscan.congr ha.settings ha.tapped ha.held
  | verdict keycode v pressTime switch now =>
    simp only [perform, verdict]
    split
    · exact .refl
    · next e _ =>
      have hstopped : Keeps s s.stopTracking := .of_eq rfl rfl rfl
      cases v with
      | tap => exact hstopped
      | hold =>
        have ha := agrees_resolve p (e.pressedAt pressTime) now s.stopTracking
        exact hstopped.congr ha.settings ha.tapped ha.held
  | setModifiers bits => exact .of_eq rfl rfl rfl
  | setOneShot bits => exact .of_eq rfl rfl rfl
  | enable => exact keeps_control .on s
  | disable => exact keeps_control .off s
  | toggle => exact keeps_control .toggle s
  | setTimeout ms => exact .of_eq (switches_setTimeout s _) rfl rfl
  | lengthenTimeout ms => exact .of_eq (switches_setTimeout s _) rfl rfl
  | shortenTimeout ms => exact .of_eq (switches_setTimeout s _) rfl rfl
  | loadSettings image => exact absurd rfl (hload image)

/-! ## Codes and their keys -/

/-- A code is that of the one form of a key which is down and which no interruption has settled. -/
def Carries (p : Policy) (K : Keys) (F : UInt8 → List Bool) (s : Shifter) (c : UInt8) : Prop :=
  ∃ b e f, K b = some e ∧ F b = [f] ∧ s.interrupted b = false ∧
    (e.keycode.isDualRole = true ∨ s.hasForms p e.keycode = true) ∧
    c = (p.stroke e.keycode f).code

/-- Every code that is down has a key. -/
def Carried (p : Policy) (K : Keys) (F : UInt8 → List Bool) (s : Shifter) : Prop :=
  ∀ c, s.down.contains c = true → Carries p K F s c

/-- A release that nothing else deals with takes out the code of its form. -/
theorem ReleaseOutcome.gone {r : Bool × Shifter} (o : ReleaseOutcome p event s l r)
    (hnot : s.interrupted event.keycode.base = false)
    (hforms : event.keycode.isDualRole = true ∨ s.hasForms p event.keycode = true) :
    r.2.down.contains
      (p.stroke event.keycode (r.2.shifted.contains event.keycode.base)).code = false := by
  rw [interrupted, Bool.or_eq_false_iff] at hnot
  cases o with
  | tapped _ tapped => simp [tapped] at hnot
  | held _ _ held => simp [held] at hnot
  | endsDual => exact gone_endKey p event.keycode event.time _
  | ends => exact gone_endKey p event.keycode event.time _
  | ignores single forms => simp [single, forms] at hforms

/-- What an operation puts down on behalf of a key: the code of a form that it sends.  The key is
down afterwards, and was no dual role key that is tracked or that an interruption has settled. -/
def PutsDown (p : Policy) (K : Keys) (op : Operation) (s : Shifter) (c : UInt8) : Prop :=
  ∃ e f, K.perform op e.keycode.base = some e ∧ .key e.keycode f ∈ s.sends p op ∧
    c = (p.stroke e.keycode f).code ∧
    (e.keycode.isDualRole = true ∨ s.hasForms p e.keycode = true) ∧
    s.interrupted e.keycode.base = false ∧
    ∀ x, s.tracked = some x → x.keycode.base ≠ e.keycode.base

theorem down_handlePress (h : Owned p K s) (hup : K event.keycode.base = none)
    (hdown : event.isDown = true) (hcontrol : event.keycode.isControl = false)
    (hc : (s.handlePress p event).2.down.contains c = true) :
    s.down.contains c = true ∨ PutsDown p K (.handle event) s c := by
  rw [handlePress_eq] at hc
  cases (pressOutcome p _ hcontrol).down hc with
  | inl hc => exact .inl (down_clearedFor hc)
  | inr hcase =>
    obtain ⟨⟨f, hf, hc⟩, hforms⟩ := hcase
    obtain ⟨-, htapped, hheld⟩ := h.not_of_up hup
    refine .inr ⟨event, f, ?_, ?_, hc, ?_, ?_, ?_⟩
    · rw [Keys.perform_handle hcontrol, K.move_press hdown]
    · rw [sends, if_pos hdown, handlePressSends]
      exact List.mem_append_right _ (List.mem_append_right _ hf)
    · rwa [hasForms_congr (keeps_clearedFor p event s).switches] at hforms
    · rw [interrupted, htapped, hheld]
      rfl
    · intro x hx hb
      have hK := (h.tracked hx).1
      rw [hb, hup] at hK
      cases hK

/-- A code that an operation puts down is that of a key which is down. -/
theorem down_perform (h : Owned p K s) (hadmits : op.move?.all K.admits = true)
    (hc : (s.perform p op).2.down.contains c = true) :
    s.down.contains c = true ∨ PutsDown p K op s c := by
  cases op with
  | handle event =>
    simp only [perform, handle] at hc
    cases hcontrol : event.keycode.isControl with
    | true =>
      left
      split at hc
      · obtain ⟨key, hkey, -⟩ := pressOwn_control p (s.clearedFor p event) hcontrol
        rw [handlePress_eq, hkey, down_control] at hc
        exact down_clearedFor hc
      · rw [(handleRelease_control p s hcontrol).1] at hc
        exact hc
    | false =>
      rw [Operation.move?_handle hcontrol] at hadmits
      split at hc
      · next hdown =>
        exact down_handlePress h (Keys.eq_none_of_admits hadmits hdown) hdown hcontrol hc
      · exact .inl ((releaseOutcome p s hcontrol).down hc)
  | scan now =>
    refine (down_scan hc).imp_right ?_
    rintro ⟨w, f, hw, hf, hcode⟩
    obtain ⟨hK, hsingle, hforms⟩ := h.waiting hw
    obtain ⟨-, htapped, hheld⟩ := h.not_of_single hK hsingle
    refine ⟨w, f, hK, hf, hcode, .inr hforms, ?_, fun x hx => (h.base_ne hw hx).symm⟩
    rw [interrupted, htapped, hheld]
    rfl
  | verdict keycode v pressTime switch now => exact .inl (down_verdict hc)
  | enable => exact .inl (down_control .on s ▸ hc)
  | disable => exact .inl (down_control .off s ▸ hc)
  | toggle => exact .inl (down_control .toggle s ▸ hc)
  | _ => exact .inl hc

/-- A key that no interruption has settled is not settled by an operation that finds it decided. -/
theorem Keeps.not_interrupted (h : Keeps s t) (hnot : s.interrupted b = false)
    (htracked : ∀ x, s.tracked = some x → x.keycode.base ≠ b) : t.interrupted b = false := by
  refine Bool.eq_false_iff.mpr fun hb => ?_
  cases h.interrupted hb with
  | inl hs => simp [hnot] at hs
  | inr hcase =>
    obtain ⟨x, hx, hb'⟩ := hcase
    exact htracked x hx hb'

theorem mem_forms {k : Keycode} {f : Bool} (h : .key k f ∈ l) : f ∈ forms k.base l :=
  List.mem_filterMap.mpr ⟨.key k f, h, if_pos rfl⟩

/-- A form that was sent is the only one. -/
theorem Formed.eq_of_mem {G : List Bool} {f : Bool} (h : Formed b G s) (hf : f ∈ G) : G = [f] := by
  cases h with
  | inl heq =>
    subst heq
    cases hf
  | inr hcase =>
    obtain ⟨rfl, -⟩ := hcase
    rw [List.mem_singleton.mp hf]

/-- A key that carries a code is decided. -/
theorem Formed.decided {f : Bool} (h : Formed b (F b) s) (hF : F b = [f]) : ¬ Undecided b s := by
  cases h with
  | inl hnone => simp [hF] at hnone
  | inr hcase =>
    obtain ⟨-, hdecided⟩ := hcase
    exact hdecided

/-- The release of the key that carries a code takes the code out, as it is that of the form kept
for the key. -/
theorem gone_release {r e : Transition} {f : Bool} (hup : r.isDown = false)
    (hcontrol : r.keycode.isControl = false) (hkey : r.keycode = e.keycode)
    (hnot : s.interrupted r.keycode.base = false)
    (hforms : e.keycode.isDualRole = true ∨ s.hasForms p e.keycode = true)
    (hformed : Formed r.keycode.base [f] (s.perform p (.handle r)).2) :
    (s.perform p (.handle r)).2.down.contains (p.stroke e.keycode f).code = false := by
  have hstep : (s.perform p (.handle r)).2 = (s.handleRelease p r).2 := by
    simp [perform, handle, hup]
  rw [hstep] at hformed ⊢
  have hgone := (releaseOutcome p s hcontrol).gone hnot (by rwa [hkey])
  cases hformed with
  | inl hnone => simp at hnone
  | inr hcase =>
    obtain ⟨hone, -⟩ := hcase
    rwa [← List.singleton_inj.mp hone, hkey] at hgone

/-- A code that stays down stays with its key. -/
theorem Carries.perform (hcarries : Carries p K F s c)
    (hformed : ∀ b, Formed b (F b) s)
    (hafter : ∀ b, Formed b (formsAfter p b (F b) s op) (s.perform p op).2)
    (hkeeps : Keeps s (s.perform p op).2) (hadmits : op.move?.all K.admits = true)
    (hc : (s.perform p op).2.down.contains c = true) :
    Carries p (K.perform op) (fun b => formsAfter p b (F b) s op) (s.perform p op).2 c := by
  obtain ⟨b, e, f, hK, hF, hnot, hforms, hcode⟩ := hcarries
  obtain ⟨hpress, hstays⟩ := Keys.perform_of_eq_some hK hadmits
  have htracked : ∀ x, s.tracked = some x → x.keycode.base ≠ b :=
    fun x hx hb => (hformed b).decided hF ⟨x, .inr hx, hb⟩
  have hsince : formsAfter p b (F b) s op = [f] := by
    refine (hafter b).eq_of_mem ?_
    rw [formsAfter, hpress, hF]
    exact List.mem_append_left _ (List.mem_singleton_self f)
  cases hstays with
  | inl hK' =>
    refine ⟨b, e, f, hK', hsince, hkeeps.not_interrupted hnot htracked, ?_, hcode⟩
    rwa [hasForms_congr hkeeps.switches]
  | inr hcase =>
    obtain ⟨r, rfl, hup, hcontrol, rfl, hkey, -⟩ := hcase
    have hgone := gone_release hup hcontrol hkey hnot hforms (hsince ▸ hafter r.keycode.base)
    rw [← hcode, hc] at hgone
    cases hgone

/-- A code that goes down has the key it is put down for. -/
theorem PutsDown.carries (hput : PutsDown p K op s c)
    (hafter : ∀ b, Formed b (formsAfter p b (F b) s op) (s.perform p op).2)
    (hkeeps : Keeps s (s.perform p op).2) :
    Carries p (K.perform op) (fun b => formsAfter p b (F b) s op) (s.perform p op).2 c := by
  obtain ⟨e, f, hK, hf, hcode, hforms, hnot, htracked⟩ := hput
  refine ⟨e.keycode.base, e, f, hK, ?_, hkeeps.not_interrupted hnot htracked, ?_, hcode⟩
  · exact (hafter _).eq_of_mem (List.mem_append_right _ (mem_forms hf))
  · rwa [hasForms_congr hkeeps.switches]

/-- Every operation that comes at its time keeps the codes with their keys. -/
theorem Carried.perform (hcarried : Carried p K F s) (h : Owned p K s)
    (hformed : ∀ b, Formed b (F b) s) (hload : ∀ image, op ≠ .loadSettings image)
    (hadmits : op.move?.all K.admits = true) :
    Carried p (K.perform op) (fun b => formsAfter p b (F b) s op) (s.perform p op).2 := by
  have hkeeps : Keeps s (s.perform p op).2 := keeps_perform p s hload
  have hafter : ∀ b, Formed b (formsAfter p b (F b) s op) (s.perform p op).2 :=
    fun b => (hformed b).perform h hadmits
  intro c hc
  cases down_perform h hadmits hc with
  | inl hold => exact (hcarried c hold).perform hformed hafter hkeeps hadmits hc
  | inr hput => exact hput.carries hafter hkeeps

end LongPress.Shifter
