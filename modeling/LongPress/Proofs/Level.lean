import LongPress.Proofs.Calm

/-!
# LongPress.Proofs.Level

Two calm shifters side by side.

Shifters are alike if they differ at most in what is down, what they said and the time of the last
decision, and level if the time of the last decision can be told apart by nothing that follows: it
is the same of both, or no key can be repeated before the next decision.  What is done to both alike
leaves them level:

* `level_settle` — when what waits is settled;
* `level_pressOwn` — in what a press does for its own key.
-/

namespace LongPress.Shifter

variable {p : Policy} {s t u v : Shifter} {event : Transition} {now : Tick}

/-! ## Alike -/

/-- Two shifters that differ at most in what is down, what was said and the time of the last
decision. -/
def Alike (s t : Shifter) : Prop := core s = core { t with since := s.since }

namespace Alike

/-- What does not look at the time of the last decision is the same of both. -/
theorem congr {α : Type} (h : Alike s t) (f : Shifter → α) :
    f (core s) = f (core { t with since := s.since }) :=
  congrArg f h

theorem waiting (h : Alike s t) : s.waiting = t.waiting := (h.congr Shifter.waiting :)

theorem last (h : Alike s t) : s.last = t.last := (h.congr Shifter.last :)

theorem lastShifted (h : Alike s t) : s.lastShifted = t.lastShifted :=
  (h.congr Shifter.lastShifted :)

theorem timeout (h : Alike s t) : s.timeout = t.timeout := (h.congr Shifter.timeout :)

theorem hasForms (h : Alike s t) (k : Keycode) : s.hasForms p k = t.hasForms p k :=
  (h.congr (Shifter.hasForms p k) :)

theorem bypasses (h : Alike s t) : s.bypasses = t.bypasses := (h.congr Shifter.bypasses :)

theorem formAt (h : Alike s t) (event : Transition) (now : Tick) :
    s.formAt event now = t.formAt event now :=
  (h.congr (Shifter.formAt event now) :)

/-- To be alike is a matter of the cores. -/
theorem of_core (h : Alike s t) (hu : core u = core s) (hv : core v = core t) : Alike u v := by
  have hsince : u.since = s.since := (congrArg Shifter.since hu :)
  rw [Alike, hsince]
  exact (hu.trans h).trans (congrArg (fun x : Shifter => { x with since := s.since }) hv.symm)

theorem core_eq (h : Alike s t) (hsince : s.since = t.since) : core s = core t := by
  rw [h, hsince]

theorem stopPassing (h : Alike s t) (k : Keycode) : Alike (s.stopPassing k) (t.stopPassing k) :=
  h.congr fun x => core (x.stopPassing k)

theorem noteModifier (h : Alike s t) (k : Keycode) (isDown : Bool) :
    Alike (s.noteModifier k isDown) (t.noteModifier k isDown) :=
  h.congr fun x => core (x.noteModifier k isDown)

end Alike

/-! ## Level -/

/-- Two shifters that also have the same time of the last decision, unless no key can be repeated
anyway. -/
structure Level (s t : Shifter) : Prop where
  alike : Alike s t
  since : s.since = t.since ∨ t.last = Keycode.noKey

namespace Level

theorem refl : Level s s := ⟨rfl, .inl rfl⟩

/-- To be level is a matter of the cores. -/
theorem of_core (h : Level s t) (hu : core u = core s) (hv : core v = core t) : Level u v where
  alike := h.alike.of_core hu hv
  since := by
    have hsu : u.since = s.since := (congrArg Shifter.since hu :)
    have hsv : v.since = t.since := (congrArg Shifter.since hv :)
    have hlast : v.last = t.last := (congrArg Shifter.last hv :)
    rw [hsu, hsv, hlast]
    exact h.since

theorem of_eq (h : core s = core t) : Level s t := (refl (s := t)).of_core h rfl

theorem stopPassing (h : Level s t) (k : Keycode) : Level (s.stopPassing k) (t.stopPassing k) :=
  ⟨h.alike.stopPassing k, h.since⟩

theorem noteModifier (h : Level s t) (k : Keycode) (isDown : Bool) :
    Level (s.noteModifier k isDown) (t.noteModifier k isDown) :=
  ⟨h.alike.noteModifier k isDown, h.since⟩

end Level

namespace Alike

/-- Whoever is told the time is level. -/
theorem told (h : Alike s t) (now : Tick) : Level { s with since := now } { t with since := now } :=
  .of_eq (h.congr fun x => core { x with since := now })

theorem decided (h : Alike s t) (event : Transition) (now : Tick) :
    Level (s.decided event now) (t.decided event now) :=
  .of_eq (h.congr fun x => core (x.decided event now))

theorem begun (h : Alike s t) (event : Transition) : Level (s.begun event) (t.begun event) :=
  .of_eq (h.congr fun x => core (x.begun event))

/-- Once the last key is forgotten, none can be repeated. -/
theorem forgotten (h : Alike s t) (event : Transition) :
    Level (s.forgotten event) (t.forgotten event) :=
  ⟨h.congr fun x => core (x.forgotten event), .inr rfl⟩

end Alike

/-! ## The settling of what waits -/

theorem level_settle (hs : Calm s) (ht : Calm t) (h : Level s t) (now : Tick) :
    s.settleSends now = t.settleSends now ∧
      Level (s.settle p now false) (t.settle p now false) := by
  have hw := h.alike.waiting
  cases hwt : t.waiting with
  | none =>
    rw [hwt] at hw
    rw [settle_of_none hw, settle_of_none hwt, settleSends, settleSends, hw, hwt]
    exact ⟨rfl, h⟩
  | some e =>
    rw [hwt] at hw
    rw [settle_of_some hw, settle_of_some hwt, settleSends, settleSends, hw, hwt]
    exact ⟨by simp [h.alike.formAt e now],
      (h.alike.decided e now).of_core (hs.core_decideKey false) (ht.core_decideKey false)⟩

/-! ## A press for its own key -/

/-- Unless a keyboard says otherwise, the code that stands for no key has no shifted form. -/
theorem hasForms_noKey (hp : p.isExtra Keycode.noKey = false) (s : Shifter) :
    s.hasForms p Keycode.noKey = false := by
  have hadmits : s.settings.admits Keycode.noKey.base = false := rfl
  have hcode : formCode? Keycode.noKey = some Keycode.noKey.base := rfl
  simp [hasForms, hcode, hadmits, hp]

/-- Whether a press is a repetition is the same of both, if they have the same time of the last
decision or the key is not the last one. -/
theorem Alike.isRepeat (h : Alike s t) (hsince : s.since = t.since ∨ t.last ≠ event.keycode) :
    s.isRepeat event = t.isRepeat event ∧ (t.isRepeat event = true → Level s t) := by
  cases hsince with
  | inl hsame =>
    have hcore := h.core_eq hsame
    exact ⟨(congrArg (Shifter.isRepeat event) hcore :), fun _ => .of_eq hcore⟩
  | inr hne =>
    have hnot : ∀ {x : Shifter}, x.last = t.last → x.isRepeat event = false := fun hx =>
      Bool.eq_false_iff.mpr fun hr => hne (hx ▸ last_of_isRepeat hr)
    simp [hnot h.last, hnot rfl]

/-- Of level shifters with different times of the last decision, none can repeat a key. -/
theorem Level.since_or_ne (h : Level s t) (hp : ∀ k, p.isExtra k = false) {k : Keycode}
    (hforms : t.hasForms p k = true) : s.since = t.since ∨ t.last ≠ k := by
  refine h.since.imp_right fun hnone hlast => ?_
  rw [← hlast, hnone, hasForms_noKey (hp _)] at hforms
  cases hforms

/-- A press does the same for its own key in two shifters that are level, or alike while the key is
not the last one. -/
theorem level_pressOwn (event : Transition) (hs : Calm s) (ht : Calm t)
    (hp : ∀ k, p.isExtra k = false) (hkey : event.keycode.isOrdinary = true) (h : Alike s t)
    (hsince : Level s t ∨ t.last ≠ event.keycode) :
    s.ownSends p event = t.ownSends p event ∧
      Level (s.pressOwn p event).2 (t.pressOwn p event).2 := by
  have hcore := hs.core_pressOwn hp hkey
  have hcore' := ht.core_pressOwn hp hkey
  rw [hs.ownSends_eq hp hkey, ht.ownSends_eq hp hkey]
  rw [h.hasForms, h.bypasses] at hcore ⊢
  cases hforms : t.hasForms p event.keycode with
  | false =>
    simp only [hforms, Bool.false_eq_true, if_false] at hcore hcore' ⊢
    exact ⟨trivial, (h.forgotten event).of_core hcore hcore'⟩
  | true =>
    simp only [hforms, if_true] at hcore hcore' ⊢
    cases hbypasses : t.bypasses with
    | true =>
      have hforgotten : Level { s with last := Keycode.noKey } { t with last := Keycode.noKey } :=
        ⟨h.congr fun x => core { x with last := Keycode.noKey }, .inr rfl⟩
      simp only [hbypasses, if_true] at hcore hcore' ⊢
      exact ⟨trivial, hforgotten.of_core hcore hcore'⟩
    | false =>
      have hsame : s.since = t.since ∨ t.last ≠ event.keycode :=
        hsince.elim (fun hlevel => hlevel.since_or_ne hp hforms) .inr
      obtain ⟨hrepeat, hlevel⟩ := h.isRepeat hsame
      simp only [hbypasses, Bool.false_eq_true, if_false, hrepeat] at hcore hcore' ⊢
      rw [h.last, h.lastShifted]
      cases hagain : t.isRepeat event with
      | true =>
        simp only [hagain, if_true] at hcore hcore'
        exact ⟨rfl, (hlevel hagain).of_core hcore hcore'⟩
      | false =>
        simp only [hagain, Bool.false_eq_true, if_false] at hcore hcore'
        exact ⟨rfl, (h.begun event).of_core hcore hcore'⟩

end LongPress.Shifter
