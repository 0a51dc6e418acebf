import LongPress.Proofs.Ownership

/-!
# LongPress.Proofs.Modifiers

Every modifier that counts as held is held by a key that is down.

The modifiers that count as held are those in `modifiers` and those in `suppressed` together
(`claimed`).  Taking shift back and giving it back moves bits between the two and changes nothing
else (`Steady`).  So bits come only from the press of a modifier key or from an interruption that
holds a dual role key, and go with the release of that key (`Backed.perform`).
-/

namespace LongPress

/-! ## Bits -/

/-- Whether a modifier bit is set. -/
def Modifiers.bit (m : Modifiers) (i : Nat) : Bool := m.toBitVec.getLsbD i

namespace Modifiers

@[simp] theorem bit_or (a b : Modifiers) (i : Nat) : bit (a ||| b) i = (bit a i || bit b i) := by
  rw [bit, UInt8.toBitVec_or, BitVec.getLsbD_or]
  rfl

@[simp] theorem bit_and (a b : Modifiers) (i : Nat) : bit (a &&& b) i = (bit a i && bit b i) := by
  rw [bit, UInt8.toBitVec_and, BitVec.getLsbD_and]
  rfl

theorem bit_and_not (a b : Modifiers) (i : Nat) :
    bit (a &&& ~~~b) i = (bit a i && !bit b i) := by
  unfold bit
  rw [UInt8.toBitVec_and, UInt8.toBitVec_not, BitVec.getLsbD_and, BitVec.getLsbD_not]
  by_cases hi : i < 8
  · simp [hi]
  · simp [BitVec.getLsbD_of_ge a.toBitVec i (by omega)]

@[simp] theorem bit_zero (i : Nat) : bit 0 i = false := BitVec.getLsbD_zero

/-- Modifiers with the same bits are the same. -/
theorem eq_of_bit {a b : Modifiers} (h : ∀ i, bit a i = bit b i) : a = b :=
  UInt8.toBitVec_inj.mp (BitVec.eq_of_getLsbD_eq fun i _ => h i)

theorem bit_shiftBits (i : Nat) :
    bit Keycode.shiftBits i = (decide (i = 1) || decide (i = 5)) := by
  by_cases hi : i < 8
  · have hall : ∀ j : Fin 8, bit Keycode.shiftBits j.val =
        (decide (j.val = 1) || decide (j.val = 5)) := by
      decide
    exact hall ⟨i, hi⟩
  · have hnone : bit Keycode.shiftBits i = false := BitVec.getLsbD_of_ge _ _ (by omega)
    simp [hnone]
    omega

/-- A shift is among the modifiers if its bit, the second or the sixth, is set. -/
theorem and_shiftBits_ne_zero (m : Modifiers) :
    m &&& Keycode.shiftBits ≠ 0 ↔ bit m 1 = true ∨ bit m 5 = true := by
  constructor
  · intro hne
    by_contra hnot
    simp only [not_or, Bool.not_eq_true] at hnot
    obtain ⟨hleft, hright⟩ := hnot
    apply hne
    refine eq_of_bit fun i => ?_
    rw [bit_and, bit_shiftBits, bit_zero]
    by_cases h1 : i = 1
    · simp [h1, hleft]
    · by_cases h5 : i = 5
      · simp [h5, hright]
      · simp [h1, h5]
  · intro hbit hzero
    have hand : ∀ i, (bit m i && bit Keycode.shiftBits i) = false := fun i => by
      rw [← bit_and, hzero, bit_zero]
    have h1 := hand 1
    have h5 := hand 5
    simp only [bit_shiftBits] at h1 h5
    simp_all

theorem and_shiftBits_or (a b : Modifiers) :
    (a ||| b) &&& Keycode.shiftBits = a &&& Keycode.shiftBits ||| b &&& Keycode.shiftBits :=
  eq_of_bit fun i => by simp [Bool.and_or_distrib_right]

end Modifiers

namespace Keycode

open Modifiers (bit)

variable {k : Keycode}

/-- There are eight modifier keys. -/
theorem eq_of_isModifier (h : k.isModifier = true) :
    ∃ j : Fin 8, k = firstModifier + UInt16.ofNat j.val := by
  simp only [isModifier, firstModifier, Bool.and_eq_true, decide_eq_true_eq,
    UInt16.le_iff_toNat_le] at h
  have hlow : 0xe0 ≤ k.toNat := h.1
  have hhigh : k.toNat ≤ 0xe7 := h.2
  refine ⟨⟨k.toNat - 0xe0, by omega⟩, UInt16.toNat_inj.mp ?_⟩
  have hfirst : firstModifier.toNat = 0xe0 := rfl
  rw [UInt16.toNat_add, UInt16.toNat_ofNat', hfirst]
  dsimp only
  omega

/-- A dual role key is no modifier key. -/
theorem modifierBit_of_isDualRole (h : k.isDualRole = true) : k.modifierBit = 0 := by
  have hnot : k.isModifier = false := by
    refine Bool.eq_false_iff.mpr fun hmod => ?_
    obtain ⟨j, rfl⟩ := eq_of_isModifier hmod
    have hall : ∀ j : Fin 8, (firstModifier + UInt16.ofNat j.val).isDualRole = false := by decide
    simp [hall] at h
  rw [modifierBit, hnot]
  rfl

/-- The shift bits are those of the two shift keys. -/
theorem eq_of_shift {i : Nat} (hbit : bit k.modifierBit i = true)
    (hshift : bit shiftBits i = true) : k = leftShift ∨ k = rightShift := by
  have hi : i < 8 := by
    by_contra hge
    rw [bit, BitVec.getLsbD_of_ge _ _ (by omega)] at hshift
    cases hshift
  have hmod : k.isModifier = true := by
    by_contra hnot
    rw [modifierBit, if_neg hnot, Modifiers.bit_zero] at hbit
    cases hbit
  obtain ⟨j, rfl⟩ := eq_of_isModifier hmod
  have hall : ∀ j i : Fin 8, bit (firstModifier + UInt16.ofNat j.val).modifierBit i.val = true →
      bit shiftBits i.val = true → firstModifier + UInt16.ofNat j.val = leftShift ∨
        firstModifier + UInt16.ofNat j.val = rightShift := by
    decide
  exact hall j ⟨i, hi⟩ hbit hshift

end Keycode

namespace Shifter

open Modifiers (bit)

variable {p : Policy} {K : Keys} {s t u : Shifter} {l : List Sending} {event : Transition}
  {b : UInt8}

/-- The modifiers that count as held, those that are taken back included. -/
def claimed (s : Shifter) : Modifiers := s.modifiers ||| s.suppressed

/-! ## Taking back and giving back -/

/-- The same modifiers count as held, and still only shift is taken back. -/
structure Steady (s t : Shifter) : Prop where
  claimed : t.claimed = s.claimed
  shift : (∀ i, bit s.suppressed i = true → bit Keycode.shiftBits i = true) →
    ∀ i, bit t.suppressed i = true → bit Keycode.shiftBits i = true

theorem Steady.refl : Steady s s := ⟨rfl, id⟩

theorem Steady.trans (h : Steady s t) (h' : Steady t u) : Steady s u :=
  ⟨h'.claimed.trans h.claimed, h'.shift ∘ h.shift⟩

/-- Nothing is done to the modifiers. -/
theorem Steady.of_eq (modifiers : t.modifiers = s.modifiers)
    (suppressed : t.suppressed = s.suppressed) : Steady s t := by
  refine ⟨by rw [Shifter.claimed, modifiers, suppressed, Shifter.claimed], fun h i hi => h i ?_⟩
  rwa [← suppressed]

theorem steady_suppressShift (s : Shifter) : Steady s s.suppressShift := by
  unfold suppressShift
  dsimp only
  split
  · exact .refl
  · refine ⟨Modifiers.eq_of_bit fun i => ?_, fun h i hi => ?_⟩
    · simp only [claimed, emit, Modifiers.bit_or]
      rw [Modifiers.bit_and_not, Modifiers.bit_and]
      cases bit s.modifiers i <;> cases bit Keycode.shiftBits i <;> simp
    · simp only [emit, Modifiers.bit_or, Modifiers.bit_and, Bool.or_eq_true,
        Bool.and_eq_true] at hi
      cases hi with
      | inl hi => exact h i hi
      | inr hi => exact hi.2

theorem steady_restoreShift (s : Shifter) : Steady s s.restoreShift := by
  unfold restoreShift
  dsimp only
  split
  · exact .refl
  · refine ⟨Modifiers.eq_of_bit fun i => ?_, fun _ i hi => ?_⟩
    · simp [claimed, emit]
    · simp [emit] at hi

theorem steady_keyDown (p : Policy) (k : Keycode) (f : Bool) (s : Shifter) :
    Steady s (s.keyDown p k f) := by
  unfold keyDown; dsimp only; split <;> exact .of_eq rfl rfl

theorem steady_keyUp (p : Policy) (k : Keycode) (s : Shifter) : Steady s (s.keyUp p k).2 := by
  unfold keyUp; dsimp only; split <;> exact .of_eq rfl rfl

theorem steady_pause (s : Shifter) : Steady s s.pause := by
  unfold pause; split <;> exact .of_eq rfl rfl

/-! ## Decisions -/

theorem steady_sendDecided (p : Policy) (event : Transition) (now : Tick) (s : Shifter) :
    Steady s (s.sendDecided p event now) := by
  let noted : Shifter := { s with waiting := none, lastShifted := s.formAt event now }
  have hnoted : Steady s noted := .of_eq rfl rfl
  exact (hnoted.trans (steady_suppressShift noted)).trans (steady_keyDown p event.keycode _ _)

theorem steady_decideKey (p : Policy) (event : Transition) (now : Tick) (byScan : Bool)
    (s : Shifter) : Steady s (s.decideKey p event now byScan) := by
  have hsent := steady_sendDecided p event now s
  rw [decideKey_eq]
  split
  · exact hsent.trans (.of_eq rfl rfl)
  · have hup := (hsent.trans (steady_pause _)).trans (steady_keyUp p event.keycode _)
    exact (hup.trans (steady_restoreShift _)).trans (.of_eq rfl rfl)

theorem steady_settle (p : Policy) (now : Tick) (byScan : Bool) (s : Shifter) :
    Steady s (s.settle p now byScan) := by
  unfold settle
  split
  · exact steady_decideKey p _ now byScan s
  · exact .refl

theorem steady_letGo (p : Policy) (k : Keycode) (now : Tick) (s : Shifter) :
    Steady s (s.letGo p k now).2 := by
  have hup := steady_keyUp p k s
  unfold letGo
  dsimp only
  split
  · exact (hup.trans (steady_restoreShift _)).trans (.of_eq rfl rfl)
  · exact hup.trans (.of_eq rfl rfl)

theorem steady_endKey (p : Policy) (k : Keycode) (now : Tick) (s : Shifter) :
    Steady s (s.endKey p k now).2 := by
  unfold endKey
  split
  · split
    · exact steady_decideKey p _ now false s
    · exact steady_letGo p k now s
  · exact steady_letGo p k now s

theorem steady_begin (event : Transition) (s : Shifter) : Steady s (s.begin event) := by
  unfold begin; dsimp only; split <;> exact .of_eq rfl rfl

theorem steady_repeatLast (p : Policy) (s : Shifter) : Steady s (s.repeatLast p) :=
  (steady_suppressShift s).trans (steady_keyDown p _ _ _)

theorem steady_resolve (p : Policy) (event : Transition) (now : Tick) (s : Shifter) :
    Steady s (s.resolve p event now) := by
  have hsettled := steady_settle p now false s
  unfold resolve
  dsimp only
  generalize s.settle p now false = settled at hsettled ⊢
  split
  · let noted : Shifter := { settled with last := Keycode.noKey }
    have hnoted : Steady settled noted := .of_eq rfl rfl
    have hsent := hnoted.trans (steady_keyDown p event.keycode false noted)
    exact hsettled.trans (hsent.trans (steady_keyUp p event.keycode _))
  · have hbegun := steady_begin event settled
    exact hsettled.trans (hbegun.trans (steady_settle p now false _))

theorem steady_typeText (text : List Char) (s : Shifter) : Steady s (s.typeText text) := by
  unfold typeText
  induction text.filterMap keyOfChar? generalizing s with
  | nil => exact .refl
  | cons k ks ih =>
    rw [List.foldl_cons]
    have hfirst : Steady s ((s.emit (.key ⟨k.base, false⟩ true)).emit
        (.key ⟨k.base, false⟩ false)) := .of_eq rfl rfl
    exact hfirst.trans (ih _)

theorem steady_control (key : ControlKey) (s : Shifter) : Steady s (s.control key) := by
  have hturned : ∀ on, Steady s { s with isEnabled := on }.restoreShift := by
    intro on
    have hset : Steady s { s with isEnabled := on } := .of_eq rfl rfl
    exact hset.trans (steady_restoreShift _)
  cases key with
  | shorter => exact .of_eq rfl rfl
  | longer => exact .of_eq rfl rfl
  | report => exact steady_typeText _ s
  | on => exact hturned true
  | off => exact hturned false
  | toggle =>
    show Steady s s.toggle
    unfold toggle
    split
    · exact hturned false
    · exact hturned true

/-! ## Owners of bits -/

/-- Only shift is taken back, and every bit that counts as held is that of a modifier key that is
down, or one that a dual role key is held for. -/
structure Backed (K : Keys) (s : Shifter) : Prop where
  shift (i : Nat) : bit s.suppressed i = true → bit Keycode.shiftBits i = true
  owner (i : Nat) : bit s.claimed i = true → ∃ b e, K b = some e ∧
    (bit e.keycode.modifierBit i = true ∨
      s.held.contains b = true ∧ bit e.keycode.modifiers i = true)

theorem backed_initial (settings : Settings) : Backed .up (initial settings) where
  shift i hi := by simp [initial] at hi
  owner i hi := by simp [initial, claimed] at hi

namespace Backed

theorem steady (h : Backed K s) (hs : Steady s t) (held : t.held = s.held) : Backed K t where
  shift := hs.shift h.shift
  owner i hi := by
    rw [hs.claimed] at hi
    rw [held]
    exact h.owner i hi

/-- A key that goes down takes no bit from another. -/
theorem press (h : Backed K s) (hup : K event.keycode.base = none) : Backed (K.move event) s where
  shift := h.shift
  owner i hi := by
    obtain ⟨b, e, hK, howner⟩ := h.owner i hi
    exact ⟨b, e, Keys.move_of_eq_some hup hK, howner⟩

theorem settle (h : Backed K s) (now : Tick) (byScan : Bool) : Backed K (s.settle p now byScan) :=
  h.steady (steady_settle p now byScan s) (agrees_settle p now byScan s).held

theorem resolve (h : Backed K s) (event : Transition) (now : Tick) :
    Backed K (s.resolve p event now) :=
  h.steady (steady_resolve p event now s) (agrees_resolve p event now s).held

theorem control (h : Backed K s) (key : ControlKey) : Backed K (s.control key) :=
  h.steady (steady_control key s) (agrees_control key s).held

/-- A dual role key that is held brings its modifiers. -/
theorem heldFor (h : Backed K s) {e : Transition} (hK : K e.keycode.base = some e) :
    Backed K (s.heldFor e) where
  shift := h.shift
  owner i hi := by
    have hbits : bit s.claimed i = true ∨ bit e.keycode.modifiers i = true := by
      simp only [claimed, Shifter.heldFor, stopTracking, Modifiers.bit_or, Bool.or_eq_true] at hi ⊢
      rw [or_right_comm]
      exact hi
    cases hbits with
    | inl hold =>
      obtain ⟨b, x, hx, howner⟩ := h.owner i hold
      refine ⟨b, x, hx, howner.imp_right fun hheld => ⟨?_, hheld.2⟩⟩
      rw [Shifter.heldFor, CodeSet.contains_add]
      exact Bool.or_eq_true_iff.mpr (.inr hheld.1)
    | inr hnew =>
      refine ⟨e.keycode.base, e, hK, .inr ⟨?_, hnew⟩⟩
      simp [Shifter.heldFor]

theorem interrupted (h : Backed K s) (howned : Owned p K s) {now : Tick}
    (o : InterruptOutcome p now s l t) : Backed K t := by
  cases o with
  | nothing => exact h
  | holds tracked => exact h.heldFor (howned.tracked tracked).1
  | @types e =>
    have hmarked : Backed K (s.marked e) := h.steady (.of_eq rfl rfl) rfl
    exact hmarked.resolve e now

theorem clearedFor (h : Backed K s) (howned : Owned p K s) (event : Transition) :
    Backed K (s.clearedFor p event) := by
  have hsettled : Backed K (s.settle p event.time false) := h.settle event.time false
  unfold Shifter.clearedFor
  dsimp only
  split
  · exact hsettled
  · exact hsettled.interrupted (howned.settle event.time false)
      (interruptOutcome p event.time _)

/-! ### Presses -/

theorem noteModifier (h : Backed K s) (hK : K event.keycode.base = some event) :
    Backed K (s.noteModifier event.keycode true) where
  shift := h.shift
  owner i hi := by
    have hbits : bit s.claimed i = true ∨ bit event.keycode.modifierBit i = true := by
      simp only [Shifter.noteModifier, claimed, if_true, Modifiers.bit_or, Bool.or_eq_true] at hi ⊢
      rw [or_right_comm]
      exact hi
    cases hbits with
    | inl hold => exact h.owner i hold
    | inr hnew => exact ⟨event.keycode.base, event, hK, .inl hnew⟩

/-- A press whose key was up, once what waited is settled. -/
theorem pressed (h : Backed K s) {r : Bool × Shifter} (o : PressOutcome p event s l r)
    (hup : K event.keycode.base = none) (hdown : event.isDown = true) :
    Backed (K.move event) r.2 := by
  have hpressed := h.press hup
  have hnoted := hpressed.noteModifier (K.move_press hdown)
  cases o with
  | leaves => exact hpressed
  | repeatsDual => exact hpressed.steady (steady_repeatLast p s) (agrees_repeatLast p s).held
  | tracks => exact hpressed.steady (.of_eq rfl rfl) rfl
  | ignores => exact hnoted.steady (.of_eq rfl rfl) rfl
  | passes => exact hnoted.steady (.of_eq rfl rfl) rfl
  | bypasses =>
    have hforgotten : Backed (K.move event) (s.forgotten event) :=
      hnoted.steady (.of_eq rfl rfl) rfl
    exact hforgotten.steady (steady_keyDown p event.keycode false _)
      (agrees_keyDown p _ event.keycode false).held
  | repeats => exact hnoted.steady (steady_repeatLast p _) (agrees_repeatLast p _).held
  | begins => exact hnoted.steady (steady_begin event _) (agrees_begin event _).held

/-! ### Releases -/

/-- A key that goes up is forgotten with its bits. -/
theorem forget (h : Backed K s) {press : Transition} (hK : K event.keycode.base = some press)
    (suppressed : ∀ i, bit t.suppressed i = true → bit s.suppressed i = true)
    (bits : ∀ i, bit t.claimed i = true → bit s.claimed i = true ∧
      bit press.keycode.modifierBit i = false ∧
      (s.held.contains event.keycode.base = true → bit press.keycode.modifiers i = false))
    (held : ∀ b, b ≠ event.keycode.base → t.held.contains b = s.held.contains b) :
    Backed (K.move event) t where
  shift i hi := h.shift i (suppressed i hi)
  owner i hi := by
    obtain ⟨hclaimed, hmodifier, hmodifiers⟩ := bits i hi
    obtain ⟨b, e, he, howner⟩ := h.owner i hclaimed
    have hb : b ≠ event.keycode.base := by
      rintro rfl
      cases hK.symm.trans he
      cases howner with
      | inl hbit => simp [hmodifier] at hbit
      | inr hcase =>
        obtain ⟨hheld, hbit⟩ := hcase
        simp [hmodifiers hheld] at hbit
    refine ⟨b, e, ?_, ?_⟩
    · rw [Keys.move_of_ne K hb, he]
    · rwa [held b hb]

end Backed

/-- A shift key that goes up takes its bit out of those that are taken back. -/
theorem bit_dropped {i : Nat} (hi : bit (s.dropped event).suppressed i = true) :
    bit s.suppressed i = true ∧
      (bit Keycode.shiftBits i = true → bit event.keycode.modifierBit i = false) := by
  unfold dropped dropSuppressed at hi
  dsimp only at hi
  split at hi
  · next hkey =>
    rw [Modifiers.bit_and_not, Bool.and_eq_true, Bool.not_eq_true'] at hi
    rw [hkey]
    exact ⟨hi.1, fun _ => hi.2⟩
  · split at hi
    · next hkey =>
      rw [Modifiers.bit_and_not, Bool.and_eq_true, Bool.not_eq_true'] at hi
      rw [hkey]
      exact ⟨hi.1, fun _ => hi.2⟩
    · next hleft hright =>
      refine ⟨hi, fun hshift => Bool.eq_false_iff.mpr fun hbit => ?_⟩
      cases Keycode.eq_of_shift hbit hshift with
      | inl hkey => exact hleft hkey
      | inr hkey => exact hright hkey

/-- A modifier key that goes up leaves no bit of its own. -/
theorem bit_released (h : Backed K s) {i : Nat}
    (hi : bit ((s.dropped event).noteModifier event.keycode false).claimed i = true) :
    bit s.claimed i = true ∧ bit event.keycode.modifierBit i = false := by
  simp only [claimed, noteModifier, Bool.false_eq_true, if_false, Modifiers.bit_or,
    Modifiers.bit_and_not, Bool.or_eq_true, Bool.and_eq_true, Bool.not_eq_true'] at hi ⊢
  cases hi with
  | inl hcase =>
    obtain ⟨hmodifiers, hnot⟩ := hcase
    exact ⟨.inl hmodifiers, hnot⟩
  | inr hsuppressed =>
    obtain ⟨hold, hnot⟩ := bit_dropped hsuppressed
    exact ⟨.inr hold, hnot (h.shift i hold)⟩

namespace Backed

/-- A single role key goes up with the bit that is its own. -/
theorem forget_single (h : Backed K s) (howned : Owned p K s) {press : Transition}
    (hK : K event.keycode.base = some press) (hkey : event.keycode = press.keycode)
    (single : event.keycode.isDualRole = false) :
    Backed (K.move event) ((s.dropped event).noteModifier event.keycode false) := by
  obtain ⟨-, -, hheld⟩ := howned.not_of_single hK (hkey ▸ single)
  refine h.forget hK (fun i hi => (bit_dropped hi).1) (fun i hi => ?_) fun _ _ => rfl
  obtain ⟨hclaimed, hnot⟩ := bit_released h hi
  exact ⟨hclaimed, hkey ▸ hnot, by simp [hheld]⟩

/-- A release that finds its key down. -/
theorem released (h : Backed K s) (howned : Owned p K s) {r : Bool × Shifter}
    (o : ReleaseOutcome p event s l r) {press : Transition}
    (hK : K event.keycode.base = some press) (hkey : event.keycode = press.keycode) :
    Backed (K.move event) r.2 := by
  have hdropped : ∀ i, bit (s.dropped event).claimed i = true → bit s.claimed i = true := by
    intro i hi
    simp only [claimed, Modifiers.bit_or, Bool.or_eq_true] at hi ⊢
    exact hi.imp_right fun hi => (bit_dropped hi).1
  have hsuppressed : ∀ i, bit (s.dropped event).suppressed i = true → bit s.suppressed i = true :=
    fun i hi => (bit_dropped hi).1
  have hdual : event.keycode.isDualRole = true →
      ∀ i, bit press.keycode.modifierBit i = false := by
    intro dual i
    rw [← hkey, Keycode.modifierBit_of_isDualRole dual, Modifiers.bit_zero]
  cases o with
  | tapped dual tapped =>
    obtain ⟨_, _, _, hheld⟩ := howned.tapped tapped
    refine h.forget hK hsuppressed (fun i hi => ⟨hdropped i hi, hdual dual i, ?_⟩) fun _ _ => rfl
    simp [hheld]
  | held dual tapped held =>
    refine h.forget hK (fun i hi => ?_) (fun i hi => ?_) (fun b hb => by simp [hb])
    · rw [Modifiers.bit_and_not, Bool.and_eq_true] at hi
      exact hsuppressed i hi.1
    · simp only [claimed, Modifiers.bit_or, Modifiers.bit_and_not, Bool.or_eq_true,
        Bool.and_eq_true, Bool.not_eq_true'] at hi
      rw [← or_and_right] at hi
      refine ⟨hdropped i ?_, hdual dual i, fun _ => hkey ▸ hi.2⟩
      simp only [claimed, Modifiers.bit_or, Bool.or_eq_true]
      exact hi.1
  | endsDual dual tapped held =>
    have hu := untracked_eq event (s.dropped event)
    generalize (s.dropped event).untracked event = u at hu ⊢
    have hforgot : Backed (K.move event) u := by
      rw [hu]
      refine h.forget hK hsuppressed (fun i hi => ⟨hdropped i hi, hdual dual i, ?_⟩)
        fun _ _ => rfl
      simp [held]
    exact hforgot.steady (steady_endKey p event.keycode event.time u)
      (agrees_endKey p event.keycode event.time u).held
  | ends single forms =>
    have hforgot : Backed (K.move event) (s.unpassed event) :=
      (h.forget_single howned hK hkey single).steady (.of_eq rfl rfl) rfl
    exact hforgot.steady (steady_endKey p event.keycode event.time _)
      (agrees_endKey p event.keycode event.time _).held
  | ignores single forms => exact h.forget_single howned hK hkey single

/-! ### Every operation -/

theorem handlePress (h : Backed K s) (howned : Owned p K s) (hup : K event.keycode.base = none)
    (hdown : event.isDown = true) (hcontrol : event.keycode.isControl = false) :
    Backed (K.move event) (s.handlePress p event).2 := by
  rw [handlePress_eq]
  exact (h.clearedFor howned event).pressed (pressOutcome p _ hcontrol) hup hdown

theorem handle_control (h : Backed K s) (howned : Owned p K s)
    (hcontrol : event.keycode.isControl = true) : Backed K (s.handle p event).2 := by
  unfold Shifter.handle
  split
  · obtain ⟨key, hkey, -⟩ := pressOwn_control p (s.clearedFor p event) hcontrol
    rw [handlePress_eq, hkey]
    exact (h.clearedFor howned event).control key
  · rw [(handleRelease_control p s hcontrol).1]
    exact h

theorem scan (h : Backed K s) (now : Tick) : Backed K (s.scan p now) := by
  refine scan_keeps h (fun e _ => ?_) fun t e hkept _ => hkept.steady (.of_eq rfl rfl) rfl
  exact h.steady (steady_decideKey p e now true s) (agrees_decideKey p e now true s).held

theorem verdict (h : Backed K s) (keycode : Keycode) (v : Verdict) (pressTime : Tick)
    (switch : Switch) (now : Tick) :
    Backed K (s.verdict p keycode v pressTime switch now).2 := by
  have hstopped : Backed K s.stopTracking := h.steady (.of_eq rfl rfl) rfl
  unfold Shifter.verdict
  split
  · exact h
  · cases v with
    | tap => exact hstopped
    | hold => exact hstopped.resolve _ now

/-- Every operation that comes at its time, unless it sets the modifiers or loads settings. -/
theorem perform (h : Backed K s) (howned : Owned p K s) {op : Operation}
    (hset : ∀ bits, op ≠ .setModifiers bits) (hadmits : op.move?.all K.admits = true) :
    Backed (K.perform op) (s.perform p op).2 := by
  cases op with
  | handle event =>
    cases hcontrol : event.keycode.isControl with
    | true =>
      rw [show K.perform (.handle event) = K by simp [Keys.perform, Operation.move?, hcontrol]]
      exact h.handle_control howned hcontrol
    | false =>
      rw [Operation.move?_handle hcontrol] at hadmits
      rw [Keys.perform_handle hcontrol]
      simp only [Shifter.perform, handle]
      split
      · next hdown =>
        exact h.handlePress howned (Keys.eq_none_of_admits hadmits hdown) hdown hcontrol
      · next hnot =>
        obtain ⟨press, hK, hkey, -⟩ :=
          Keys.eq_some_of_admits hadmits (Bool.eq_false_iff.mpr hnot)
        exact h.released howned (releaseOutcome p s hcontrol) hK hkey
  | scan now => exact h.scan now
  | verdict keycode v pressTime switch now => exact h.verdict keycode v pressTime switch now
  | setModifiers bits => exact absurd rfl (hset bits)
  | enable => exact h.control .on
  | disable => exact h.control .off
  | toggle => exact h.control .toggle
  | _ => exact h.steady (.of_eq rfl rfl) rfl

/-- With every key up, no modifier counts as held. -/
theorem eq_zero (h : Backed K s) (hup : ∀ b, K b = none) : s.modifiers = 0 ∧ s.suppressed = 0 := by
  have hclaimed : s.claimed = 0 := by
    refine Modifiers.eq_of_bit fun i => ?_
    rw [Modifiers.bit_zero]
    refine Bool.eq_false_iff.mpr fun hi => ?_
    obtain ⟨b, e, hK, -⟩ := h.owner i hi
    simp [hup] at hK
  exact UInt8.or_eq_zero_iff.mp hclaimed

end Backed

end Shifter

end LongPress
