import LongPress.Proofs.TwoReaders

/-!
# LongPress.Proofs.Transfer

The way of a configuration to the keyboard: written as an image, kept as bytes, read back into words
and loaded.

Nothing is lost on the way. Words survive being bytes (`ofBytes_toBytes`), and a keyboard that loads
an image has the words of the configuration that was written (`load_encode`). The image leaves out
every slot that is not assigned, so this takes a configuration in which those slots have their
initial words (`KeepsInitial`).
-/

namespace LongPress

/-! ## Bytes -/

namespace Image

theorem toNat_wordOfBytes (low high : UInt8) :
    (wordOfBytes low high).toNat = 256 * high.toNat + low.toNat := by
  have hlow : low.toNat < 2 ^ 8 := low.toNat_lt
  have hhigh : high.toNat < 2 ^ 8 := high.toNat_lt
  have hshift : high.toNat <<< 8 % 2 ^ 16 = high.toNat <<< 8 := by
    rw [Nat.shiftLeft_eq]
    omega
  calc (wordOfBytes low high).toNat
      = low.toNat ||| high.toNat <<< 8 % 2 ^ 16 := by
        simp only [wordOfBytes, UInt16.toNat_or, UInt16.toNat_shiftLeft, UInt8.toNat_toUInt16]
        rfl
    _ = high.toNat <<< 8 + low.toNat := by
        rw [hshift, Nat.or_comm, Nat.shiftLeft_add_eq_or_of_lt hlow]
    _ = 256 * high.toNat + low.toNat := by rw [Nat.shiftLeft_eq, Nat.mul_comm]

/-- A word is made of its two bytes. -/
theorem wordOfBytes_bytes (w : UInt16) : wordOfBytes w.toUInt8 (w >>> 8).toUInt8 = w := by
  have hhigh : w.toNat >>> ((8 : UInt16).toNat % 16) = w.toNat / 256 :=
    Nat.shiftRight_eq_div_pow _ _
  have hw : w.toNat < 2 ^ 16 := w.toNat_lt
  apply UInt16.toNat_inj.mp
  rw [toNat_wordOfBytes, UInt16.toNat_toUInt8, UInt16.toNat_toUInt8, UInt16.toNat_shiftRight]
  omega

theorem ofBytes_toBytes (words : List UInt16) : ofBytes (toBytes words) = .ok words := by
  induction words with
  | nil => rfl
  | cons w rest ih =>
    have hcons : toBytes (w :: rest) = w.toUInt8 :: (w >>> 8).toUInt8 :: toBytes rest := rfl
    rw [hcons, ofBytes, ih, wordOfBytes_bytes]
    rfl

end Image

/-! ## Pairs -/

/-- Putting entries into some slots changes just those slots. -/
theorem Slot.get_foldl_set {α : Type} (slots : List Slot) (entry : Slot → α) (entries : Vector α 5)
    (slot : Slot) :
    slot.get (slots.foldl (fun es s => s.set es (entry s)) entries) =
      bif slots.contains slot then entry slot else slot.get entries := by
  induction slots generalizing entries with
  | nil => rfl
  | cons s rest ih =>
    rw [List.foldl_cons, ih, Slot.get_set]
    by_cases hs : s = slot
    · simp [hs]
    · simp [hs, Ne.symm hs]

namespace Config

/-- Reading the pairs of some slots assigns their words to them. -/
theorem decodePairs_flatMap (slots : List Slot) (values : Table) (c : Config) :
    decodePairs (slots.flatMap fun s => [s.index, s.get values]) c =
      .ok { values := slots.foldl (fun t s => s.set t (s.get values)) c.values
            assigned := slots.foldl (fun es s => s.set es true) c.assigned } := by
  induction slots generalizing c with
  | nil => rfl
  | cons s rest ih => simp [decodePairs, ih, setSlot]

end Config

/-! ## Images -/

namespace Config

variable {c : Config}

/-- Slots that are not assigned have their initial words. -/
def KeepsInitial (c : Config) : Prop :=
  ∀ slot : Slot, slot.get c.assigned = false → slot.get c.values = slot.get Table.initial

theorem keepsInitial_default : KeepsInitial {} := fun _ _ => rfl

theorem KeepsInitial.setSlot (h : c.KeepsInitial) (slot : Slot) (word : UInt16) :
    (c.setSlot slot word).KeepsInitial := by
  intro s hs
  unfold Config.setSlot at hs ⊢
  by_cases he : slot = s
  · simp [he] at hs
  · rw [Slot.get_set_of_ne he] at hs ⊢
    exact h s hs

theorem KeepsInitial.set (h : c.KeepsInitial) (p : Property) : (c.set p).KeepsInitial := by
  unfold Config.set set?
  cases Slot.ofIndex? p.index with
  | none => exact h
  | some slot => exact h.setSlot slot _

theorem mem_assignedSlots {slot : Slot} : slot ∈ c.assignedSlots ↔ slot.get c.assigned = true := by
  simp [assignedSlots]

theorem length_assignedSlots_le (c : Config) : c.assignedSlots.length ≤ 5 :=
  Nat.le_trans (List.length_filter_le _ _) (Nat.le_of_eq List.length_finRange)

theorem length_pairs (c : Config) : c.pairs.length = 2 * c.assignedSlots.length := by
  unfold pairs
  induction c.assignedSlots with
  | nil => rfl
  | cons s rest ih =>
    simp only [List.flatMap_cons, List.length_append, List.length_cons, List.length_nil, ih]
    omega

theorem eq_of_get {c d : Config} (values : ∀ slot : Slot, slot.get c.values = slot.get d.values)
    (assigned : ∀ slot : Slot, slot.get c.assigned = slot.get d.assigned) : c = d := by
  cases c
  cases d
  rw [mk.injEq]
  exact ⟨Slot.eq_of_get values, Slot.eq_of_get assigned⟩

/-- The image of a configuration describes it. -/
theorem decode_encode (h : c.KeepsInitial) : decode c.encode = .ok c := by
  have hcount : (UInt16.ofNat c.assignedSlots.length).toNat = c.assignedSlots.length :=
    UInt16.toNat_ofNat_of_lt' (Nat.lt_of_le_of_lt c.length_assignedSlots_le (by decide))
  have hmem : ∀ slot, c.assignedSlots.contains slot = slot.get c.assigned := by
    intro slot
    rw [Bool.eq_iff_iff, List.contains_iff_mem, mem_assignedSlots]
  simp only [encode, decode, if_true, hcount, length_pairs]
  rw [pairs, decodePairs_flatMap, Except.ok.injEq]
  apply eq_of_get
  · intro slot
    rw [Slot.get_foldl_set, hmem]
    cases ha : slot.get c.assigned with
    | true => rfl
    | false => exact (h slot ha).symm
  · intro slot
    rw [Slot.get_foldl_set, hmem]
    cases ha : slot.get c.assigned with
    | true => rfl
    | false =>
      show slot.get (Vector.replicate 5 false) = false
      simp [Slot.get]

/-- Whatever the keyboard had, it now has the words of the configuration. -/
theorem load_encode (h : c.KeepsInitial) (old : Settings) :
    old.load c.encode = (.ok (), { table := c.values }) := by
  rw [Settings.load, Settings.readImage_eq_ok_iff.mpr ⟨c, decode_encode h, rfl⟩]

end Config

end LongPress
