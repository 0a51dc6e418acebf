/-!
# LongPress.CodeSet

Sets of byte codes, one bit for each code in thirty-two bytes: bit `c % 8` of byte `c / 8` says
whether `c` is in the set.

The byte operations are the definitions; `contains` is the view. The lemmas say what each operation
does to the view, and nothing else needs to look at the bytes.
-/

namespace LongPress

/-- A set of byte codes. -/
structure CodeSet where
  bytes : Vector UInt8 32
  deriving DecidableEq, Repr

namespace CodeSet

/-- The set without codes. -/
def empty : CodeSet := ⟨Vector.replicate 32 0⟩

instance : EmptyCollection CodeSet := ⟨empty⟩

instance : Inhabited CodeSet := ⟨empty⟩

/-! ## Where a code is kept -/

theorem toNat_shiftRight_three (c : UInt8) : (c >>> 3).toNat = c.toNat / 8 := by
  rw [UInt8.toNat_shiftRight]
  simp [Nat.shiftRight_eq_div_pow]

/-- The byte that keeps a code. Every code has one. -/
def place (c : UInt8) : Fin 32 :=
  ⟨(c >>> 3).toNat, by have := c.toNat_lt; rw [toNat_shiftRight_three]; omega⟩

/-- The bit of a code in its byte. -/
def mask (c : UInt8) : UInt8 := 1 <<< (c &&& 7)

/-- The byte a code is kept in. -/
def byte (s : CodeSet) (c : UInt8) : UInt8 := s.bytes[(place c).val]

theorem byte_congr (s : CodeSet) {c d : UInt8} (h : place c = place d) : s.byte c = s.byte d := by
  simp only [byte, h]

/-- Replaces the byte a code is kept in. -/
def setByte (s : CodeSet) (c b : UInt8) : CodeSet := ⟨s.bytes.set (place c).val b⟩

theorem byte_setByte (s : CodeSet) (c d b : UInt8) :
    (s.setByte c b).byte d = if place c = place d then b else s.byte d := by
  simp only [byte, setByte, Vector.getElem_set, Fin.ext_iff]

/-! ## Operations -/

def contains (s : CodeSet) (c : UInt8) : Bool := s.byte c &&& mask c != 0

/-- Puts a code in and says whether it was absent. -/
def add (s : CodeSet) (c : UInt8) : Bool × CodeSet :=
  (s.byte c &&& mask c == 0, s.setByte c (s.byte c ||| mask c))

/-- Takes a code out and says whether it was present. -/
def remove (s : CodeSet) (c : UInt8) : Bool × CodeSet :=
  (s.byte c ||| ~~~mask c == 0xff, s.setByte c (s.byte c &&& ~~~mask c))

/-- Puts a code in or takes it out. -/
def put (s : CodeSet) (c : UInt8) (present : Bool) : CodeSet :=
  if present then (s.add c).2 else (s.remove c).2

/-! ## One byte -/

theorem toBitVec_mask (c : UInt8) : (mask c).toBitVec = BitVec.twoPow 8 (c.toNat % 8) := by
  have h : ∀ i : Fin 8, (1 <<< UInt8.ofNat i.val : UInt8).toBitVec = BitVec.twoPow 8 i.val := by
    decide
  have hc : c &&& 7 = UInt8.ofNat (c.toNat % 8) := by
    apply UInt8.toNat_inj.mp
    have hlt : c.toNat % 8 < 256 := by omega
    rw [UInt8.toNat_and, UInt8.toNat_ofNat', Nat.mod_eq_of_lt (by omega)]
    exact Nat.and_two_pow_sub_one_eq_mod c.toNat 3
  unfold mask
  rw [hc]
  exact h ⟨c.toNat % 8, Nat.mod_lt _ (by decide)⟩

/-- A code is in its byte exactly when its bit is set there. -/
theorem and_mask_ne_zero (b c : UInt8) :
    (b &&& mask c != 0) = b.toBitVec.getLsbD (c.toNat % 8) := by
  have h : (b &&& mask c = 0) ↔ b.toBitVec.getLsbD (c.toNat % 8) = false := by
    rw [← UInt8.toBitVec_inj, UInt8.toBitVec_and, toBitVec_mask, BitVec.and_twoPow]
    have hne : BitVec.twoPow 8 (c.toNat % 8) ≠ (0 : UInt8).toBitVec := by
      have : ∀ i : Fin 8, BitVec.twoPow 8 i.val ≠ (0 : UInt8).toBitVec := by decide
      exact this ⟨c.toNat % 8, Nat.mod_lt _ (by decide)⟩
    cases b.toBitVec.getLsbD (c.toNat % 8) <;> simp_all
  cases hb : b.toBitVec.getLsbD (c.toNat % 8) <;> simp_all

theorem getLsbD_or_mask (b c : UInt8) (i : Nat) (hi : i < 8) :
    (b ||| mask c).toBitVec.getLsbD i = (decide (i = c.toNat % 8) || b.toBitVec.getLsbD i) := by
  rw [UInt8.toBitVec_or, toBitVec_mask, BitVec.getLsbD_or, BitVec.getLsbD_twoPow]
  have : c.toNat % 8 < 8 := Nat.mod_lt _ (by decide)
  by_cases h : i = c.toNat % 8 <;> simp_all [eq_comm]

theorem getLsbD_and_not_mask (b c : UInt8) (i : Nat) (hi : i < 8) :
    (b &&& ~~~mask c).toBitVec.getLsbD i =
      (!decide (i = c.toNat % 8) && b.toBitVec.getLsbD i) := by
  rw [UInt8.toBitVec_and, UInt8.toBitVec_not, toBitVec_mask, BitVec.getLsbD_and,
    BitVec.getLsbD_not, BitVec.getLsbD_twoPow]
  have : c.toNat % 8 < 8 := Nat.mod_lt _ (by decide)
  by_cases h : i = c.toNat % 8 <;> simp_all [eq_comm]

/-- A byte is full up to one bit exactly when that bit is all it may lack. -/
theorem or_not_mask_eq (b c : UInt8) :
    (b ||| ~~~mask c == 0xff) = b.toBitVec.getLsbD (c.toNat % 8) := by
  have h : (b ||| ~~~mask c = 0xff) ↔ b.toBitVec.getLsbD (c.toNat % 8) = true := by
    have h8 : c.toNat % 8 < 8 := Nat.mod_lt _ (by decide)
    have hff : ∀ i : Fin 8, (0xff : UInt8).toBitVec.getLsbD i.val = true := by decide
    have hbit : ∀ i, i < 8 → (b ||| ~~~mask c).toBitVec.getLsbD i =
        (b.toBitVec.getLsbD i || !decide (i = c.toNat % 8)) := by
      intro i hi
      rw [UInt8.toBitVec_or, UInt8.toBitVec_not, toBitVec_mask, BitVec.getLsbD_or,
        BitVec.getLsbD_not, BitVec.getLsbD_twoPow]
      by_cases h : i = c.toNat % 8 <;> simp [h, h8, hi, eq_comm]
    constructor
    · intro e
      have := hbit _ h8
      rw [e, hff ⟨_, h8⟩] at this
      simpa using this.symm
    · intro e
      rw [← UInt8.toBitVec_inj]
      apply BitVec.eq_of_getLsbD_eq
      intro i hi
      rw [hbit i hi, hff ⟨i, hi⟩]
      by_cases h : i = c.toNat % 8 <;> simp_all
  cases hb : b.toBitVec.getLsbD (c.toNat % 8) <;> simp_all

/-! ## What the operations do to the view -/

/-- Two codes with one byte and one bit are one code. -/
theorem eq_of_place_eq {c d : UInt8} (hp : place c = place d)
    (hm : c.toNat % 8 = d.toNat % 8) : c = d := by
  have h := congrArg Fin.val hp
  simp only [place, toNat_shiftRight_three] at h
  apply UInt8.toNat_inj.mp
  omega

@[simp] theorem contains_empty (c : UInt8) : (∅ : CodeSet).contains c = false := by
  simp [contains, byte, EmptyCollection.emptyCollection, empty]

@[simp] theorem add_fst (s : CodeSet) (c : UInt8) : (s.add c).1 = !s.contains c := by
  simp only [add, contains, bne, Bool.not_not]

@[simp] theorem remove_fst (s : CodeSet) (c : UInt8) : (s.remove c).1 = s.contains c := by
  simp only [remove, contains, or_not_mask_eq, and_mask_ne_zero]

@[simp] theorem contains_add (s : CodeSet) (c d : UInt8) :
    (s.add c).2.contains d = (decide (d = c) || s.contains d) := by
  have h8 : d.toNat % 8 < 8 := Nat.mod_lt _ (by decide)
  simp only [add, contains, and_mask_ne_zero, byte_setByte]
  split
  · next hp =>
    rw [getLsbD_or_mask _ _ _ h8, s.byte_congr hp]
    congr 1
    exact decide_eq_decide.mpr ⟨fun hm => (eq_of_place_eq hp hm.symm).symm, fun e => by rw [e]⟩
  · next hp =>
    have : d ≠ c := fun e => hp (by rw [e])
    simp [this]

@[simp] theorem contains_remove (s : CodeSet) (c d : UInt8) :
    (s.remove c).2.contains d = (!decide (d = c) && s.contains d) := by
  have h8 : d.toNat % 8 < 8 := Nat.mod_lt _ (by decide)
  simp only [remove, contains, and_mask_ne_zero, byte_setByte]
  split
  · next hp =>
    rw [getLsbD_and_not_mask _ _ _ h8, s.byte_congr hp]
    congr 2
    exact decide_eq_decide.mpr ⟨fun hm => (eq_of_place_eq hp hm.symm).symm, fun e => by rw [e]⟩
  · next hp =>
    have : d ≠ c := fun e => hp (by rw [e])
    simp [this]

@[simp] theorem contains_put (s : CodeSet) (c d : UInt8) (present : Bool) :
    (s.put c present).contains d = if d = c then present else s.contains d := by
  cases present <;> by_cases h : d = c <;> simp [put, h]

/-- Sets with the same codes are the same. -/
theorem eq_of_contains {s t : CodeSet} (h : ∀ c, s.contains c = t.contains c) : s = t := by
  have hbytes : s.bytes = t.bytes := by
    apply Vector.ext
    intro i hi
    rw [← UInt8.toBitVec_inj]
    apply BitVec.eq_of_getLsbD_eq
    intro j hj
    have hc : (UInt8.ofNat (8 * i + j)).toNat = 8 * i + j := by
      rw [UInt8.toNat_ofNat', Nat.mod_eq_of_lt (by omega)]
    have hplace : (place (UInt8.ofNat (8 * i + j))).val = i := by
      simp only [place, toNat_shiftRight_three, hc]
      omega
    have hbit : (UInt8.ofNat (8 * i + j)).toNat % 8 = j := by omega
    have hcode := h (UInt8.ofNat (8 * i + j))
    simp only [contains, and_mask_ne_zero, byte, hplace, hbit] at hcode
    exact hcode
  cases s
  cases t
  exact congrArg CodeSet.mk hbytes

theorem eq_empty_of_contains {s : CodeSet} (h : ∀ c, s.contains c = false) : s = ∅ :=
  eq_of_contains fun c => by rw [h c, contains_empty]

end CodeSet

end LongPress
