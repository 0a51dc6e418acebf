import Mathlib.Algebra.Group.Nat.Defs
import LongPress.Keycode.Basic

/-!
# LongPress.Proofs.Ranges

Codes as numbers: the parts of a code, the codes that are built from parts, and the ranges, all in
terms of `toNat`.  What is built has the parts it was built from, and a code of a range is built
from its parts.
-/

namespace LongPress.Keycode

variable {k : Keycode}

/-! ## Parts -/

theorem toNat_base (k : Keycode) : k.base.toNat = k.toNat % 256 := by
  simp [base]

theorem toNat_high (k : Keycode) : (k >>> 8).toUInt8.toNat = k.toNat / 256 := by
  have hk : k.toNat < 2 ^ 16 := k.toNat_lt
  have hshift : k.toNat >>> ((8 : UInt16).toNat % 16) = k.toNat / 256 :=
    Nat.shiftRight_eq_div_pow _ _
  rw [UInt16.toNat_toUInt8, UInt16.toNat_shiftRight, hshift]
  omega

theorem toNat_chord (k : Keycode) : k.chord.toNat = k.toNat / 256 % 32 := by
  rw [chord, UInt8.toNat_and, toNat_high]
  exact Nat.and_two_pow_sub_one_eq_mod _ 5

theorem toNat_chord_lt (k : Keycode) : k.chord.toNat < 32 := by
  rw [toNat_chord]
  exact Nat.mod_lt _ (by decide)

theorem toNat_layer (k : Keycode) : k.layer.toNat = k.toNat / 256 % 16 := by
  rw [layer, UInt8.toNat_and, toNat_high]
  exact Nat.and_two_pow_sub_one_eq_mod _ 4

/-! ## Built codes -/

/-- Two words with no bits in common are added. -/
theorem toNat_or_of_lt {high low : UInt16} {a i : Nat} (hhigh : high.toNat = a * 2 ^ i)
    (hlow : low.toNat < 2 ^ i) : (high ||| low).toNat = high.toNat + low.toNat := by
  rw [UInt16.toNat_or, hhigh, ← Nat.shiftLeft_eq, Nat.shiftLeft_add_eq_or_of_lt hlow]

theorem toNat_shifted_chord (c : Chord) :
    ((c.toUInt16 &&& 0x1f) <<< (8 : UInt16)).toNat = c.toNat % 32 * 2 ^ 8 := by
  have hchord : (c.toUInt16 &&& 0x1f).toNat = c.toNat % 32 := by
    rw [UInt16.toNat_and, UInt8.toNat_toUInt16]
    exact Nat.and_two_pow_sub_one_eq_mod _ 5
  have height : (8 : UInt16).toNat % 16 = 8 := rfl
  rw [UInt16.toNat_shiftLeft, hchord, height, Nat.shiftLeft_eq]
  omega

theorem toNat_composite (c : Chord) (b : UInt8) :
    (composite c b).toNat = 256 * (c.toNat % 32) + b.toNat := by
  have hb : b.toUInt16.toNat < 2 ^ 8 := by
    rw [UInt8.toNat_toUInt16]
    exact b.toNat_lt
  rw [composite, toNat_or_of_lt (toNat_shifted_chord c) hb, toNat_shifted_chord,
    UInt8.toNat_toUInt16]
  omega

theorem modTap_eq (c : Chord) (b : UInt8) : modTap c b = 0x6000 ||| composite c b := by
  rw [modTap, composite, UInt16.or_assoc]

theorem toNat_modTap (c : Chord) (b : UInt8) :
    (modTap c b).toNat = 0x6000 + 256 * (c.toNat % 32) + b.toNat := by
  have hb : b.toNat < 2 ^ 8 := b.toNat_lt
  have hbits : (0x6000 : UInt16).toNat = 3 * 2 ^ 13 := rfl
  have hlow : (composite c b).toNat < 2 ^ 13 := by
    rw [toNat_composite]
    omega
  rw [modTap_eq, toNat_or_of_lt hbits hlow, toNat_composite, Nat.add_assoc]
  rfl

/-- A layer is four bits of a chord. -/
theorem layerTap_eq (l b : UInt8) : layerTap l b = 0x4000 ||| composite (l &&& 0xf) b := by
  have hl : (l &&& 0xf).toUInt16 &&& 0x1f = l.toUInt16 &&& 0xf := by
    rw [UInt8.toUInt16_and, UInt16.and_assoc]
    rfl
  rw [layerTap, composite, hl, UInt16.or_assoc]

theorem toNat_layerTap (l b : UInt8) :
    (layerTap l b).toNat = 0x4000 + 256 * (l.toNat % 16) + b.toNat := by
  have hb : b.toNat < 2 ^ 8 := b.toNat_lt
  have hbits : (0x4000 : UInt16).toNat = 1 * 2 ^ 14 := rfl
  have hl : (l &&& 0xf).toNat = l.toNat % 16 := by
    rw [UInt8.toNat_and]
    exact Nat.and_two_pow_sub_one_eq_mod _ 4
  have hcomposite : (composite (l &&& 0xf) b).toNat = 256 * (l.toNat % 16) + b.toNat := by
    rw [toNat_composite, hl]
    omega
  have hlow : (composite (l &&& 0xf) b).toNat < 2 ^ 14 := by omega
  rw [layerTap_eq, toNat_or_of_lt hbits hlow, hcomposite, Nat.add_assoc]
  rfl

/-! ## Ranges -/

theorem isComposite_iff : k.isComposite = true ↔ 0x100 ≤ k.toNat ∧ k.toNat ≤ 0x1fff := by
  simp [isComposite, UInt16.le_iff_toNat_le]

theorem isLayerTap_iff : k.isLayerTap = true ↔ 0x4000 ≤ k.toNat ∧ k.toNat ≤ 0x4fff := by
  simp [isLayerTap, UInt16.le_iff_toNat_le]

theorem isModTap_iff : k.isModTap = true ↔ 0x6000 ≤ k.toNat ∧ k.toNat ≤ 0x7fff := by
  simp [isModTap, UInt16.le_iff_toNat_le]

/-- No mod-tap key is a layer-tap key. -/
theorem isLayerTap_of_isModTap (h : k.isModTap = true) : k.isLayerTap = false := by
  rw [Bool.eq_false_iff, ne_eq, isLayerTap_iff]
  rw [isModTap_iff] at h
  omega

/-- Nor is a composite key either. -/
theorem not_tap_of_isComposite (h : k.isComposite = true) :
    k.isLayerTap = false ∧ k.isModTap = false := by
  simp only [Bool.eq_false_iff, ne_eq, isLayerTap_iff, isModTap_iff]
  rw [isComposite_iff] at h
  omega

/-- A plain key fits a byte. -/
theorem toNat_lt_of_isPlain (h : k.isPlain = true) : k.toNat < 256 := by
  simp only [isPlain, isBasic, lastBasic, Bool.and_eq_true, decide_eq_true_eq,
    UInt16.le_iff_toNat_le] at h
  have hle : k.toNat ≤ 0xfe := h.1.2
  omega

theorem base_toUInt16 (b : UInt8) : Keycode.base b.toUInt16 = b := by
  have hb : b.toNat < 2 ^ 8 := b.toNat_lt
  apply UInt8.toNat_inj.mp
  rw [toNat_base, UInt8.toNat_toUInt16]
  omega

theorem toUInt16_base_of_lt (h : k.toNat < 256) : k.base.toUInt16 = k := by
  apply UInt16.toNat_inj.mp
  rw [UInt8.toNat_toUInt16, toNat_base]
  omega

/-! ## Codes and their parts -/

theorem base_composite (c : Chord) (b : UInt8) : (composite c b).base = b := by
  have hb : b.toNat < 2 ^ 8 := b.toNat_lt
  apply UInt8.toNat_inj.mp
  rw [toNat_base, toNat_composite]
  omega

theorem base_modTap (c : Chord) (b : UInt8) : (modTap c b).base = b := by
  have hb : b.toNat < 2 ^ 8 := b.toNat_lt
  apply UInt8.toNat_inj.mp
  rw [toNat_base, toNat_modTap]
  omega

theorem base_layerTap (l b : UInt8) : (layerTap l b).base = b := by
  have hb : b.toNat < 2 ^ 8 := b.toNat_lt
  apply UInt8.toNat_inj.mp
  rw [toNat_base, toNat_layerTap]
  omega

theorem chord_composite {c : Chord} (hc : c.toNat < 32) (b : UInt8) :
    (composite c b).chord = c := by
  have hb : b.toNat < 2 ^ 8 := b.toNat_lt
  apply UInt8.toNat_inj.mp
  rw [toNat_chord, toNat_composite]
  omega

theorem chord_modTap {c : Chord} (hc : c.toNat < 32) (b : UInt8) : (modTap c b).chord = c := by
  have hb : b.toNat < 2 ^ 8 := b.toNat_lt
  apply UInt8.toNat_inj.mp
  rw [toNat_chord, toNat_modTap]
  omega

theorem composite_parts (h : k.isComposite = true) : composite k.chord k.base = k := by
  rw [isComposite_iff] at h
  apply UInt16.toNat_inj.mp
  rw [toNat_composite, toNat_chord, toNat_base]
  omega

theorem modTap_parts (h : k.isModTap = true) : modTap k.chord k.base = k := by
  rw [isModTap_iff] at h
  apply UInt16.toNat_inj.mp
  rw [toNat_modTap, toNat_chord, toNat_base]
  omega

theorem layerTap_parts (h : k.isLayerTap = true) : layerTap k.layer k.base = k := by
  rw [isLayerTap_iff] at h
  apply UInt16.toNat_inj.mp
  rw [toNat_layerTap, toNat_layer, toNat_base]
  omega

end LongPress.Keycode
