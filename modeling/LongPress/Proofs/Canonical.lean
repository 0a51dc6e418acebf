import LongPress.Proofs.AsWritten

/-!
# LongPress.Proofs.Canonical

Images written and read back.

A written image says only what is assigned, so a configuration can be read back only if all the rest
has its initial words.  This is kept by every way to come to a configuration: putting settings into
it, compiling a settings file, reading an image (`Reached.keepsInitial`).  An image that is read may
name its slots in any order and more than once; the image that is written of what was read names
each slot once, in order, and stays as it is when it is read and written again.

* `image_roundtrip` — the main statement, for words and for bytes.
-/

namespace LongPress

/-! ## Reaching a configuration -/

namespace Config

variable {c d : Config}

/-- The ways to come to a configuration. A setting that is put into it may have any value, also one
that no settings file can write. -/
inductive Reached : Config → Prop where
  | initial : Reached {}
  | set {c : Config} (h : Reached c) (p : Property) (hp : p.index.toNat < 5) : Reached (c.set p)
  | compiled {source : String} {c : Config} (h : compile source = .ok c) : Reached c
  | decoded {image : List UInt16} {c : Config} (h : decode image = .ok c) : Reached c

theorem KeepsInitial.of_decodePairs {words : List UInt16} (h : c.KeepsInitial)
    (hread : decodePairs words c = .ok d) : d.KeepsInitial := by
  fun_induction decodePairs words c with
  | case1 index word rest c slot _ ih => exact ih (h.setSlot slot word) hread
  | case2 => cases hread
  | case3 => exact Except.ok.inj hread ▸ h

theorem keepsInitial_of_decode {image : List UInt16} (h : decode image = .ok c) :
    c.KeepsInitial := by
  unfold decode at h
  split at h
  · cases h
  · split at h
    · split at h
      · cases h
      · split at h
        · exact keepsInitial_default.of_decodePairs h
        · cases h
    · cases h

theorem Reached.keepsInitial (h : c.Reached) : c.KeepsInitial := by
  induction h with
  | initial => exact keepsInitial_default
  | set _ p _ ih => exact ih.set p
  | compiled h => exact (follows_of_compile h).keepsInitial
  | decoded h => exact keepsInitial_of_decode h

end Config

/-! ## The form of a written image -/

namespace Image

/-- The slots that an image names, in order. -/
def indexesOf (image : List UInt16) : List UInt16 := (pairsOf (image.drop 2)).map (·.1)

theorem pairsOf_flatMap (slots : List Slot) (values : Table) :
    pairsOf (slots.flatMap fun s => [s.index, s.get values]) =
      slots.map fun s => (s.index, s.get values) := by
  induction slots with
  | nil => rfl
  | cons s rest ih => simp [pairsOf, ih]

end Image

theorem Slot.index_lt_index {s t : Slot} (h : s < t) : s.index < t.index := by
  revert s t
  decide

namespace Config

variable {c : Config}

theorem indexesOf_encode (c : Config) :
    Image.indexesOf c.encode = c.assignedSlots.map Slot.index := by
  have hdrop : c.encode.drop 2 = c.pairs := rfl
  rw [Image.indexesOf, hdrop, pairs, Image.pairsOf_flatMap, List.map_map]
  rfl

/-- Each slot is named once, and they are in order. -/
theorem pairwise_indexesOf_encode (c : Config) : (Image.indexesOf c.encode).Pairwise (· < ·) := by
  rw [indexesOf_encode, List.pairwise_map]
  exact ((List.pairwise_lt_finRange 5).filter _).imp Slot.index_lt_index

theorem length_encode (c : Config) :
    c.encode.length = 2 + 2 * (List.finRange 5).countP fun slot : Slot => slot.get c.assigned := by
  have hlength : c.encode.length = c.pairs.length + 2 := rfl
  rw [hlength, length_pairs, assignedSlots, List.countP_eq_length_filter, Nat.add_comm]

end Config

/-! ## Bytes -/

namespace Image

theorem toUInt8_wordOfBytes (low high : UInt8) : (wordOfBytes low high).toUInt8 = low := by
  have hlow : low.toNat < 2 ^ 8 := low.toNat_lt
  apply UInt8.toNat_inj.mp
  rw [UInt16.toNat_toUInt8, toNat_wordOfBytes]
  omega

theorem toUInt8_shiftRight_wordOfBytes (low high : UInt8) :
    (wordOfBytes low high >>> 8).toUInt8 = high := by
  have hlow : low.toNat < 2 ^ 8 := low.toNat_lt
  have hhigh : high.toNat < 2 ^ 8 := high.toNat_lt
  have hshift : (wordOfBytes low high).toNat >>> ((8 : UInt16).toNat % 16) =
      (wordOfBytes low high).toNat / 256 := Nat.shiftRight_eq_div_pow _ _
  apply UInt8.toNat_inj.mp
  rw [UInt16.toNat_toUInt8, UInt16.toNat_shiftRight, hshift, toNat_wordOfBytes]
  omega

/-- The bytes of what is read are the bytes that were there. -/
theorem toBytes_of_ofBytes {bytes : List UInt8} {words : List UInt16}
    (h : ofBytes bytes = .ok words) : toBytes words = bytes := by
  fun_induction ofBytes bytes generalizing words with
  | case1 =>
    obtain rfl : [] = words := Except.ok.inj h
    rfl
  | case2 => cases h
  | case3 low high rest ih =>
    cases hrest : ofBytes rest with
    | error e => simp [hrest, Except.map] at h
    | ok tail =>
      obtain rfl : wordOfBytes low high :: tail = words := by simpa [hrest, Except.map] using h
      have hcons : toBytes (wordOfBytes low high :: tail) =
          (wordOfBytes low high).toUInt8 :: (wordOfBytes low high >>> 8).toUInt8 ::
            toBytes tail := rfl
      rw [hcons, toUInt8_wordOfBytes, toUInt8_shiftRight_wordOfBytes, ih hrest]

theorem exists_ofBytes_iff (bytes : List UInt8) :
    (∃ words, ofBytes bytes = .ok words) ↔ bytes.length % 2 = 0 := by
  fun_induction ofBytes bytes with
  | case1 => simp
  | case2 => simp
  | case3 low high rest ih =>
    have hlength : (low :: high :: rest).length % 2 = rest.length % 2 := by
      simp only [List.length_cons]
      omega
    rw [hlength, ← ih]
    cases ofBytes rest with
    | error e => simp [Except.map]
    | ok tail => simp [Except.map]

end Image

/-! ## The main statement -/

namespace Config

/-- **What is written is read back.**  Of every configuration that can be reached:

* the slots that are not assigned have their initial words;
* its image describes it, names each assigned slot once, in order, and has no other words than the
  version, the number of pairs and the pairs.

So whatever image a configuration was read from, the image that is written of it describes the same
configuration, and is the image that is written of what it describes.  Bytes lose nothing either:
words are read back from their bytes, every even number of bytes is read as words, and those words
have these bytes. -/
theorem image_roundtrip :
    (∀ c : Config, c.Reached →
        (∀ slot : Slot, slot.get c.assigned = false → slot.get c.values = slot.get Table.initial) ∧
        decode c.encode = .ok c ∧
        (Image.indexesOf c.encode).Pairwise (· < ·) ∧
        c.encode.length =
          2 + 2 * (List.finRange 5).countP fun slot : Slot => slot.get c.assigned) ∧
      (∀ image c, decode image = .ok c →
        decode c.encode = .ok c ∧ ∀ d, decode c.encode = .ok d → d.encode = c.encode) ∧
      (∀ words, Image.ofBytes (Image.toBytes words) = .ok words) ∧
      ∀ bytes, ((∃ words, Image.ofBytes bytes = .ok words) ↔ bytes.length % 2 = 0) ∧
        ∀ words, Image.ofBytes bytes = .ok words → Image.toBytes words = bytes := by
  refine ⟨?_, ?_, Image.ofBytes_toBytes, ?_⟩
  · intro c hc
    have hkeeps := hc.keepsInitial
    exact ⟨hkeeps, decode_encode hkeeps, pairwise_indexesOf_encode c, length_encode c⟩
  · intro image c hc
    have hback := decode_encode (keepsInitial_of_decode hc)
    refine ⟨hback, ?_⟩
    intro d hd
    rw [Except.ok.inj (hd.symm.trans hback)]
  · exact fun bytes => ⟨Image.exists_ofBytes_iff bytes, fun _ h => Image.toBytes_of_ofBytes h⟩

/-- A delay that is longer than a settings file may make it. -/
def longDelay : Property := ⟨3, .duration 700 0 100⟩

/-- A compiled configuration gets a setting that no settings file could write, and an image that is
out of order and names a slot twice is written in order. -/
theorem image_roundtrip_of_longDelay :
    compile Settings.rewritten = .ok Settings.quickened ∧
      (Settings.quickened.set longDelay).encode = [1, 3, 0, 150, 3, 700, 4, 15] ∧
      decode [1, 3, 0, 150, 3, 700, 4, 15] = .ok (Settings.quickened.set longDelay) ∧
      decode Settings.overwriting = .ok Settings.overwritten ∧
      Settings.overwritten.encode = [1, 2, 0, 100, 2, 300] ∧
      decode [1, 2, 0, 100, 2, 300] = .ok Settings.overwritten ∧
      Image.toBytes [1, 2, 0, 100, 2, 300] = [1, 0, 2, 0, 0, 0, 100, 0, 2, 0, 44, 1] := by
  have hcompile : compile Settings.rewritten = .ok Settings.quickened := by decide +kernel
  have hraw : (Settings.quickened.set longDelay).encode = [1, 3, 0, 150, 3, 700, 4, 15] := rfl
  have hread : decode Settings.overwriting = .ok Settings.overwritten := rfl
  have hwritten : Settings.overwritten.encode = [1, 2, 0, 100, 2, 300] := rfl
  obtain ⟨hreached, hdecoded, -, hbytes⟩ := image_roundtrip
  obtain ⟨-, hback, -, -⟩ :=
    hreached (Settings.quickened.set longDelay) (.set (.compiled hcompile) longDelay (by decide))
  obtain ⟨hagain, -⟩ := hdecoded Settings.overwriting Settings.overwritten hread
  rw [hraw] at hback
  rw [hwritten] at hagain
  exact ⟨hcompile, hraw, hback, hread, hwritten, hagain, (hbytes _).2 _ rfl⟩

end Config

end LongPress
