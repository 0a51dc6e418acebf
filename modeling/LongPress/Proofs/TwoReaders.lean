import LongPress.Settings.Image

/-!
# LongPress.Proofs.TwoReaders

Host and keyboard read images alike.

The keyboard reads an image word by word and finds out at its end whether the length was right
(`Settings.readPairs`).  The host looks at the length first and then assigns pair after pair
(`Config.decodePairs`).  What they read is told without either of them: `Image.IsSound` says which
images have no fault, and `Image.lastWord?` which word of a slot counts.

* `readPairs_eq_ok_iff` — the keyboard takes just the pairs that the host takes, if their number is
  right;
* `load_iff_decode` — the main statement.
-/

namespace LongPress

theorem Slot.index_inj {s t : Slot} : s.index = t.index ↔ s = t := by
  revert s t
  decide

/-! ## Pairs -/

namespace Image

/-- The pairs of slot and word that some words stand for. A single word at the end is in none. -/
def pairsOf : List UInt16 → List (UInt16 × UInt16)
  | index :: word :: rest => (index, word) :: pairsOf rest
  | _ => []

theorem pairsOf_of_short {words : List UInt16}
    (h : ∀ index word rest, words = index :: word :: rest → False) : pairsOf words = [] := by
  unfold pairsOf
  split
  · exact (h _ _ _ rfl).elim
  · rfl

/-- The word in the last pair of a slot. -/
def lastWord? (slot : Slot) (pairs : List (UInt16 × UInt16)) : Option UInt16 :=
  (pairs.filter (·.1 = slot.index)).getLast?.map (·.2)

/-- A later pair counts more than the first. -/
theorem lastWord?_cons (slot : Slot) (index word : UInt16) (pairs : List (UInt16 × UInt16)) :
    lastWord? slot ((index, word) :: pairs) =
      (lastWord? slot pairs).or (if index = slot.index then some word else none) := by
  by_cases h : index = slot.index
  · simp only [lastWord?, h, decide_true, List.filter_cons_of_pos, if_true]
    cases hlast : (pairs.filter (·.1 = slot.index)).getLast? <;>
      simp [List.getLast?_cons, hlast]
  · simp [lastWord?, h]

/-- An image without a fault: the version, a number, and that many pairs, each of them of a slot
that there is. -/
def IsSound : List UInt16 → Prop
  | version :: count :: words =>
    version = imageVersion ∧ words.length = 2 * count.toNat ∧
      ∀ pair ∈ pairsOf words, ∃ slot, Slot.ofIndex? pair.1 = some slot
  | _ => False

end Image

/-! ## The host -/

namespace Config

open Image (pairsOf lastWord?)

variable {c d : Config} {words : List UInt16}

theorem exists_decodePairs_iff (words : List UInt16) (c : Config) :
    (∃ d, decodePairs words c = .ok d) ↔
      ∀ pair ∈ pairsOf words, ∃ slot, Slot.ofIndex? pair.1 = some slot := by
  fun_induction decodePairs words c with
  | case1 index word rest c slot hslot ih => simp [pairsOf, hslot, ih]
  | case2 index word rest c hnone => simp [pairsOf, hnone]
  | case3 words c hshort => simp [Image.pairsOf_of_short hshort]

/-- Each slot gets the word of its last pair, and keeps its own if it has none. -/
theorem get_of_decodePairs (h : decodePairs words c = .ok d) (slot : Slot) :
    slot.get d.values = (lastWord? slot (pairsOf words)).getD (slot.get c.values) := by
  fun_induction decodePairs words c with
  | case1 index word rest c place hplace ih =>
    have hindex : index = slot.index ↔ place = slot := by
      rw [← Slot.index_of_ofIndex? hplace]
      exact Slot.index_inj
    rw [ih h, pairsOf, Image.lastWord?_cons]
    simp only [hindex, setSlot, Slot.get_set]
    cases lastWord? slot (pairsOf rest) with
    | some w => rfl
    | none => split <;> rfl
  | case2 => cases h
  | case3 words c hshort =>
    obtain rfl : c = d := Except.ok.inj h
    rw [Image.pairsOf_of_short hshort]
    rfl

end Config

/-! ## The keyboard -/

namespace Settings

/-- The keyboard takes just the pairs that the host takes, if there are as many as announced. -/
theorem readPairs_eq_ok_iff {n : Nat} {words : List UInt16} {c : Config} {t : Table} :
    readPairs n words c.values = .ok t ↔
      words.length = 2 * n ∧ ∃ d, Config.decodePairs words c = .ok d ∧ d.values = t := by
  induction n generalizing words c with
  | zero =>
    cases words with
    | nil => simp [readPairs, Config.decodePairs]
    | cons word rest => simp [readPairs]
  | succ n ih =>
    match words with
    | [] => simp [readPairs]
    | [word] =>
      simp only [readPairs, List.length_singleton, reduceCtorEq, false_iff, not_and]
      intro hlength
      omega
    | index :: word :: rest =>
      have hlength : (index :: word :: rest).length = 2 * (n + 1) ↔ rest.length = 2 * n := by
        simp only [List.length_cons]
        omega
      rw [hlength, readPairs, Config.decodePairs]
      cases Slot.ofIndex? index with
      | none => simp
      | some slot => exact ih (c := c.setSlot slot word)

/-- The keyboard reads the words of the configuration that the host reads. -/
theorem readImage_eq_ok_iff {image : List UInt16} {t : Table} :
    readImage image = .ok t ↔ ∃ c, Config.decode image = .ok c ∧ c.values = t := by
  match image with
  | [] => simp [readImage, Config.decode]
  | [version] => by_cases h : version = imageVersion <;> simp [readImage, Config.decode, h]
  | version :: count :: words =>
    by_cases h : version = imageVersion
    · simp only [readImage, Config.decode, h, if_true]
      rw [readPairs_eq_ok_iff (c := {})]
      by_cases hlength : words.length = 2 * count.toNat <;> simp [hlength]
    · simp [readImage, Config.decode, h]

end Settings

/-! ## Both -/

namespace Config

open Image (pairsOf lastWord? IsSound)

/-- Every image without a fault is read, and no other. -/
theorem exists_decode_iff (image : List UInt16) :
    (∃ c, decode image = .ok c) ↔ IsSound image := by
  match image with
  | [] => simp [decode, IsSound]
  | [version] => by_cases h : version = imageVersion <;> simp [decode, IsSound, h]
  | version :: count :: words =>
    by_cases h : version = imageVersion
    · by_cases hlength : words.length = 2 * count.toNat
      · simpa [decode, IsSound, h, hlength] using exists_decodePairs_iff words {}
      · simp [decode, IsSound, h, hlength]
    · simp [decode, IsSound, h]

/-- Each slot of a configuration that is read has the word of its last pair, or its initial one. -/
theorem get_of_decode {image : List UInt16} {c : Config} (h : decode image = .ok c) (slot : Slot) :
    slot.get c.values =
      (lastWord? slot (pairsOf (image.drop 2))).getD (slot.get Table.initial) := by
  match image with
  | [] => cases h
  | [version] => by_cases hversion : version = imageVersion <;> simp [decode, hversion] at h
  | version :: count :: words =>
    simp only [decode] at h
    split at h
    · split at h
      · exact get_of_decodePairs h slot
      · cases h
    · cases h

end Config

namespace Settings

/-- **Host and keyboard read an image alike.**  Whatever settings the keyboard has, it takes an
image exactly if the host can read it, and that is if the image has no fault.  Then the keyboard
has the words that the host has read: in each slot the word of the last pair that names the slot, or
the initial word if no pair does.  An image that the keyboard refuses changes nothing. -/
theorem load_iff_decode (image : List UInt16) (s : Settings) :
    ((s.load image).1 = .ok () ↔ ∃ c, Config.decode image = .ok c) ∧
      ((∃ c, Config.decode image = .ok c) ↔ Image.IsSound image) ∧
      (∀ c, Config.decode image = .ok c → (s.load image).2.table = c.values ∧
        ∀ slot : Slot, slot.get c.values =
          (Image.lastWord? slot (Image.pairsOf (image.drop 2))).getD (slot.get Table.initial)) ∧
      ∀ e, (s.load image).1 = .error e → (s.load image).2 = s := by
  refine ⟨?_, Config.exists_decode_iff image, ?_, fun e he => load_snd_of_error he⟩
  · cases hread : readImage image with
    | ok t =>
      obtain ⟨c, hc, -⟩ := readImage_eq_ok_iff.mp hread
      simp [load, hread, hc]
    | error e =>
      have hnone : ∀ c, Config.decode image ≠ .ok c := by
        intro c hc
        rw [readImage_eq_ok_iff.mpr ⟨c, hc, rfl⟩] at hread
        cases hread
      simp [load, hread, hnone]
  · intro c hc
    refine ⟨?_, Config.get_of_decode hc⟩
    rw [load, readImage_eq_ok_iff.mpr ⟨c, hc, rfl⟩]

/-- An image that names a slot twice, and its slots out of order. -/
def overwriting : List UInt16 := [1, 3, 2, 0, 0, 100, 2, 300]

/-- What it describes. -/
def overwritten : Config where
  values := #v[100, 200, 300, 0, Flag.initial]
  assigned := #v[true, false, true, false, false]

/-- An image that announces a pair more than it has. -/
def cutShort : List UInt16 := [1, 2, 0, 100]

theorem load_iff_decode_of_overwriting :
    Config.decode overwriting = .ok overwritten ∧ Image.IsSound overwriting ∧
      ¬ Image.IsSound cutShort ∧
      ∀ s : Settings, (s.load overwriting).1 = .ok () ∧
        (s.load overwriting).2.table = overwritten.values ∧
        (s.load cutShort).1 = .error .corrupt ∧ (s.load cutShort).2 = s := by
  have hdecode : Config.decode overwriting = .ok overwritten := rfl
  have hrefused : ∀ s : Settings, (s.load cutShort).1 = .error .corrupt := fun _ => rfl
  obtain ⟨-, hsound, -, -⟩ := load_iff_decode overwriting {}
  obtain ⟨hshort, hfault, -, -⟩ := load_iff_decode cutShort {}
  refine ⟨hdecode, hsound.mp ⟨_, hdecode⟩, ?_, ?_⟩
  · intro h
    have hload := hshort.mpr (hfault.mpr h)
    rw [hrefused] at hload
    cases hload
  · intro s
    obtain ⟨hok, -, hwords, -⟩ := load_iff_decode overwriting s
    obtain ⟨-, -, -, hkept⟩ := load_iff_decode cutShort s
    exact ⟨hok.mpr ⟨_, hdecode⟩, (hwords _ hdecode).1, hrefused s, hkept _ (hrefused s)⟩

end Settings

end LongPress
