import LongPress.Proofs.Names

/-!
# LongPress.Proofs.Chords

What a text looks like that is read as a chord.

It is made of letters with dashes between them (`exists_parts_of_read?`).  From this follows what it
is to a reader of names: its normal form consists of a few small letters, and ends in one of four of
them (`isChordForm_of_read?`).  And what it is to a writer: the bits that are read are five, with a
letter among the lower four (`wellFormed_of_read?`), so that they are written as a chord again.
-/

namespace LongPress.Chord

open Text Keycode

/-! ## Letters -/

/-- A letter as it is written, of either hand. -/
def IsLetter (part : List Char) : Prop := ∃ l ∈ letters, part = [l] ∨ part = ['R', l]

/-- The bits of the four letters. -/
def letterBits : List Chord := [0x1, 0x2, 0x4, 0x8]

theorem of_letterBit? {part : List Char} {bit : Chord} (h : letterBit? part = some bit) :
    (∃ l ∈ letters, part = [l]) ∧ bit ∈ letterBits := by
  unfold letterBit? at h
  split at h <;> simp_all [letters, letterBits]

theorem of_readLetter? {part : List Char} {letter : Bool × Chord}
    (h : readLetter? part = some letter) : IsLetter part ∧ letter.2 ∈ letterBits := by
  unfold readLetter? at h
  split at h
  · obtain ⟨bit, hbit, rfl⟩ := Option.map_eq_some_iff.mp h
    obtain ⟨⟨l, hl, hpart⟩, hmem⟩ := of_letterBit? hbit
    exact ⟨⟨l, hl, .inr (by rw [hpart])⟩, hmem⟩
  · obtain ⟨bit, hbit, rfl⟩ := Option.map_eq_some_iff.mp h
    obtain ⟨⟨l, hl, hpart⟩, hmem⟩ := of_letterBit? hbit
    exact ⟨⟨l, hl, .inl hpart⟩, hmem⟩

theorem of_mapM_readLetter? {parts : List (List Char)} {read : List (Bool × Chord)}
    (h : parts.mapM readLetter? = some read) :
    (∀ part ∈ parts, IsLetter part) ∧ ∀ letter ∈ read, letter.2 ∈ letterBits := by
  induction parts generalizing read with
  | nil =>
    simp only [List.mapM_nil, Option.pure_def, Option.some.injEq] at h
    simp [← h]
  | cons part rest ih =>
    simp only [List.mapM_cons, Option.pure_def, Option.bind_eq_bind, Option.bind_eq_some_iff,
      Option.some.injEq] at h
    obtain ⟨letter, hletter, letters, hrest, rfl⟩ := h
    obtain ⟨hpart, hbit⟩ := of_readLetter? hletter
    obtain ⟨hparts, hbits⟩ := ih hrest
    exact ⟨List.forall_mem_cons.mpr ⟨hpart, hparts⟩, List.forall_mem_cons.mpr ⟨hbit, hbits⟩⟩

/-! ## The text of a chord -/

/-- A chord is letters with dashes between them. -/
theorem exists_parts_of_read? {text : List Char} {c : Chord} (h : read? text = some c) :
    ∃ parts, parts ≠ [] ∧ (∀ part ∈ parts, IsLetter part) ∧ text = ['-'].intercalate parts := by
  obtain ⟨read, hread, -⟩ := Option.bind_eq_some_iff.mp h
  exact ⟨splitAll '-' text, splitAll_ne_nil _ _, (of_mapM_readLetter? hread).1,
    (intercalate_splitAll '-' text).symm⟩

/-- The characters of chords. -/
def alphabet : List Char := '-' :: 'R' :: letters

theorem mem_alphabet_of_isLetter {part : List Char} (h : IsLetter part) :
    ∀ x ∈ part, x ∈ alphabet := by
  obtain ⟨l, hl, rfl | rfl⟩ := h <;> simp [alphabet, hl]

theorem mem_alphabet_of_parts {parts : List (List Char)} (h : ∀ part ∈ parts, IsLetter part) :
    ∀ x ∈ ['-'].intercalate parts, x ∈ alphabet := by
  induction parts with
  | nil => simp
  | cons part rest ih =>
    have hpart := mem_alphabet_of_isLetter (h part List.mem_cons_self)
    have hrest := ih fun q hq => h q (List.mem_cons_of_mem part hq)
    cases rest with
    | nil => simpa using hpart
    | cons q rest =>
      rw [List.intercalate_cons_cons]
      intro x hx
      simp only [List.append_assoc, List.mem_append, List.mem_singleton] at hx
      rcases hx with hx | rfl | hx
      · exact hpart x hx
      · decide
      · exact hrest x hx

theorem mem_alphabet_of_read? {text : List Char} {c : Chord} (h : read? text = some c) :
    ∀ x ∈ text, x ∈ alphabet := by
  obtain ⟨parts, -, hparts, rfl⟩ := exists_parts_of_read? h
  exact mem_alphabet_of_parts hparts

theorem ne_nil_of_read? {text : List Char} {c : Chord} (h : read? text = some c) : text ≠ [] := by
  rintro rfl
  have hnil : read? [] = none := rfl
  rw [hnil] at h
  cases h

/-- A chord does not end in a dash. -/
theorem read?_concat_dash (text : List Char) : read? (text ++ ['-']) = none := by
  rw [Option.eq_none_iff_forall_not_mem]
  intro c hc
  obtain ⟨read, hread, -⟩ := Option.bind_eq_some_iff.mp hc
  rw [splitAll_concat] at hread
  obtain ⟨l, -, hnil | hnil⟩ := (of_mapM_readLetter? hread).1 [] (by simp) <;> cases hnil

/-! ## The normal form of a chord -/

/-- Small letters that a chord may leave, the last of them one of the four. -/
def isChordForm (form : List Char) : Bool :=
  form.all (['c', 's', 'a', 'g', 'r'].contains ·) &&
    form.getLast?.any (['c', 's', 'a', 'g'].contains ·)

theorem isChordForm_append {a b : List Char} (ha : isChordForm a = true)
    (hb : isChordForm b = true) : isChordForm (a ++ b) = true := by
  simp only [isChordForm, Bool.and_eq_true] at ha hb ⊢
  obtain ⟨l, hl⟩ : ∃ l, b.getLast? = some l := by
    cases hlast : b.getLast? with
    | none => simp [hlast] at hb
    | some l => exact ⟨l, rfl⟩
  refine ⟨by rw [List.all_append, ha.1, hb.1]; rfl, ?_⟩
  rw [List.getLast?_append, hl, Option.some_or, ← hl]
  exact hb.2

theorem isChordForm_of_isLetter {part : List Char} (h : IsLetter part) :
    isChordForm (normalName part) = true := by
  have hall : ∀ l ∈ letters, isChordForm (normalName [l]) = true ∧
      isChordForm (normalName ['R', l]) = true := List.all_iff_forall_prop.mp (by decide)
  obtain ⟨l, hl, rfl | rfl⟩ := h
  · exact (hall l hl).1
  · exact (hall l hl).2

theorem normalName_intercalate (parts : List (List Char)) :
    normalName (['-'].intercalate parts) = parts.flatMap normalName := by
  induction parts with
  | nil => rfl
  | cons part rest ih =>
    cases rest with
    | nil => simp
    | cons q rest =>
      have hdash : normalName ['-'] = [] := rfl
      rw [List.intercalate_cons_cons, normalName_append, normalName_append, hdash, List.append_nil,
        ih]
      rfl

theorem isChordForm_of_read? {text : List Char} {c : Chord} (h : read? text = some c) :
    isChordForm (normalName text) = true := by
  obtain ⟨parts, hne, hparts, rfl⟩ := exists_parts_of_read? h
  rw [normalName_intercalate]
  clear h
  induction parts with
  | nil => exact absurd rfl hne
  | cons part rest ih =>
    have hpart := isChordForm_of_isLetter (hparts part List.mem_cons_self)
    cases rest with
    | nil => simpa using hpart
    | cons q rest =>
      have hrest := ih (List.cons_ne_nil q rest) fun r hr => hparts r (List.mem_cons_of_mem part hr)
      rw [List.flatMap_cons]
      exact isChordForm_append hpart hrest

theorem normalName_ne_nil_of_read? {text : List Char} {c : Chord} (h : read? text = some c) :
    normalName text ≠ [] := by
  intro hnil
  have hform := isChordForm_of_read? h
  rw [hnil] at hform
  cases hform

theorem normalName_of_isLetter {part : List Char} (h : IsLetter part) :
    ∃ l ∈ letters, part = [l] ∧ normalName part = [foldChar l] ∨
      part = ['R', l] ∧ normalName part = ['r', foldChar l] := by
  have hall : ∀ l ∈ letters, normalName [l] = [foldChar l] ∧
      normalName ['R', l] = ['r', foldChar l] := List.all_iff_forall_prop.mp (by decide)
  obtain ⟨l, hl, rfl | rfl⟩ := h
  · exact ⟨l, hl, .inl ⟨rfl, (hall l hl).1⟩⟩
  · exact ⟨l, hl, .inr ⟨rfl, (hall l hl).2⟩⟩

/-- Without the mark of the right hand, each letter leaves one small letter. -/
theorem exists_letters_of_flatMap {parts : List (List Char)} (h : ∀ part ∈ parts, IsLetter part)
    (hleft : 'r' ∉ parts.flatMap normalName) :
    ∃ ls : List Char, (∀ l ∈ ls, l ∈ letters) ∧ parts = ls.map ([·]) ∧
      parts.flatMap normalName = ls.map foldChar := by
  induction parts with
  | nil => exact ⟨[], by simp, rfl, rfl⟩
  | cons part rest ih =>
    rw [List.flatMap_cons, List.mem_append, not_or] at hleft
    obtain ⟨ls, hls, hparts, hforms⟩ := ih (fun q hq => h q (List.mem_cons_of_mem part hq)) hleft.2
    obtain ⟨l, hl, ⟨hpart, hform⟩ | ⟨-, hform⟩⟩ :=
      normalName_of_isLetter (h part List.mem_cons_self)
    · refine ⟨l :: ls, List.forall_mem_cons.mpr ⟨hl, hls⟩, by rw [hpart, hparts, List.map_cons], ?_⟩
      rw [List.flatMap_cons, hform, hforms, List.map_cons, List.singleton_append]
    · rw [hform] at hleft
      exact absurd List.mem_cons_self hleft.1

/-- Only the letters of alt and shift, in this order, leave `as`. -/
theorem eq_of_normalName_of_read? {text : List Char} {c : Chord} (h : read? text = some c)
    (hform : normalName text = ['a', 's']) : text = "A-S".toList := by
  obtain ⟨parts, -, hparts, rfl⟩ := exists_parts_of_read? h
  rw [normalName_intercalate] at hform
  obtain ⟨ls, hls, rfl, hforms⟩ := exists_letters_of_flatMap hparts (by rw [hform]; decide)
  rw [hform] at hforms
  have hall : ∀ l ∈ letters, (foldChar l = 'a' → l = 'A') ∧ (foldChar l = 's' → l = 'S') :=
    List.all_iff_forall_prop.mp (by decide)
  obtain ⟨l, m, rfl⟩ : ∃ l m, ls = [l, m] := by
    have hlength := congrArg List.length hforms
    rw [List.length_map] at hlength
    exact List.length_eq_two.mp hlength.symm
  simp only [List.map_cons, List.map_nil, List.cons.injEq, and_true] at hforms
  rw [(hall l (hls l (by simp))).1 hforms.1.symm, (hall m (hls m (by simp))).2 hforms.2.symm]
  rfl

/-! ## The bits of a chord -/

/-- Five bits, one of them at least that of a letter. -/
def WellFormed (c : Chord) : Prop := c.toNat < 32 ∧ c.toNat % 16 ≠ 0

instance (c : Chord) : Decidable c.WellFormed := inferInstanceAs (Decidable (_ ∧ _))

/-- So that what holds of the thirty-two chords of five bits can be checked one by one. -/
theorem exists_fin_of_lt {c : Chord} (hlt : c.toNat < 32) :
    ∃ d : Fin 32, c = UInt8.ofNat d.val :=
  ⟨⟨c.toNat, hlt⟩, UInt8.ofNat_toNat.symm⟩

theorem wellFormed_or {c bit : Chord} (hc : WellFormed c) (hbit : bit ∈ letterBits) :
    WellFormed (c ||| bit) := by
  have hall : ∀ d : Fin 32, WellFormed (UInt8.ofNat d.val) → ∀ bit ∈ letterBits,
      WellFormed (UInt8.ofNat d.val ||| bit) := by
    simp only [← List.all_iff_forall_prop]
    decide
  obtain ⟨d, rfl⟩ := exists_fin_of_lt hc.1
  exact hall d hc bit hbit

theorem wellFormed_foldl_or {c : Chord} (hc : WellFormed c) {read : List (Bool × Chord)}
    (h : ∀ letter ∈ read, letter.2 ∈ letterBits) :
    WellFormed (read.foldl (fun bits letter => bits ||| letter.2) c) := by
  induction read generalizing c with
  | nil => exact hc
  | cons letter rest ih =>
    obtain ⟨hletter, hrest⟩ := List.forall_mem_cons.mp h
    exact ih (wellFormed_or hc hletter) hrest

theorem wellFormed_of_read? {text : List Char} {c : Chord} (h : read? text = some c) :
    WellFormed c := by
  obtain ⟨read, hread, hc⟩ := Option.bind_eq_some_iff.mp h
  have hbits := (of_mapM_readLetter? hread).2
  cases read with
  | nil => cases hc
  | cons letter rest =>
    obtain ⟨right, bit⟩ := letter
    simp only [ofLetters?, Option.ite_none_right_eq_some, Option.some.injEq] at hc
    obtain ⟨-, rfl⟩ := hc
    obtain ⟨hbit, hrest⟩ := List.forall_mem_cons.mp hbits
    have hstart : WellFormed (if right then bit ||| rightHand else bit) := by
      have hall : ∀ bit ∈ letterBits, ∀ right : Bool,
          WellFormed (if right then bit ||| rightHand else bit) :=
        List.all_iff_forall_prop.mp (by decide)
      exact hall bit hbit right
    exact wellFormed_foldl_or hstart hrest

/-- A well-formed chord is read as it was written. -/
theorem read?_write_of_wellFormed {c : Chord} (h : WellFormed c) : read? (write c) = some c := by
  have hread := read?_write ⟨c.toNat, h.1⟩ h.2
  rwa [UInt8.ofNat_toNat] at hread

/-- A chord without letters is written as nothing. -/
theorem write_of_not_wellFormed {c : Chord} (hlt : c.toNat < 32) (h : ¬ WellFormed c) :
    write c = [] := by
  have hall : ∀ d : Fin 32, ¬ WellFormed (UInt8.ofNat d.val) → write (UInt8.ofNat d.val) = [] := by
    decide
  obtain ⟨d, rfl⟩ := exists_fin_of_lt hlt
  exact hall d h

/-- The letters of alt and shift are written in the other order. -/
theorem write_ne {c : Chord} (hlt : c.toNat < 32) : write c ≠ "A-S".toList := by
  have hall : ∀ d : Fin 32, write (UInt8.ofNat d.val) ≠ ['A', '-', 'S'] := by decide
  obtain ⟨d, rfl⟩ := exists_fin_of_lt hlt
  exact hall d

end LongPress.Chord
