import Mathlib.Data.List.Basic
import LongPress.Proofs.AsWritten
import LongPress.Proofs.Statements

/-!
# LongPress.Proofs.Shown

What is shown of a configuration.

Every setting is shown, in order, with its name and the text of its value (`describe_eq`). Names and
texts are words that nothing in a settings file could take apart (`IsToken`), so each of them can
stand in a line of its own.

A setting takes its own value back from the text that shows it, provided that a settings file could
have given it that value (`assign_valueText`). A switch may have any; a duration has to be within
its bounds.
-/

namespace LongPress

/-! ## Texts -/

namespace Text

/-- A word in which nothing ends a name, a statement or a line. -/
structure IsToken (text : List Char) : Prop where
  isWord : IsWord text
  comment_not_mem : '#' ∉ text
  equals_not_mem : '=' ∉ text

instance (text : List Char) : Decidable (IsWord text) :=
  decidable_of_iff (text ≠ [] ∧ text.all (!isBlank ·) = true) (by simp [IsWord])

theorem IsToken.newline_not_mem {text : List Char} (h : IsToken text) : '\n' ∉ text := by
  intro hmem
  have hblank := h.isWord.2 _ hmem
  exact absurd hblank (by decide)

theorem isToken_decimal (n : Nat) : IsToken (decimal n) := by
  have hdigit : ∀ d : Fin 10, isBlank (Nat.digitChar d.val) = false ∧
      Nat.digitChar d.val ≠ '#' ∧ Nat.digitChar d.val ≠ '=' := by decide
  have hall : ∀ c ∈ decimal n, isBlank c = false ∧ c ≠ '#' ∧ c ≠ '=' := by
    intro c hc
    obtain ⟨d, hd, rfl⟩ := exists_digit_of_mem_toDigits (by decide) hc
    exact hdigit ⟨d, hd⟩
  exact ⟨⟨Nat.toDigits_ne_nil, fun c hc => (hall c hc).1⟩, fun h => (hall _ h).2.1 rfl,
    fun h => (hall _ h).2.2 rfl⟩

end Text

/-! ## Values that are taken back -/

namespace Property

variable {p q : Property}

/-- A value that a settings file can give to a setting. -/
def Admits (p : Property) (v : Value) : Prop :=
  match p.kind, v with
  | .duration _ least most, .duration ms => least.toNat ≤ ms ∧ ms ≤ most.toNat
  | .switch _ _, .switch _ => True
  | _, _ => False

instance (p : Property) (v : Value) : Decidable (p.Admits v) := by
  unfold Admits
  cases p.kind <;> cases v <;> exact inferInstance

/-- The value of a setting in its word. -/
def valueIn (p : Property) (word : UInt16) : Value :=
  match p.kind with
  | .duration _ _ _ => .duration word.toNat
  | .switch mask _ => .switch (word &&& mask != 0)

/-- Every setting begins with a value that a file could give it. -/
theorem admits_value_of_mem : ∀ entry ∈ all, entry.2.Admits entry.2.value := by decide

theorem admits_of_assign {text : String} (h : p.assign text = .ok q) : p.Admits q.value := by
  unfold assign at h
  split at h
  · next value least most hk =>
    split at h
    · next ms hms =>
      obtain rfl := Except.ok.inj h
      simp only [Admits, Property.value, hk]
      unfold readDuration? at hms
      split at hms
      · next n hn =>
        split at hms
        · next hbounds =>
          obtain rfl := Option.some.inj hms
          have hlimit : n < 65536 := Nat.lt_succ_of_le (Text.readNumeral_le hn)
          rwa [UInt16.toNat_ofNat_of_lt' hlimit]
        · cases hms
      · cases hms
    · cases h
  · next mask on hk =>
    split at h
    · obtain rfl := Except.ok.inj h
      simp only [Admits, Property.value, hk]
    · cases h

theorem readDuration?_decimal {least most word : UInt16} (hleast : least.toNat ≤ word.toNat)
    (hmost : word.toNat ≤ most.toNat) :
    readDuration? least most (String.ofList (Text.decimal word.toNat)) = some word := by
  have hlimit : word.toNat ≤ 0xffff := Nat.le_of_lt_succ word.toNat_lt
  simp only [readDuration?, String.toList_ofList, Text.readNumeral_decimal hlimit, hleast, hmost,
    and_self, if_true, UInt16.ofNat_toNat]

/-- A setting takes its own value back from the text that shows it. -/
theorem assign_valueText {word : UInt16} (h : p.Admits (p.valueIn word)) :
    ∃ q, p.assign (p.valueText word) = .ok q ∧ q.value = p.valueIn word := by
  cases hk : p.kind with
  | duration value least most =>
    obtain ⟨hleast, hmost⟩ : least.toNat ≤ word.toNat ∧ word.toNat ≤ most.toNat := by
      simpa [Admits, valueIn, hk] using h
    refine ⟨{ p with kind := .duration word least most }, ?_, ?_⟩
    · simp only [assign, valueText, hk, readDuration?_decimal hleast hmost]
    · simp only [Property.value, valueIn, hk]
  | switch mask on =>
    refine ⟨{ p with kind := .switch mask (word &&& mask != 0) }, ?_, ?_⟩
    · by_cases hzero : word &&& mask = 0
      · simp [assign, valueText, hk, hzero, readSwitch?]
      · simp [assign, valueText, hk, hzero, readSwitch?]
    · simp only [Property.value, valueIn, hk]

theorem isToken_valueText (p : Property) (word : UInt16) :
    Text.IsToken (p.valueText word).toList := by
  unfold valueText
  split
  · rw [String.toList_ofList]
    exact Text.isToken_decimal _
  · split
    · exact ⟨by decide, by decide, by decide⟩
    · exact ⟨by decide, by decide, by decide⟩

theorem isToken_of_mem : ∀ entry ∈ all, Text.IsToken entry.1.toList := by
  have hall : ∀ entry ∈ all, Text.IsWord entry.1.toList ∧ '#' ∉ entry.1.toList ∧
      '=' ∉ entry.1.toList := by decide
  intro entry hentry
  obtain ⟨hword, hcomment, hequals⟩ := hall entry hentry
  exact ⟨hword, hcomment, hequals⟩

theorem named?_of_mem : ∀ entry ∈ all, named? entry.1 = some entry.2 := by decide

/-- The value of a setting on a keyboard is its value in its word. -/
theorem valueOf_eq_valueIn (s : Settings) :
    ∀ entry ∈ all, s.valueOf entry.2 = entry.2.valueIn (s.get entry.2.index) := by
  intro entry hentry
  have hplaced := placed_of_mem entry hentry
  cases hk : entry.2.kind with
  | duration value least most => simp only [Settings.valueOf, valueIn, mask?, hk]
  | switch mask on =>
    have hm : entry.2.mask? = some mask := by simp only [mask?, hk]
    obtain ⟨hindex, hmask⟩ : entry.2.index = Slot.switches.index ∧ mask ≠ 0 := by
      simpa [Placed, hm] using hplaced
    have hget : s.get entry.2.index = s.switches := by
      rw [hindex, Settings.get, Slot.ofIndex?_index]
      rfl
    have hsingle := isSingle_of_mem (List.mem_filterMap.mpr ⟨entry, hentry, hm⟩)
    simp only [Settings.valueOf, Settings.has, valueIn, hm, hk, hget]
    rcases hsingle.and_eq s.switches with hon | hoff
    · simp [hon, hmask]
    · simp [hoff, Ne.symm hmask]

end Property

/-! ## Configurations -/

namespace Config

/-- The text that shows the value of a setting. -/
def shown (c : Config) (p : Property) : String := p.valueText (c.toSettings.get p.index)

/-- Every setting is shown, in order, with the text of its value. -/
theorem describe_eq (c : Config) :
    c.describe = Property.all.map fun entry => (entry.1, c.shown entry.2) := by
  have hshown : ∀ entry ∈ Property.all, (c.valueText? entry.1).map (entry.1, ·) =
      some (entry.1, c.shown entry.2) := by
    intro entry hentry
    obtain ⟨slot, hslot⟩ := (Property.placed_of_mem entry hentry).exists_slot
    simp [valueText?, value?, Property.named?_of_mem entry hentry, hslot, shown, Settings.get,
      toSettings]
  rw [describe, Property.names, List.filterMap_map]
  exact List.filterMap_eq_map_iff_forall_eq_some.mpr hshown

theorem isToken_shown (c : Config) (p : Property) : Text.IsToken (c.shown p).toList :=
  Property.isToken_valueText p _

end Config

end LongPress
