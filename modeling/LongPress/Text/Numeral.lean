/-!
# LongPress.Text.Numeral

Reading and writing whole numbers that have an upper limit.

A numeral is a plus sign, which may be left out, and digits of the base, at least one. A digit
beyond 9 is a letter of either case. The first character that is no digit, or that carries the
number beyond the limit, decides which fault it is.
-/

namespace LongPress.Text

/-- What is wrong with a numeral. -/
inductive NumeralError where
  | empty
  | notDigit
  | tooLarge
  deriving DecidableEq, Repr

def NumeralError.message : NumeralError → String
  | empty => "cannot parse integer from empty string"
  | notDigit => "invalid digit found in string"
  | tooLarge => "number too large to fit in target type"

/-! ## Reading -/

/-- The value of a digit, whatever the base. -/
def digitValue? (c : Char) : Option Nat :=
  if '0' ≤ c && c ≤ '9' then some (c.toNat - '0'.toNat)
  else if 'a' ≤ c && c ≤ 'z' then some (c.toNat - 'a'.toNat + 10)
  else if 'A' ≤ c && c ≤ 'Z' then some (c.toNat - 'A'.toNat + 10)
  else none

/-- Reads digits that follow the number `value`. -/
def readDigits (base limit : Nat) : Nat → List Char → Except NumeralError Nat
  | value, [] => .ok value
  | value, c :: rest =>
    match digitValue? c with
    | none => .error .notDigit
    | some d =>
      if base ≤ d then .error .notDigit
      else if limit < value * base + d then .error .tooLarge
      else readDigits base limit (value * base + d) rest

/-- Reads a numeral of a number up to `limit`. -/
def readNumeral (base limit : Nat) : List Char → Except NumeralError Nat
  | [] => .error .empty
  | '+' :: [] => .error .notDigit
  | '+' :: c :: rest => readDigits base limit 0 (c :: rest)
  | c :: rest => readDigits base limit 0 (c :: rest)

theorem readDigits_le {base limit value n : Nat} {text : List Char} (hv : value ≤ limit)
    (h : readDigits base limit value text = .ok n) : n ≤ limit := by
  induction text generalizing value with
  | nil =>
    simp only [readDigits, Except.ok.injEq] at h
    omega
  | cons c rest ih =>
    simp only [readDigits] at h
    split at h
    · simp at h
    · split at h
      · simp at h
      · split at h
        · simp at h
        · exact ih (by omega) h

/-- What is read is within the limit. -/
theorem readNumeral_le {base limit n : Nat} {text : List Char}
    (h : readNumeral base limit text = .ok n) : n ≤ limit := by
  unfold readNumeral at h
  split at h
  · simp at h
  · simp at h
  · exact readDigits_le (Nat.zero_le _) h
  · exact readDigits_le (Nat.zero_le _) h

/-! ## Writing -/

/-- The decimal numeral of a number. -/
def decimal (n : Nat) : List Char := Nat.toDigits 10 n

/-- The hexadecimal numeral of a number in small letters, with zeros in front up to a width. -/
def hex (width n : Nat) : List Char := (Nat.toDigits 16 n).leftpad width '0'

/-- The same in capital letters. -/
def hexCapital (width n : Nat) : List Char := (hex width n).map Char.toUpper

/-! ## Reading what is written -/

theorem readDigits_append (base limit value : Nat) (text more : List Char) :
    readDigits base limit value (text ++ more) =
      (readDigits base limit value text).bind fun n => readDigits base limit n more := by
  induction text generalizing value with
  | nil => rfl
  | cons c rest ih =>
    simp only [List.cons_append, readDigits]
    split
    · rfl
    · split
      · rfl
      · split
        · rfl
        · exact ih _

theorem digitValue?_digitChar {d : Nat} (h : d < 16) : digitValue? d.digitChar = some d := by
  have hall : ∀ d : Fin 16, digitValue? (Nat.digitChar d.val) = some d.val := by decide
  exact hall ⟨d, h⟩

theorem readDigits_toDigits {base limit n : Nat} (hone : 1 < base) (hbase : base ≤ 16)
    (hn : n ≤ limit) : readDigits base limit 0 (Nat.toDigits base n) = .ok n := by
  induction n using Nat.strongRecOn with
  | _ n ih =>
    rw [Nat.toDigits_eq_if hone]
    split
    · next hlt =>
      simp [readDigits, digitValue?_digitChar (Nat.lt_of_lt_of_le hlt hbase),
        Nat.not_le.mpr hlt, hn]
    · next hle =>
      have hlt : n / base < n := Nat.div_lt_self (by omega) hone
      have hmod : n % base < base := Nat.mod_lt _ (by omega)
      have hsum : n / base * base + n % base = n := Nat.div_add_mod' n base
      rw [readDigits_append, ih _ hlt (by omega)]
      simp only [Except.bind, readDigits, digitValue?_digitChar (Nat.lt_of_lt_of_le hmod hbase),
        hsum, if_neg (Nat.not_le.mpr hmod), if_neg (Nat.not_lt.mpr hn)]

theorem exists_digit_of_mem_toDigits {base n : Nat} {c : Char} (hone : 1 < base)
    (h : c ∈ Nat.toDigits base n) : ∃ d < base, c = d.digitChar := by
  induction n using Nat.strongRecOn with
  | _ n ih =>
    rw [Nat.toDigits_eq_if hone] at h
    split at h
    · next hlt => exact ⟨n, hlt, List.mem_singleton.mp h⟩
    · next hle =>
      rcases List.mem_append.mp h with h | h
      · exact ih (n / base) (Nat.div_lt_self (by omega) hone) h
      · exact ⟨n % base, Nat.mod_lt _ (by omega), List.mem_singleton.mp h⟩

/-- A numeral that has digits only is read digit by digit. -/
theorem readNumeral_of_digits {base limit : Nat} {text : List Char} (hne : text ≠ [])
    (h : '+' ∉ text) : readNumeral base limit text = readDigits base limit 0 text := by
  unfold readNumeral
  split
  · exact absurd rfl hne
  · simp at h
  · simp at h
  · rfl

theorem plus_not_mem_toDigits {base n : Nat} (hone : 1 < base) (hbase : base ≤ 16) :
    '+' ∉ Nat.toDigits base n := by
  intro h
  obtain ⟨d, hd, heq⟩ := exists_digit_of_mem_toDigits hone h
  have hall : ∀ d : Fin 16, '+' ≠ Nat.digitChar d.val := by decide
  exact hall ⟨d, by omega⟩ heq

/-- A number within the limit is read from its decimal numeral. -/
theorem readNumeral_decimal {limit n : Nat} (hn : n ≤ limit) :
    readNumeral 10 limit (decimal n) = .ok n := by
  rw [decimal, readNumeral_of_digits Nat.toDigits_ne_nil
    (plus_not_mem_toDigits (by decide) (by decide)), readDigits_toDigits (by decide) (by decide) hn]

theorem readDigits_zeros (base limit k : Nat) (text : List Char) (hbase : 0 < base) :
    readDigits base limit 0 (List.replicate k '0' ++ text) = readDigits base limit 0 text := by
  have hzero : digitValue? '0' = some 0 := rfl
  induction k with
  | zero => rfl
  | succ k ih => simp [List.replicate_succ, readDigits, hzero, Nat.not_le.mpr hbase, ih]

/-- A number within the limit is read from its hexadecimal numeral, whatever its width. -/
theorem readNumeral_hex {limit n : Nat} (width : Nat) (hn : n ≤ limit) :
    readNumeral 16 limit (hex width n) = .ok n := by
  have hne : hex width n ≠ [] := by simp [hex, List.leftpad, Nat.toDigits_ne_nil]
  have hplus : '+' ∉ hex width n := by
    have h : '+' ∉ Nat.toDigits 16 n := plus_not_mem_toDigits (by decide) (by decide)
    simp [hex, List.leftpad, h]
  rw [readNumeral_of_digits hne hplus, hex, List.leftpad, readDigits_zeros _ _ _ _ (by decide),
    readDigits_toDigits (by decide) (by decide) hn]

end LongPress.Text
