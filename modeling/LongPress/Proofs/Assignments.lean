import Mathlib.Data.List.TakeWhile
import LongPress.Settings.Source

/-!
# LongPress.Proofs.Assignments

What the lines of a settings file say, told without spans and without faults: which lines assign a
setting, which value each of them writes, and which one comes last.

A file that is accepted says nothing else. Its reader does for every line just what the line's
assignment says, and nothing where there is none (`config_of_readLine`), and the value that it takes
from a text is the one that the text writes (`written?_of_assign`).
-/

namespace LongPress

/-! ## Lines -/

/-- A line that gives a setting a value: the name and the value as they are written. -/
structure Assignment where
  name : String
  value : String
  deriving DecidableEq, Repr

namespace Assignment

/-- What a line says before any comment, without the blanks around it. -/
def statementOf (line : List Char) : List Char := Text.trim (line.takeWhile (· ≠ '#'))

/-- The assignment of a line. Blank lines and headers have none. -/
def ofLine? (line : List Char) : Option Assignment :=
  match statementOf line with
  | [] => none
  | '[' :: _ => none
  | text =>
    some
      { name := String.ofList (Text.trim (text.takeWhile (· ≠ '=')))
        value := String.ofList (Text.trim (text.dropWhile (· ≠ '=')).tail) }

theorem ofLine?_of_nil {line : List Char} (h : statementOf line = []) : ofLine? line = none := by
  simp [ofLine?, h]

theorem ofLine?_of_header {line rest : List Char} (h : statementOf line = '[' :: rest) :
    ofLine? line = none := by
  simp [ofLine?, h]

theorem ofLine?_of_other {line : List Char} (hnil : statementOf line = [] → False)
    (hheader : ∀ rest, statementOf line = '[' :: rest → False) :
    ofLine? line = some
      { name := String.ofList (Text.trim ((statementOf line).takeWhile (· ≠ '=')))
        value := String.ofList (Text.trim ((statementOf line).dropWhile (· ≠ '=')).tail) } := by
  unfold ofLine?
  split
  · exact absurd ‹_› hnil
  · exact absurd ‹_› (hheader _)
  · rfl

/-- The assignments of a settings file, in order. -/
def inSource (source : String) : List Assignment :=
  (Text.splitAll '\n' source.toList).filterMap ofLine?

/-- The setting that is assigned: one of the names is an old one. -/
def setting (a : Assignment) : String :=
  if a.name = "auto_shift_delay" then "auto_shift_timeout" else a.name

/-! ### The last assignment of a setting -/

/-- The value that the last assignment of a setting writes. -/
def lastText? (setting : String) (written : List Assignment) : Option String :=
  (written.filter (·.setting = setting)).getLast?.map (·.value)

theorem lastText?_concat (setting : String) (written : List Assignment) (a : Assignment) :
    lastText? setting (written ++ [a]) =
      if a.setting = setting then some a.value else lastText? setting written := by
  by_cases h : a.setting = setting <;> simp [lastText?, h]

/-- Two assignments of different settings may change places. -/
theorem lastText?_swap {a b : Assignment} (h : a.setting ≠ b.setting) (setting : String)
    (before after : List Assignment) :
    lastText? setting (before ++ b :: a :: after) =
      lastText? setting (before ++ a :: b :: after) := by
  by_cases ha : a.setting = setting
  · have hb : b.setting ≠ setting := fun hb => h (ha.trans hb.symm)
    simp [lastText?, ha, hb]
  · simp [lastText?, ha, List.filter_cons]

end Assignment

/-! ## Numbers -/

namespace Text

/-- The number that a text writes in decimal digits, which may follow a plus sign. -/
def number? (text : List Char) : Option Nat :=
  let digits := if text.head? = some '+' then text.tail else text
  if digits ≠ [] ∧ digits.all Char.isDigit then some (Nat.ofDigitChars 10 digits 0) else none

theorem isDigit_of_digitValue? {c : Char} {d : Nat} (h : digitValue? c = some d) (hd : d < 10) :
    c.isDigit = true ∧ d = c.toNat - '0'.toNat := by
  unfold digitValue? at h
  split at h
  · next hc =>
    simp only [Option.some.injEq] at h
    exact ⟨by simpa [Char.isDigit, Char.le_def] using hc, h.symm⟩
  · -- A letter stands for ten or more.
    split at h
    · simp only [Option.some.injEq] at h
      omega
    · split at h
      · simp only [Option.some.injEq] at h
        omega
      · simp at h

theorem readDigits_eq {limit value n : Nat} {text : List Char}
    (h : readDigits 10 limit value text = .ok n) :
    (∀ c ∈ text, c.isDigit) ∧ n = Nat.ofDigitChars 10 text value := by
  induction text generalizing value with
  | nil =>
    simp only [readDigits, Except.ok.injEq] at h
    simp [Nat.ofDigitChars, h]
  | cons c rest ih =>
    simp only [readDigits] at h
    split at h
    · simp at h
    · next d hd =>
      split at h
      · simp at h
      · next hlt =>
        split at h
        · simp at h
        · obtain ⟨hdigit, hval⟩ := isDigit_of_digitValue? hd (by omega)
          obtain ⟨hrest, hn⟩ := ih h
          refine ⟨List.forall_mem_cons.mpr ⟨hdigit, hrest⟩, ?_⟩
          rw [hn, hval, Nat.mul_comm]
          rfl

/-- Whatever is read in decimal is the number that the text writes. -/
theorem number?_of_readNumeral {limit n : Nat} {text : List Char}
    (h : readNumeral 10 limit text = .ok n) : number? text = some n := by
  unfold readNumeral at h
  split at h
  · simp at h
  · simp at h
  · next c rest =>
    obtain ⟨hd, hn⟩ := readDigits_eq h
    simp_all [number?]
  · next c rest _ hplus =>
    obtain ⟨hd, hn⟩ := readDigits_eq h
    have hc : c ≠ '+' := by
      rintro rfl
      exact absurd (hd '+' List.mem_cons_self) (by decide)
    simp_all [number?]

end Text

/-! ## Values -/

/-- The value of a setting. -/
inductive Property.Value where
  | duration (ms : Nat)
  | switch (on : Bool)
  deriving DecidableEq, Repr

namespace Property

/-- The value that a setting carries. -/
def value (p : Property) : Value :=
  match p.kind with
  | .duration value _ _ => .duration value.toNat
  | .switch _ on => .switch on

/-- The bits of a switch; none for a duration. -/
def mask? (p : Property) : Option UInt16 :=
  match p.kind with
  | .duration _ _ _ => none
  | .switch mask _ => some mask

/-- The value that a text writes for a setting. -/
def written? (p : Property) (text : String) : Option Value :=
  match p.mask? with
  | none => (Text.number? text.toList).map .duration
  | some _ =>
    if text ∈ ["true", "on", "yes"] then some (.switch true)
    else if text ∈ ["false", "off", "no"] then some (.switch false)
    else none

/-- The value that the assignments so far ask of a setting: the last one that was written, or the
one to begin with. -/
def due? (setting : String) (p : Property) (written : List Assignment) : Option Value :=
  match Assignment.lastText? setting written with
  | none => some p.value
  | some text => p.written? text

theorem due?_concat (setting : String) (p : Property) (written : List Assignment)
    (a : Assignment) : due? setting p (written ++ [a]) =
      if a.setting = setting then p.written? a.value else due? setting p written := by
  unfold due?
  rw [Assignment.lastText?_concat]
  by_cases h : a.setting = setting <;> simp [h]

variable {p q : Property} {text : String}

theorem index_of_assign (h : p.assign text = .ok q) : q.index = p.index := by
  unfold assign at h
  split at h <;> split at h <;> simp_all <;> simp [← h]

theorem mask?_of_assign (h : p.assign text = .ok q) : q.mask? = p.mask? := by
  unfold assign at h
  split at h <;> split at h <;> simp_all [mask?] <;> simp [← h]

theorem toNat_of_readDuration? {least most value : UInt16}
    (h : readDuration? least most text = some value) :
    Text.number? text.toList = some value.toNat := by
  unfold readDuration? at h
  split at h
  · next n hn =>
    split at h
    · simp only [Option.some.injEq] at h
      have hle : n ≤ 0xffff := Text.readNumeral_le hn
      rw [Text.number?_of_readNumeral hn, ← h, UInt16.toNat_ofNat_of_lt' (Nat.lt_succ_of_le hle)]
    · simp at h
  · simp at h

/-- A setting takes from a text the value that the text writes. -/
theorem written?_of_assign (h : p.assign text = .ok q) : p.written? text = some q.value := by
  unfold assign at h
  split at h
  · next hk =>
    split at h
    · next ms hms =>
      simp only [Except.ok.injEq] at h
      subst h
      simp [written?, mask?, value, hk, toNat_of_readDuration? hms]
    · simp at h
  · next hk =>
    split at h
    · next on hon =>
      simp only [Except.ok.injEq] at h
      subst h
      unfold readSwitch? at hon
      simp only [written?, mask?, value, hk, List.mem_cons, List.not_mem_nil, or_false]
      split at hon
      · simp_all
      · split at hon <;> simp_all
    · simp at h

/-- A name that is known stands for a setting under its present name. -/
theorem mem_all_of_named? {a : Assignment} (h : named? a.name = some p) :
    (a.setting, p) ∈ all := by
  unfold named? at h
  obtain ⟨before, after, he, -⟩ := List.lookup_eq_some_iff.mp h
  have hmem : (a.name, p) ∈ all ++ aliases := by simp [he]
  rcases List.mem_append.mp hmem with hm | hm
  · have hne : ∀ entry ∈ all, entry.1 ≠ "auto_shift_delay" := by decide
    simpa [Assignment.setting, hne _ hm] using hm
  · simp only [aliases, List.mem_singleton, Prod.mk.injEq] at hm
    simp [Assignment.setting, hm, all]

end Property

/-! ## Reading -/

namespace Fragment

theorem map_text_linesFrom (start : Nat) (ls : List (List Char)) :
    (linesFrom start ls).map (·.text) = ls := by
  induction ls generalizing start with
  | nil => rfl
  | cons line rest ih => simp [linesFrom, ih]

theorem text_upTo (c : Char) (f : Fragment) : (f.upTo c).text = f.text.takeWhile (· ≠ c) := by
  unfold upTo splitFirst?
  by_cases h : c ∈ f.text
  · simp [Text.splitFirst?_of_mem h]
  · rw [Text.splitFirst?_eq_none_iff.mpr h, List.takeWhile_eq_self_iff.mpr]
    · rfl
    · intro d hd
      have hne : d ≠ c := fun e => h (e ▸ hd)
      simpa using hne

theorem text_statement (line : Fragment) :
    line.statement.text = Assignment.statementOf line.text := by
  unfold statement trim Assignment.statementOf
  rw [text_upTo]

end Fragment

namespace Reading

variable {r r' : Reading}

theorem config_of_readHeader {f : Fragment} (h : r.readHeader f = .ok r') :
    r'.config = r.config := by
  unfold readHeader at h
  split at h
  · simp at h
  · dsimp only at h
    split at h
    · simp only [Except.ok.injEq] at h
      simp [← h]
    · simp at h

theorem config_of_assign {name value : Fragment} (h : r.assign name value = .ok r') :
    ∃ p q, Property.named? (String.ofList name.text) = some p ∧
      p.assign (String.ofList value.text) = .ok q ∧ r'.config = r.config.set q := by
  unfold assign Property.named at h
  cases hp : Property.named? (String.ofList name.text) with
  | none => simp [hp] at h
  | some p =>
    simp only [hp] at h
    split at h
    · simp at h
    · next q hq =>
      simp only [Except.ok.injEq] at h
      exact ⟨p, q, rfl, hq, by simp [← h]⟩

/-- An assignment that is read has a name that is known and a value that the setting takes. -/
theorem config_of_readAssignment {f : Fragment} (h : r.readAssignment f = .ok r') :
    ∃ p q,
      Property.named? (String.ofList (Text.trim (f.text.takeWhile (· ≠ '=')))) = some p ∧
      p.assign (String.ofList (Text.trim (f.text.dropWhile (· ≠ '=')).tail)) = .ok q ∧
      r'.config = r.config.set q := by
  unfold readAssignment at h
  split at h
  · split at h
    · simp at h
    · next left right hcut =>
      obtain ⟨parts, hparts, he⟩ := Option.map_eq_some_iff.mp hcut
      have hmem : '=' ∈ f.text := by
        apply Classical.byContradiction
        intro hn
        rw [Text.splitFirst?_eq_none_iff.mpr hn] at hparts
        simp at hparts
      rw [Text.splitFirst?_of_mem hmem, Option.some.injEq] at hparts
      subst hparts
      obtain ⟨rfl, rfl⟩ := Prod.mk.inj he
      dsimp only [Fragment.trim] at h
      split at h
      · simp at h
      · split at h
        · simp at h
        · split at h
          · simp at h
          · exact config_of_assign h
  · simp at h

/-- A line that is read does what its assignment says, and nothing if it has none. -/
theorem config_of_readLine {line : Fragment} (h : r.readLine line = .ok r') :
    (Assignment.ofLine? line.text = none ∧ r'.config = r.config) ∨
      ∃ a p q, Assignment.ofLine? line.text = some a ∧ Property.named? a.name = some p ∧
        p.assign a.value = .ok q ∧ r'.config = r.config.set q := by
  have htext := Fragment.text_statement line
  unfold readLine at h
  dsimp only at h
  split at h
  · next ht =>
    simp only [Except.ok.injEq] at h
    exact .inl ⟨Assignment.ofLine?_of_nil (htext.symm.trans ht), by rw [h]⟩
  · next ht =>
    exact .inl ⟨Assignment.ofLine?_of_header (htext.symm.trans ht), config_of_readHeader h⟩
  · next hnil hheader =>
    obtain ⟨p, q, hp, hq, hc⟩ := config_of_readAssignment h
    rw [htext] at hnil hheader hp hq
    exact .inr ⟨_, p, q, Assignment.ofLine?_of_other hnil hheader, hp, hq, hc⟩

end Reading

/-- What is read of an accepted file is its lines. -/
theorem exists_readLines_of_compile {source : String} {c : Config}
    (h : compile source = .ok c) :
    ∃ r, ({} : Reading).readLines (Fragment.lines source.toList) = .ok r ∧ r.config = c := by
  unfold compile at h
  cases hread : ({} : Reading).readLines (Fragment.lines source.toList) with
  | error e =>
    rw [hread] at h
    cases h
  | ok r =>
    rw [hread] at h
    exact ⟨r, rfl, Except.ok.inj h⟩

end LongPress
