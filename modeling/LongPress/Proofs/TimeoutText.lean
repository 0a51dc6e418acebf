import Mathlib.Data.Nat.Digits.Lemmas
import LongPress.Proofs.Alternation
import LongPress.Proofs.Calm
import LongPress.Proofs.Host
import LongPress.Proofs.Tracking

/-!
# LongPress.Proofs.TimeoutText

What typing the timeout does to the keys that are held.

The timeout is typed past `down`: each of its keys is put down and let go whatever is held.  So the
reports are those of `lineKeys`, and `down` stays as it is; but a code that was down at the host and
is typed is up there afterwards (`endsDown_append_typed`), and `down` does not know.  As long as no
key is typed while its code is down (`typesApart`), typing keeps the tally of every code
(`Tallied.typeText`), and so `down` and the host agree after every history.

* `timeout_typed` — the main statement;
* `typing_lets_go_of_held_key` — a held key need not outlast the typing.
-/

namespace LongPress

/-! ## A number on a line of its own -/

/-- The key that writes a decimal digit. -/
def digitKey (d : Nat) : Keycode :=
  if d = 0 then Keycode.digitZero else Keycode.digitOne + UInt16.ofNat (d - 1)

/-- The decimal digits of a number, the first one first; 0 has one digit. -/
def decimalDigits (n : Nat) : List Nat := if n = 0 then [0] else (Nat.digits 10 n).reverse

/-- The keys that write a number on a line of its own. -/
def lineKeys (n : Nat) : List Keycode :=
  Keycode.enter :: (decimalDigits n).map digitKey ++ [Keycode.enter]

theorem decimalDigits_of_lt {n : Nat} (h : n < 10) : decimalDigits n = [n] := by
  unfold decimalDigits
  split
  · next hzero => rw [hzero]
  · next hpos => rw [Nat.digits_of_lt 10 n hpos h, List.reverse_singleton]

theorem decimalDigits_of_le {n : Nat} (h : 10 ≤ n) :
    decimalDigits n = decimalDigits (n / 10) ++ [n % 10] := by
  have hdiv : n / 10 ≠ 0 := by omega
  rw [decimalDigits, decimalDigits, if_neg (by omega), if_neg hdiv,
    Nat.digits_eq_cons_digits_div (by decide) (by omega), List.reverse_cons]

theorem lt_of_mem_decimalDigits {n d : Nat} (h : d ∈ decimalDigits n) : d < 10 := by
  unfold decimalDigits at h
  split at h
  · simp_all
  · exact Nat.digits_lt_base (by decide) (List.mem_reverse.mp h)

/-- The digits that are printed are those of the number. -/
theorem toDigits_eq (n : Nat) : Nat.toDigits 10 n = (decimalDigits n).map Nat.digitChar := by
  induction n using Nat.strongRecOn with
  | _ n ih =>
    rw [Nat.toDigits_eq_if (by decide)]
    split
    · next hlt => rw [decimalDigits_of_lt hlt, List.map_singleton]
    · next hle =>
      have hstep := decimalDigits_of_le (Nat.le_of_not_lt hle)
      rw [ih (n / 10) (by omega), hstep, List.map_append, List.map_singleton]

namespace Shifter

theorem keyOfChar?_digitChar {d : Nat} (h : d < 10) :
    keyOfChar? d.digitChar = some (digitKey d) := by
  have hall : ∀ d : Fin 10, keyOfChar? (Nat.digitChar d.val) = some (digitKey d.val) := by decide
  exact hall ⟨d, h⟩

/-- The keys that type the timeout. -/
theorem filterMap_timeoutText (s : Shifter) :
    s.timeoutText.filterMap keyOfChar? = lineKeys s.timeout.toNat := by
  have hdigits (l : List Nat) (hl : ∀ d ∈ l, d < 10) :
      (l.map Nat.digitChar).filterMap keyOfChar? = l.map digitKey := by
    rw [List.filterMap_map, ← List.filterMap_eq_map]
    refine List.filterMap_congr fun d hd => ?_
    exact keyOfChar?_digitChar (hl d hd)
  have hline : keyOfChar? '\n' = some Keycode.enter := rfl
  rw [timeoutText, toDigits_eq, List.cons_append, List.filterMap_cons_some hline,
    List.filterMap_append, hdigits _ fun d hd => lt_of_mem_decimalDigits hd, lineKeys]
  rfl

/-! ## What typing reports -/

variable {p : Policy} {s t : Shifter} {event : Transition} {op : Operation} {c : UInt8}
  {history : List Operation} {key : Keycode}

/-- A key goes down plain and up again, past all that is noted of keys. -/
def tap (key : Keycode) (s : Shifter) : Shifter :=
  (s.emit (.key ⟨key.base, false⟩ true)).emit (.key ⟨key.base, false⟩ false)

/-- What a tap reports. -/
def tapReports (key : Keycode) : List Report :=
  [.key ⟨key.base, false⟩ true, .key ⟨key.base, false⟩ false]

theorem outbox_tap (key : Keycode) (s : Shifter) :
    (s.tap key).outbox = s.outbox ++ tapReports key := by
  rw [tap, emit_outbox, emit_outbox, List.append_assoc]
  rfl

theorem typeText_eq (text : List Char) (s : Shifter) :
    s.typeText text = (text.filterMap keyOfChar?).foldl (fun s key => s.tap key) s := rfl

theorem outbox_foldl_tap (keys : List Keycode) (s : Shifter) :
    (keys.foldl (fun s key => s.tap key) s).outbox = s.outbox ++ keys.flatMap tapReports := by
  induction keys generalizing s with
  | nil => simp
  | cons key keys ih =>
    rw [List.foldl_cons, ih, outbox_tap, List.append_assoc, List.flatMap_cons]

theorem moves_tapReports_self (key : Keycode) :
    moves key.base (tapReports key) = [true, false] := by
  simp [tapReports, moves, Report.move?]

theorem moves_tapReports_of_ne (h : key.base ≠ c) : moves c (tapReports key) = [] := by
  simp [tapReports, moves, Report.move?, h]

/-- Whether a code is down at the host after some reports: its last move was a press. -/
def endsDown (c : UInt8) (reports : List Report) : Bool := (moves c reports).getLastD false

theorem endsDown_append_tap (c : UInt8) (reports : List Report) (key : Keycode) :
    endsDown c (reports ++ tapReports key) = (endsDown c reports && key.base != c) := by
  unfold endsDown
  rw [moves_append]
  by_cases hc : key.base = c
  · subst hc
    rw [moves_tapReports_self, List.getLastD_eq_getLast?, List.getLast?_append]
    simp
  · rw [moves_tapReports_of_ne hc, List.append_nil]
    simp [hc]

/-- What is typed is up at the host afterwards; all else is as before. -/
theorem endsDown_append_typed (c : UInt8) (reports : List Report) (keys : List Keycode) :
    endsDown c (reports ++ keys.flatMap tapReports) =
      (endsDown c reports && keys.all (·.base != c)) := by
  induction keys generalizing reports with
  | nil => simp
  | cons key keys ih =>
    rw [List.flatMap_cons, ← List.append_assoc, ih, endsDown_append_tap, List.all_cons,
      Bool.and_assoc]

/-! ## Typing apart from held keys -/

/-- A code that is up is tallied when it is tapped, and every other code as well. -/
theorem Tallied.tap (h : Tallied s c) (hup : key.base = c → s.down.contains c = false) :
    Tallied (s.tap key) c := by
  by_cases hc : key.base = c
  · have hdown := hup hc
    subst hc
    have hm : moves key.base (s.tap key).outbox = moves key.base s.outbox ++ [true, false] := by
      rw [outbox_tap, moves_append, moves_tapReports_self]
    exact h.extend hm (by simp [hdown]) hdown.symm
  · refine h.congr ?_ rfl
    rw [outbox_tap, moves_append, moves_tapReports_of_ne hc, List.append_nil]

theorem Tallied.foldl_tap (h : Tallied s c) {keys : List Keycode}
    (hup : ∀ key ∈ keys, key.base = c → s.down.contains c = false) :
    Tallied (keys.foldl (fun s key => s.tap key) s) c := by
  induction keys generalizing s with
  | nil => exact h
  | cons key keys ih =>
    exact ih (h.tap (hup key List.mem_cons_self))
      fun key' hmem => hup key' (List.mem_cons_of_mem key hmem)

/-- Whether an operation that types the timeout finds the codes of its keys up. -/
def typesApartBy (p : Policy) (s : Shifter) : Operation → Bool
  | .handle event =>
    !Operation.typesTimeout (.handle event) ||
      (lineKeys s.timeout.toNat).all fun key =>
        !(s.clearedFor p event).down.contains key.base
  | _ => true

/-- Whether a history never types a key while its code is down. -/
def typesApart (p : Policy) : Shifter → List Operation → Bool
  | _, [] => true
  | s, op :: rest => s.typesApartBy p op && typesApart p (s.perform p op).2 rest

theorem speaks_clearedFor (p : Policy) (event : Transition) (s : Shifter) :
    Speaks p s (s.clearedSends p event) (s.clearedFor p event) := by
  unfold clearedSends clearedFor
  dsimp only
  refine (speaks_settle event.time false s).trans ?_
  split
  · exact .refl
  · exact speaks_interrupt event.time _

theorem any_isTyped_clearedSends (p : Policy) (event : Transition) (s : Shifter) :
    (s.clearedSends p event).any Sending.isTyped = false := by
  unfold clearedSends
  rw [List.any_append, any_isTyped_settleSends, Bool.false_or]
  split
  · rfl
  · exact any_isTyped_interruptSends event.time

/-- A press of the key that types the timeout types it once what comes before is cleared. -/
theorem perform_report (p : Policy) (s : Shifter) (hdown : event.isDown = true)
    (hkey : event.keycode = ControlKey.report.keycode) :
    (s.perform p (.handle event)).2 =
      (s.clearedFor p event).typeText (s.clearedFor p event).timeoutText := by
  have hown : (s.clearedFor p event).pressOwn p event =
      (false, (s.clearedFor p event).control .report) := by
    rw [pressOwn, hkey, ControlKey.ofKeycode?_keycode]
  rw [perform_press p s hdown, handlePress_eq, hown]
  rfl

theorem typesTimeout_iff {op : Operation} :
    op.typesTimeout = true ↔ ∃ event, op = .handle event ∧ event.isDown = true ∧
      event.keycode = ControlKey.report.keycode := by
  cases op with
  | handle event => simp [Operation.typesTimeout]
  | _ => simp [Operation.typesTimeout]

/-- An operation that types nothing that is down keeps the tally. -/
theorem Tallied.perform (h : Tallied s c) (hapart : s.typesApartBy p op = true) :
    Tallied (s.perform p op).2 c := by
  cases htypes : op.typesTimeout with
  | false =>
    refine (speaks_perform p s op).tallied ?_ h
    simpa using any_isTyped_sends (p := p) (s := s) htypes
  | true =>
    obtain ⟨event, rfl, hdown, hkey⟩ := typesTimeout_iff.mp htypes
    have hcleared : Tallied (s.clearedFor p event) c := by
      refine (speaks_clearedFor p event s).tallied ?_ h
      simpa using any_isTyped_clearedSends p event s
    have htimeout : (s.clearedFor p event).timeout = s.timeout := by
      rw [timeout, (clearedFor_keeps p event s).1]
      rfl
    rw [perform_report p s hdown hkey, typeText_eq, filterMap_timeoutText, htimeout]
    refine hcleared.foldl_tap fun key hmem hc => ?_
    rw [typesApartBy, htypes, Bool.not_true, Bool.false_or, List.all_eq_true] at hapart
    simpa [hc] using hapart key hmem

theorem Tallied.run (h : Tallied s c) (hapart : s.typesApart p history = true) :
    Tallied (s.run p history) c := by
  induction history generalizing s with
  | nil => exact h
  | cons op rest ih =>
    rw [typesApart, Bool.and_eq_true] at hapart
    exact ih (h.perform hapart.1) hapart.2

/-- **The timeout is typed past the keys that are held.**  While no key waits and none is tracked,
the press of the key that types the timeout

* reports that Enter, the decimal digits of the timeout in their order and Enter go down and up,
  each before the next, and nothing else;
* leaves `down` as it is;
* leaves all codes at the host as they are, but for those it types, which are up there afterwards;
  so the same codes are down exactly if none of them was;
* leaves `down` and the host in agreement, if they always were: if no key of the timeout was ever
  typed while its code was down. -/
theorem timeout_typed (p : Policy) (settings : Settings) (history : List Operation)
    (event : Transition) (hdown : event.isDown = true)
    (hkey : event.keycode = ControlKey.report.keycode)
    (hwaiting : ((initial settings).run p history).waiting = none)
    (htracked : ((initial settings).run p history).tracked = none) :
    let s := (initial settings).run p history
    let t := (s.perform p (.handle event)).2
    let keys := lineKeys s.timeout.toNat
    s.reported p (.handle event) = keys.flatMap tapReports ∧
      t.down = s.down ∧
      (∀ c, endsDown c t.outbox = (endsDown c s.outbox && keys.all (·.base != c))) ∧
      ((∀ c, endsDown c t.outbox = endsDown c s.outbox) ↔
        ∀ key ∈ keys, endsDown key.base s.outbox = false) ∧
      ((initial settings).typesApart p (history ++ [.handle event]) = true →
        ∀ c, endsDown c t.outbox = t.down.contains c) := by
  intro s t keys
  have ht : t = s.typeText s.timeoutText := by
    have hcleared : s.clearedFor p event = s := by
      rw [(clearedFor_of_tracked p event htracked).1, settle_of_none hwaiting]
    have hreport := perform_report p s hdown hkey
    rwa [hcleared] at hreport
  have houtbox : t.outbox = s.outbox ++ keys.flatMap tapReports := by
    rw [ht, typeText_eq, filterMap_timeoutText, outbox_foldl_tap]
  have hends (c : UInt8) :
      endsDown c t.outbox = (endsDown c s.outbox && keys.all (·.base != c)) := by
    rw [houtbox, endsDown_append_typed]
  refine ⟨reported_eq houtbox, by rw [ht, down_typeText], hends, ?_, fun hapart c => ?_⟩
  · constructor
    · intro hsame key hmem
      refine Bool.eq_false_iff.mpr fun hheld => ?_
      have hboth := (hends key.base).symm.trans (hsame key.base)
      rw [hheld, Bool.true_and, List.all_eq_true] at hboth
      simpa using hboth key hmem
    · intro hup c
      rw [hends]
      cases hheld : endsDown c s.outbox with
      | false => rfl
      | true =>
        rw [Bool.true_and, List.all_eq_true]
        intro key hmem
        have hne : key.base ≠ c := by
          rintro rfl
          simp [hup key hmem] at hheld
        simpa using hne
  · have hrun := (tallied_initial settings c).run (p := p) hapart
    rw [run_append, run_cons, run_nil] at hrun
    exact hrun.last

/-- The digit 2 is held until a scan sends it. -/
def heldTwo : List Operation := [.handle (.press 0x1f 0 0 0), .scan 200]

theorem timeout_typed_of_heldTwo :
    ((initial {}).run .stock heldTwo).reported .stock
        (.handle (.press ControlKey.report.keycode 0 1 300)) =
      [Keycode.enter, 0x1e, 0x24, 0x22, Keycode.enter].flatMap tapReports ∧
    (∀ c, endsDown c (((initial {}).run .stock heldTwo).perform .stock
        (.handle (.press ControlKey.report.keycode 0 1 300))).2.outbox =
      endsDown c ((initial {}).run .stock heldTwo).outbox) ∧
    endsDown 0x1f ((initial {}).run .stock heldTwo).outbox = true ∧
    ∀ c, endsDown c (((initial {}).run .stock heldTwo).perform .stock
        (.handle (.press ControlKey.report.keycode 0 1 300))).2.outbox =
      (((initial {}).run .stock heldTwo).perform .stock
        (.handle (.press ControlKey.report.keycode 0 1 300))).2.down.contains c := by
  obtain ⟨hreported, -, -, hsame, hagree⟩ := timeout_typed .stock {} heldTwo
    (.press ControlKey.report.keycode 0 1 300) rfl rfl (by decide) (by decide)
  have hup : (lineKeys ((initial {}).run .stock heldTwo).timeout.toNat).all (fun key =>
      !endsDown key.base ((initial {}).run .stock heldTwo).outbox) = true := by decide
  have hnone := hsame.mpr fun key hmem => by simpa using List.all_eq_true.mp hup key hmem
  exact ⟨hreported, hnone, by decide, hagree (by decide)⟩

/-- The digit 1 is held until a scan sends it. -/
def heldOne : List Operation := [.handle (.press 0x1e 0 0 0), .scan 200]

/-- Typing the timeout can let go of a key that is held. -/
theorem typing_lets_go_of_held_key :
    ¬ ∀ (settings : Settings) (history : List Operation) (event : Transition),
      event.isDown = true → event.keycode = ControlKey.report.keycode →
      ((initial settings).run .stock history).waiting = none →
      ((initial settings).run .stock history).tracked = none →
      ∀ c, endsDown c (((initial settings).run .stock history).perform .stock
          (.handle event)).2.outbox =
        endsDown c ((initial settings).run .stock history).outbox := by
  intro h
  have hsame := h {} heldOne (.press ControlKey.report.keycode 0 1 300) rfl rfl (by decide)
    (by decide) 0x1e
  exact absurd hsame (by decide)

end Shifter

end LongPress
