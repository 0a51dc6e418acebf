import LongPress.Proofs.Sending

/-!
# LongPress.Proofs.Reader

What the reader of a mailbox holds down, when the mailbox may overflow.

An overflow loses every report that was not read yet, and the report `clear` that takes their place
makes the reader let go of everything.  So the reader may hold fewer codes than are down, but never
one more: `Covers received m s` says that whoever has read `received`, and will read what is in the
mailbox `m` once the outbox of `s` is posted there, ends up with codes that are down in `s`.

A report that is posted takes effect as it stands, or nothing is held any more
(`heldBy_postAll`).  Each step of `Speaks` keeps the invariant for this reason alone, wherever in an
operation the mailbox overflows.

* `held_is_down` — the main statement.
-/

namespace LongPress

/-! ## What a reader holds -/

/-- Whether a code is held after a report, if `held` says whether it was before. -/
def Report.holds (c : UInt8) (held : Bool) : Report → Bool
  | .key stroke isDown => if stroke.code = c then isDown else held
  | .clear => false
  | _ => held

/-- Whether a reader of reports ends up holding a code. -/
def heldBy (c : UInt8) (reports : List Report) : Bool := reports.foldl (Report.holds c) false

theorem heldBy_append (c : UInt8) (rs us : List Report) :
    heldBy c (rs ++ us) = us.foldl (Report.holds c) (heldBy c rs) := List.foldl_append

theorem holds_of_not_isKey {c : UInt8} {held : Bool} {r : Report} (hr : r.isKey = false)
    (h : r.holds c held = true) : held = true := by
  cases r <;> simp_all [Report.holds, Report.isKey]

/-- Holding more before a report is holding no less after it. -/
theorem holds_mono {c : UInt8} {a b : Bool} (hab : a = true → b = true) {r : Report}
    (h : r.holds c a = true) : r.holds c b = true := by
  cases r <;> grind [Report.holds]

theorem foldl_holds_mono {c : UInt8} {a b : Bool} (hab : a = true → b = true) {rs : List Report}
    (h : rs.foldl (Report.holds c) a = true) : rs.foldl (Report.holds c) b = true := by
  induction rs generalizing a b with
  | nil => exact hab h
  | cons r rs ih => exact ih (holds_mono hab) h

/-! ## Posting -/

namespace Mailbox

theorem postAll_append (m : Mailbox) (rs us : List Report) :
    m.postAll (rs ++ us) = (m.postAll rs).postAll us := List.foldl_append

/-- A report that is posted takes effect, or nothing is held. -/
theorem heldBy_post {m : Mailbox} {received : List Report} {r : Report} {c : UInt8}
    (h : heldBy c (received ++ (m.post r).unread) = true) :
    r.holds c (heldBy c (received ++ m.unread)) = true := by
  by_cases hroom : m.unread.length < m.capacity
  · rw [unread_post_of_lt hroom, ← List.append_assoc, heldBy_append c _ [r]] at h
    exact h
  · rw [unread_post_of_le (Nat.le_of_not_lt hroom), heldBy_append] at h
    cases h

theorem heldBy_postAll {m : Mailbox} {received rs : List Report} {c : UInt8}
    (h : heldBy c (received ++ (m.postAll rs).unread) = true) :
    rs.foldl (Report.holds c) (heldBy c (received ++ m.unread)) = true := by
  induction rs generalizing m with
  | nil => exact h
  | cons r rs ih => exact foldl_holds_mono heldBy_post (ih h)

end Mailbox

namespace Shifter

/-! ## The reader and the codes that are down -/

/-- A reader holds only codes that are down, once the outbox is posted and all is read. -/
def Covers (received : List Report) (m : Mailbox) (s : Shifter) : Prop :=
  ∀ c, heldBy c (received ++ (m.postAll s.outbox).unread) = true → s.down.contains c = true

variable {p : Policy} {s t : Shifter} {received : List Report} {m : Mailbox} {l : List Sending}

/-- It is enough that reports put down, of the codes that were not down, only those that are down
afterwards, and let the others go. -/
theorem Covers.extend (h : Covers received m s) {rs : List Report}
    (outbox : t.outbox = s.outbox ++ rs)
    (holds : ∀ c, rs.foldl (Report.holds c) (s.down.contains c) = true →
      t.down.contains c = true) : Covers received m t := by
  intro c hc
  rw [outbox, Mailbox.postAll_append] at hc
  exact holds c (foldl_holds_mono (h c) (Mailbox.heldBy_postAll hc))

theorem Covers.keyDown (h : Covers received m s) (k : Keycode) (f : Bool) :
    Covers received m (s.keyDown p k f) := by
  refine h.extend ((keyDown_outbox p s k f).trans (List.append_assoc ..)) fun c hc => ?_
  rw [keyDown_down, CodeSet.contains_add]
  by_cases heq : c = (p.stroke k f).code
  · simp [heq]
  · have hne : (p.stroke k f).code ≠ c := Ne.symm heq
    split at hc <;> simp_all [Report.holds]

theorem Covers.keyUp (h : Covers received m s) (k : Keycode) :
    Covers received m (s.keyUp p k).2 := by
  refine h.extend (keyUp_outbox p s k) fun c hc => ?_
  rw [keyUp_down, CodeSet.contains_remove]
  by_cases heq : c = (s.strokeToRelease p k).code
  · split at hc <;> simp_all [Report.holds]
  · have hne : (s.strokeToRelease p k).code ≠ c := Ne.symm heq
    split at hc <;> simp_all [Report.holds]

/-- Whatever is said, the reader holds only codes that are down. -/
theorem Speaks.covers (h : Speaks p s l t) (hs : Covers received m s) : Covers received m t := by
  induction h with
  | quiet outbox down _ =>
    exact hs.extend (outbox.trans (List.append_nil _).symm) fun c hc => by rw [down]; exact hc
  | say s hr => exact hs.extend rfl fun c hc => holds_of_not_isKey hr hc
  | keyDown s k f => exact hs.keyDown k f
  | keyUp s k => exact hs.keyUp k
  | typed s code =>
    refine hs.extend (List.append_assoc ..) fun c hc => ?_
    by_cases heq : code = c <;> simp_all [Report.holds, emit]
  | trans _ _ ihs iht => exact iht (ihs hs)

end Shifter

/-! ## Operations and reads in any order -/

/-- What can happen to a station. -/
inductive Turn where
  | perform (op : Operation)
  | read
  deriving DecidableEq, Repr

/-- A station and all that was read from it. -/
structure Watch where
  station : Station
  received : List Report := []
  deriving DecidableEq, Repr

namespace Watch

/-- A station that has seen nothing yet, with a mailbox for so many reports. -/
def initial (settings : Settings) (capacity : Nat) : Watch where
  station := ⟨.initial settings, { capacity }⟩

def turn (p : Policy) (w : Watch) : Turn → Watch
  | .perform op => { w with station := (w.station.perform p op).2 }
  | .read =>
    { station := w.station.read.2, received := w.received ++ w.station.read.1.toList }

/-- Takes turns. -/
def run (p : Policy) (w : Watch) (turns : List Turn) : Watch := turns.foldl (turn p) w

/-- Whether the reader holds a code once everything in the mailbox is read. -/
def holds (w : Watch) (c : UInt8) : Bool := heldBy c (w.received ++ w.station.mailbox.unread)

/-- Everything said is posted, and the reader holds only codes that are down. -/
structure Safe (w : Watch) : Prop where
  posted : w.station.shifter.outbox = []
  covers (c : UInt8) : w.holds c = true → w.station.shifter.down.contains c = true

variable {p : Policy} {w : Watch}

theorem safe_initial (settings : Settings) (capacity : Nat) : (initial settings capacity).Safe where
  posted := rfl
  covers c hc := by cases hc

/-- What is read was in the mailbox before. -/
theorem holds_read (p : Policy) (w : Watch) (c : UInt8) : (w.turn p .read).holds c = w.holds c := by
  simp only [holds, turn, Station.read, Mailbox.read]
  cases hunread : w.station.mailbox.unread <;> simp [hunread]

theorem Safe.turn (h : w.Safe) (t : Turn) : (w.turn p t).Safe := by
  cases t with
  | perform op =>
    have hcovers : w.station.shifter.Covers w.received w.station.mailbox := by
      intro c hc
      rw [h.posted] at hc
      exact h.covers c hc
    have hspeaks := Shifter.speaks_perform p w.station.shifter op
    exact ⟨rfl, hspeaks.covers hcovers⟩
  | read =>
    refine ⟨h.posted, fun c hc => h.covers c ?_⟩
    rwa [holds_read] at hc

theorem Safe.run (h : w.Safe) (turns : List Turn) : (w.run p turns).Safe := by
  induction turns generalizing w with
  | nil => exact h
  | cons t rest ih => exact ih (h.turn t)

/-- **An overflow leaves no key stuck**: whatever is asked of a station and whenever its reports are
read, a code that the reader holds, or will hold once everything in the mailbox is read, is down;
so the release of a key in that code is still reported. -/
theorem held_is_down (p : Policy) (settings : Settings) (capacity : Nat) (turns : List Turn)
    (c : UInt8) (hc : ((initial settings capacity).run p turns).holds c = true) :
    let s := ((initial settings capacity).run p turns).station.shifter
    s.down.contains c = true ∧
      ∀ k, (s.strokeToRelease p k).code = c →
        (s.keyUp p k).2.outbox = [.key (s.strokeToRelease p k) false] := by
  intro s
  have hsafe := (safe_initial settings capacity).run (p := p) turns
  have hdown : s.down.contains c = true := hsafe.covers c hc
  refine ⟨hdown, fun k hk => ?_⟩
  rw [Shifter.keyUp_outbox, hk, if_pos hdown, hsafe.posted, List.nil_append]

/-- Three keys are held until the host repeats them, with room for one report; the second overflows
the mailbox, and only then is it read. -/
def crowded : List Turn :=
  [.perform (.handle (.press 4 0 0 0)), .perform (.scan 200),
    .perform (.handle (.press 5 0 1 300)), .perform (.scan 500), .read,
    .perform (.handle (.press 6 0 2 600)), .perform (.scan 800)]

theorem held_is_down_of_crowded :
    ((initial {} 1).run .stock crowded).received = [.clear] ∧
      ((initial {} 1).run .stock crowded).holds 4 = false ∧
      ((initial {} 1).run .stock crowded).holds 6 = true ∧
      ((initial {} 1).run .stock crowded).station.shifter.down.contains 6 = true ∧
      (((initial {} 1).run .stock crowded).station.shifter.keyUp .stock 6).2.outbox =
        [.key ⟨6, true⟩ false] := by
  have hholds : ((initial {} 1).run .stock crowded).holds 6 = true := by decide
  obtain ⟨hdown, hrelease⟩ := held_is_down .stock {} 1 crowded 6 hholds
  exact ⟨by decide, by decide, hholds, hdown, hrelease 6 (by decide)⟩

end Watch

end LongPress
