import LongPress.Report

/-!
# LongPress.Mailbox

A bounded queue of reports between the shifter and its reader.

A report that finds the mailbox full is lost, and so is everything unread: the mailbox then holds
the single report `clear`, from which the reader learns that it has to let go of every key.
-/

namespace LongPress

/-- Reports not yet read, oldest first, at most `capacity` of them. -/
structure Mailbox where
  capacity : Nat
  unread : List Report := []
  deriving DecidableEq, Repr

namespace Mailbox

def isFull (m : Mailbox) : Bool := m.capacity ≤ m.unread.length

def post (m : Mailbox) (r : Report) : Mailbox :=
  if m.isFull then { m with unread := [.clear] } else { m with unread := m.unread ++ [r] }

def postAll (m : Mailbox) (rs : List Report) : Mailbox := rs.foldl post m

/-- Reads the oldest report. -/
def read (m : Mailbox) : Option Report × Mailbox :=
  match m.unread with
  | [] => (none, m)
  | r :: rest => (some r, { m with unread := rest })

/-- Reads everything there is. -/
def readAll (m : Mailbox) : List Report × Mailbox := (m.unread, { m with unread := [] })

/-! ## What a post does -/

@[simp] theorem capacity_post (m : Mailbox) (r : Report) : (m.post r).capacity = m.capacity := by
  unfold post; split <;> rfl

theorem unread_post_of_lt {m : Mailbox} (h : m.unread.length < m.capacity) (r : Report) :
    (m.post r).unread = m.unread ++ [r] := by
  simp [post, isFull, Nat.not_le.mpr h]

theorem unread_post_of_le {m : Mailbox} (h : m.capacity ≤ m.unread.length) (r : Report) :
    (m.post r).unread = [.clear] := by
  simp [post, isFull, h]

end Mailbox

end LongPress
