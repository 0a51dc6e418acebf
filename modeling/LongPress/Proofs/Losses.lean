import Mathlib.Data.List.Induction
import LongPress.Mailbox

/-!
# LongPress.Proofs.Losses

What a mailbox loses, and what its reader is told about it.

A post that finds the mailbox full takes away everything unread and itself, and leaves the report
`clear`.  A `clear` that is still unread can be taken away by the next such post; then one `clear`
stands for both losses.

What was posted is therefore cut into stretches: a report that is handed on as it is, or a block of
reports that is handed on as one `clear`. `Accounts w past queued` says that the stretches `past`
were read in `w` and the stretches `queued` are unread. A post with room adds a stretch, a read
moves one over, and a post without room melts all that are queued into one block, which is longer
than the mailbox because each stretch stands for at least one report.

* `losses_marked` — the main statement.
-/

namespace LongPress.Mailbox

/-! ## Posts and reads in any order -/

/-- What can be done with a mailbox. -/
inductive Use where
  | post (r : Report)
  | read
  deriving DecidableEq, Repr

/-- A mailbox, all that was posted to it and all that was read from it. -/
structure Ledger where
  mailbox : Mailbox
  posted : List Report := []
  received : List Report := []
  deriving DecidableEq, Repr

namespace Ledger

/-- An empty mailbox for so many reports. -/
def initial (capacity : Nat) : Ledger where
  mailbox := { capacity }

def use (w : Ledger) : Use → Ledger
  | .post r => { w with mailbox := w.mailbox.post r, posted := w.posted ++ [r] }
  | .read =>
    { w with mailbox := w.mailbox.read.2, received := w.received ++ w.mailbox.read.1.toList }

/-- Uses a mailbox time and again. -/
def run (w : Ledger) (uses : List Use) : Ledger := uses.foldl use w

theorem run_concat (w : Ledger) (uses : List Use) (u : Use) :
    w.run (uses ++ [u]) = (w.run uses).use u := by
  simp [run]

/-- Whether a post finds so many reports unread as fit. -/
def Overflowed (capacity : Nat) (uses : List Use) : Prop :=
  ∃ before r after, uses = before ++ .post r :: after ∧
    ((initial capacity).run before).mailbox.unread.length = capacity

theorem overflowed_concat {capacity : Nat} {uses : List Use} {u : Use} :
    Overflowed capacity (uses ++ [u]) ↔ Overflowed capacity uses ∨
      (∃ r, u = .post r) ∧ ((initial capacity).run uses).mailbox.unread.length = capacity := by
  constructor
  · rintro ⟨before, r, after, huses, hfull⟩
    rcases List.eq_nil_or_concat after with rfl | ⟨after, v, rfl⟩
    · obtain ⟨rfl, hu⟩ := List.append_inj' huses rfl
      exact .inr ⟨⟨r, List.head_eq_of_cons_eq hu⟩, hfull⟩
    · rw [List.concat_eq_append, ← List.cons_append, ← List.append_assoc] at huses
      exact .inl ⟨before, r, after, (List.append_inj' huses rfl).1, hfull⟩
  · rintro (⟨before, r, after, rfl, hfull⟩ | ⟨⟨r, rfl⟩, hfull⟩)
    · exact ⟨before, r, after ++ [u], by simp, hfull⟩
    · exact ⟨uses, r, [], rfl, hfull⟩

end Ledger

/-! ## Stretches -/

/-- A stretch of what was posted. -/
inductive Stretch where
  /-- One report, handed on. -/
  | kept (r : Report)
  /-- Reports that overflows took away. -/
  | lost (block : List Report)
  deriving DecidableEq, Repr

namespace Stretch

/-- The reports of a stretch. -/
def reports : Stretch → List Report
  | kept r => [r]
  | lost block => block

/-- What the reader sees of a stretch. -/
def seen : Stretch → Report
  | kept r => r
  | lost _ => .clear

def isLost : Stretch → Bool
  | kept _ => false
  | lost _ => true

/-- Stretches that all have a report have together no fewer reports than they are. -/
theorem length_le_flatMap_reports {stretches : List Stretch}
    (h : ∀ s ∈ stretches, 0 < s.reports.length) :
    stretches.length ≤ (stretches.flatMap reports).length := by
  induction stretches with
  | nil => simp
  | cons s rest ih =>
    have hs := h s List.mem_cons_self
    have hrest := ih fun t ht => h t (List.mem_cons_of_mem s ht)
    simp only [List.length_cons, List.flatMap_cons, List.length_append]
    omega

/-- If nothing is lost, everything is seen as it was posted. -/
theorem map_seen_eq_flatMap_reports {stretches : List Stretch}
    (h : ∀ s ∈ stretches, s.isLost = false) : stretches.map seen = stretches.flatMap reports := by
  induction stretches with
  | nil => rfl
  | cons s rest ih =>
    have hs := h s List.mem_cons_self
    have hrest := ih fun t ht => h t (List.mem_cons_of_mem s ht)
    cases s with
    | kept r => simp [seen, reports, hrest]
    | lost block => simp [isLost] at hs

end Stretch

/-! ## The accounts of a mailbox -/

/-- Which stretches were read, and which are still queued. -/
structure Accounts (w : Ledger) (past queued : List Stretch) : Prop where
  posted : w.posted = (past ++ queued).flatMap Stretch.reports
  received : w.received = past.map Stretch.seen
  unread : w.mailbox.unread = queued.map Stretch.seen
  fits : queued.length ≤ w.mailbox.capacity
  long : ∀ s ∈ past ++ queued, s.isLost = true → w.mailbox.capacity < s.reports.length

namespace Accounts

variable {w : Ledger} {past queued : List Stretch} {s : Stretch}

theorem initial (capacity : Nat) : Accounts (.initial capacity) [] [] where
  posted := rfl
  received := rfl
  unread := rfl
  fits := Nat.zero_le _
  long := by simp

theorem length_unread (h : Accounts w past queued) :
    w.mailbox.unread.length = queued.length := by
  rw [h.unread, List.length_map]

/-- No stretch is empty. -/
theorem length_reports_pos (h : Accounts w past queued) (hs : s ∈ past ++ queued) :
    0 < s.reports.length := by
  cases s with
  | kept r => exact Nat.one_pos
  | lost block => exact Nat.zero_lt_of_lt (h.long _ hs rfl)

/-- With room, a report is queued. -/
theorem post (h : Accounts w past queued) (hroom : queued.length < w.mailbox.capacity)
    (r : Report) : Accounts (w.use (.post r)) past (queued ++ [.kept r]) where
  posted := by simp [Ledger.use, h.posted, Stretch.reports]
  received := h.received
  unread := by
    have hlt : w.mailbox.unread.length < w.mailbox.capacity := by rwa [h.length_unread]
    simp [Ledger.use, unread_post_of_lt hlt, h.unread, Stretch.seen]
  fits := by simpa [Ledger.use, Nat.succ_le_iff] using hroom
  long := by
    intro s hs hlost
    rw [← List.append_assoc, List.mem_append, List.mem_singleton] at hs
    rcases hs with hs | rfl
    · simpa [Ledger.use] using h.long s hs hlost
    · cases hlost

/-- Without room, all that is queued becomes one block with the report that did not fit. -/
theorem overflow (h : Accounts w past queued) (hcapacity : 0 < w.mailbox.capacity)
    (hfull : queued.length = w.mailbox.capacity) (r : Report) :
    Accounts (w.use (.post r)) past [.lost (queued.flatMap Stretch.reports ++ [r])] where
  posted := by simp [Ledger.use, h.posted, Stretch.reports]
  received := h.received
  unread := by
    have hle : w.mailbox.capacity ≤ w.mailbox.unread.length :=
      Nat.le_of_eq (hfull.symm.trans h.length_unread.symm)
    simp [Ledger.use, unread_post_of_le hle, Stretch.seen]
  fits := by simpa [Ledger.use, Nat.succ_le_iff] using hcapacity
  long := by
    intro s hs hlost
    simp only [Ledger.use, capacity_post]
    rcases List.mem_append.mp hs with hs | hs
    · exact h.long s (List.mem_append_left _ hs) hlost
    · have hlen : queued.length ≤ (queued.flatMap Stretch.reports).length :=
        Stretch.length_le_flatMap_reports fun t ht =>
          h.length_reports_pos (List.mem_append_right past ht)
      rw [List.mem_singleton.mp hs]
      simp only [Stretch.reports, List.length_append, List.length_singleton]
      omega

/-- A read takes over the oldest stretch. -/
theorem read (h : Accounts w past (s :: queued)) :
    Accounts (w.use .read) (past ++ [s]) queued := by
  have hread : w.mailbox.read =
      (some s.seen, { w.mailbox with unread := queued.map Stretch.seen }) := by
    simp [Mailbox.read, h.unread]
  exact {
    posted := by simp [Ledger.use, h.posted]
    received := by simp [Ledger.use, hread, h.received]
    unread := by simp [Ledger.use, hread]
    fits := by
      have hfits := h.fits
      simp only [List.length_cons] at hfits
      simp only [Ledger.use, hread]
      omega
    long := by simpa [Ledger.use, hread] using h.long }

/-- There is nothing to read if nothing is queued. -/
theorem read_of_nil (h : Accounts w past []) : w.use .read = w := by
  have hread : w.mailbox.read = (none, w.mailbox) := by simp [Mailbox.read, h.unread]
  simp [Ledger.use, hread]

end Accounts

namespace Ledger

theorem capacity_use (w : Ledger) (u : Use) :
    (w.use u).mailbox.capacity = w.mailbox.capacity := by
  cases u with
  | post r => exact capacity_post w.mailbox r
  | read => simp only [use, Mailbox.read]; split <;> rfl

@[simp] theorem capacity_run (w : Ledger) (uses : List Use) :
    (w.run uses).mailbox.capacity = w.mailbox.capacity := by
  induction uses generalizing w with
  | nil => rfl
  | cons u rest ih => exact (ih (w.use u)).trans (capacity_use w u)

/-- There are accounts after any uses, and they show a loss exactly if a post found no room. -/
theorem exists_accounts {capacity : Nat} (hcapacity : 0 < capacity) (uses : List Use) :
    ∃ past queued, Accounts ((initial capacity).run uses) past queued ∧
      ((past ++ queued).any Stretch.isLost = true ↔ Overflowed capacity uses) := by
  induction uses using List.reverseRecOn with
  | nil => exact ⟨[], [], .initial capacity, by simp [Overflowed]⟩
  | append_singleton uses u ih =>
    obtain ⟨past, queued, h, hlost⟩ := ih
    have hcap : ((initial capacity).run uses).mailbox.capacity = capacity := capacity_run _ _
    have hlen := h.length_unread
    have hfits := h.fits
    simp only [run_concat, overflowed_concat, ← hlost]
    cases u with
    | post r =>
      rcases Nat.lt_or_eq_of_le hfits with hroom | hfull
      · refine ⟨_, _, h.post hroom r, ?_⟩
        have hne : ((initial capacity).run uses).mailbox.unread.length ≠ capacity := by omega
        simp [Stretch.isLost, hne]
      · refine ⟨_, _, h.overflow (by rwa [hcap]) hfull r, ?_⟩
        have heq : ((initial capacity).run uses).mailbox.unread.length = capacity := by omega
        simp [Stretch.isLost, heq]
    | read =>
      cases queued with
      | nil => exact ⟨past, [], by rwa [h.read_of_nil], by simp⟩
      | cons s queued => exact ⟨past ++ [s], queued, h.read, by simp⟩

/-- **Every lost stretch is marked by one `clear`**: whatever is posted to a mailbox and whenever it
is read, what was read and what is still unread is what was posted, in order, but for some blocks
that are each replaced by a single `clear`.  Every such block is longer than the mailbox, and there
is one exactly if some post found the mailbox full; otherwise all arrives as it was posted. -/
theorem losses_marked {capacity : Nat} (hcapacity : 1 ≤ capacity) (uses : List Use) :
    let w := (initial capacity).run uses
    (∃ stretches : List Stretch,
      w.posted = stretches.flatMap Stretch.reports ∧
      w.received ++ w.mailbox.unread = stretches.map Stretch.seen ∧
      (∀ block, .lost block ∈ stretches → capacity + 1 ≤ block.length) ∧
      ((∃ block, .lost block ∈ stretches) ↔ Overflowed capacity uses)) ∧
    (¬ Overflowed capacity uses → w.received ++ w.mailbox.unread = w.posted) := by
  intro w
  obtain ⟨past, queued, h, hlost⟩ := exists_accounts hcapacity uses
  have hcap : w.mailbox.capacity = capacity := capacity_run _ _
  have hseen : w.received ++ w.mailbox.unread = (past ++ queued).map Stretch.seen := by
    rw [h.received, h.unread, List.map_append]
  refine ⟨⟨past ++ queued, h.posted, hseen, fun block hblock => ?_, ?_⟩, fun hnone => ?_⟩
  · rw [← hcap]
    exact h.long _ hblock rfl
  · rw [← hlost, List.any_eq_true]
    constructor
    · rintro ⟨block, hblock⟩
      exact ⟨_, hblock, rfl⟩
    · rintro ⟨s, hs, hs'⟩
      cases s with
      | kept r => cases hs'
      | lost block => exact ⟨block, hs⟩
  · have hkept : ∀ s ∈ past ++ queued, s.isLost = false := by
      rw [← hlost, List.any_eq_true, not_exists] at hnone
      exact fun s hs => Bool.eq_false_iff.mpr fun hs' => hnone s ⟨hs, hs'⟩
    rw [hseen, h.posted, Stretch.map_seen_eq_flatMap_reports hkept]

/-- With room for two reports, a second overflow takes away the `clear` of the first, and a report
comes after that. -/
def twice : List Use :=
  [.post (.delay 1), .read, .post (.delay 2), .post (.delay 3), .post (.delay 4), .post (.delay 5),
    .post (.delay 6), .post (.delay 7)]

theorem losses_marked_of_twice :
    ((initial 2).run twice).received ++ ((initial 2).run twice).mailbox.unread =
        [.delay 1, .clear, .delay 7] ∧
      ∃ stretches : List Stretch,
        ((initial 2).run twice).posted = stretches.flatMap Stretch.reports ∧
        [.delay 1, .clear, .delay 7] = stretches.map Stretch.seen ∧
        ∀ block, .lost block ∈ stretches → 3 ≤ block.length := by
  obtain ⟨⟨stretches, hposted, hseen, hlong, -⟩, -⟩ :=
    @losses_marked 2 (by decide) twice
  exact ⟨by decide, stretches, hposted, hseen, hlong⟩

end Ledger

end LongPress.Mailbox
