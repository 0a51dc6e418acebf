import Mathlib.Data.List.Infix
import LongPress.Proofs.History

/-!
# LongPress.Proofs.Board

The keys of a board that are down, place by place.

`Keys` tells keys apart by their bases, so two keys of one base cannot both be down there.  A
`Board` tells them apart by their places and admits any keys at once, control keys included: all
that it asks for is that each switch goes down and up in turn, and up with the code it went down
with (`Board.admits`).  `StaysApart` says of a history that it never has two dual role keys of one
base down together.
-/

namespace LongPress

/-! ## Places -/

namespace Switch

variable {a b : Switch}

theorem samePlace_iff : a.samePlace b = true ↔ a.column = b.column ∧ a.row = b.row := by
  simp [samePlace]

theorem samePlace_comm (a b : Switch) : a.samePlace b = b.samePlace a := by
  rw [samePlace, samePlace, BEq.comm, BEq.comm (a := a.row)]

theorem samePlace_trans {c : Switch} (h : a.samePlace b = true) (h' : b.samePlace c = true) :
    a.samePlace c = true := by
  rw [samePlace_iff] at h h' ⊢
  exact ⟨h.1.trans h'.1, h.2.trans h'.2⟩

end Switch

/-- The move that an operation hands to the shifter, that of a control key too. -/
def Operation.transition? : Operation → Option Transition
  | .handle event => some event
  | _ => none

theorem Operation.eq_of_transition? {op : Operation} {event : Transition}
    (h : op.transition? = some event) : op = .handle event := by
  cases op with
  | handle e =>
    cases h
    rfl
  | _ => cases h

/-! ## Boards -/

/-- The presses of the keys that are down. -/
abbrev Board := List Transition

namespace Board

/-- The key that is down at a place. -/
def at? (B : Board) (switch : Switch) : Option Transition :=
  B.find? fun press => press.switch.samePlace switch

/-- The keys that are down at other places. -/
def elsewhere (B : Board) (switch : Switch) : Board :=
  B.filter fun press => !press.switch.samePlace switch

/-- A key goes down or up. -/
def move (B : Board) (event : Transition) : Board :=
  if event.isDown then event :: B.elsewhere event.switch else B.elsewhere event.switch

def perform (B : Board) (op : Operation) : Board :=
  match op.transition? with
  | some event => B.move event
  | none => B

/-- The keys that are down after a history. -/
def run (B : Board) (history : List Operation) : Board := history.foldl perform B

/-- Whether a move can come next: a press where no key is down, or the release of the key that is
down there, by its code. -/
def admits (B : Board) (event : Transition) : Bool :=
  match B.at? event.switch with
  | none => event.isDown
  | some press => !event.isDown && event.keycode == press.keycode

/-- Whether all moves of a history come at their time. -/
def admitsAll (B : Board) : List Operation → Bool
  | [] => true
  | op :: rest => op.transition?.all B.admits && (B.perform op).admitsAll rest

variable {B : Board} {press event : Transition}

theorem run_append (B : Board) (first rest : List Operation) :
    B.run (first ++ rest) = (B.run first).run rest := by
  simp [run]

theorem admitsAll_append (B : Board) (first rest : List Operation) :
    B.admitsAll (first ++ rest) = (B.admitsAll first && (B.run first).admitsAll rest) := by
  induction first generalizing B with
  | nil => rfl
  | cons op first ih =>
    rw [List.cons_append, admitsAll, admitsAll, ih, Bool.and_assoc]
    rfl

/-- What is down after a move is the key that went down, or was down at another place. -/
theorem mem_move :
    press ∈ B.move event ↔
      event.isDown = true ∧ press = event ∨
        press ∈ B ∧ press.switch.samePlace event.switch = false := by
  have helsewhere : press ∈ B.elsewhere event.switch ↔
      press ∈ B ∧ press.switch.samePlace event.switch = false := by
    simp [elsewhere]
  unfold move
  split
  · next hdown => rw [List.mem_cons, helsewhere, and_iff_right hdown]
  · next hup => rw [helsewhere, or_iff_right (mt And.left hup)]

/-- A press that is admitted finds its place free. -/
theorem free_of_admits (h : B.admits event = true) (hdown : event.isDown = true) :
    ∀ press ∈ B, press.switch.samePlace event.switch = false := by
  unfold admits at h
  cases hat : B.at? event.switch with
  | none => simpa [at?] using hat
  | some press => simp [hat, hdown] at h

/-- A release that is admitted finds its key down. -/
theorem down_of_admits (h : B.admits event = true) (hup : event.isDown = false) :
    ∃ press ∈ B, press.switch.samePlace event.switch = true ∧
      event.keycode = press.keycode := by
  unfold admits at h
  cases hat : B.at? event.switch with
  | none => simp [hat, hup] at h
  | some press =>
    have hmem := List.mem_of_find?_eq_some hat
    have hplace := List.find?_some hat
    simp only [hat, Bool.and_eq_true, beq_iff_eq] at h
    exact ⟨press, hmem, hplace, h.2⟩

/-! ## One key at each place -/

/-- Keys at one place are one key. -/
def OneEach (B : Board) : Prop :=
  ∀ a ∈ B, ∀ b ∈ B, a.switch.samePlace b.switch = true → a = b

theorem oneEach_nil : OneEach [] := nofun

theorem OneEach.move (h : B.OneEach) (event : Transition) : (B.move event).OneEach := by
  intro a ha b hb hplace
  rcases mem_move.mp ha with ⟨-, rfl⟩ | ⟨ha, haway⟩
  · rcases mem_move.mp hb with ⟨-, rfl⟩ | ⟨-, hbway⟩
    · rfl
    · rw [Switch.samePlace_comm, hbway] at hplace
      cases hplace
  · rcases mem_move.mp hb with ⟨-, rfl⟩ | ⟨hb, -⟩
    · rw [haway] at hplace
      cases hplace
    · exact h a ha b hb hplace

theorem OneEach.perform (h : B.OneEach) (op : Operation) : (B.perform op).OneEach := by
  unfold Board.perform
  split
  · exact h.move _
  · exact h

/-- A key that is down stays down, or it is the one that is let go. -/
theorem OneEach.mem_move_release (h : B.OneEach) (hadmits : B.admits event = true)
    (hup : event.isDown = false) (hpress : press ∈ B) :
    press ∈ B.move event ∨
      event.keycode = press.keycode ∧ press.switch.samePlace event.switch = true := by
  cases hplace : press.switch.samePlace event.switch with
  | false => exact .inl (mem_move.mpr (.inr ⟨hpress, hplace⟩))
  | true =>
    obtain ⟨own, hown, hownPlace, hkey⟩ := down_of_admits hadmits hup
    rw [Switch.samePlace_comm] at hplace
    cases h own hown press hpress (Switch.samePlace_trans hownPlace hplace)
    exact .inr ⟨hkey, rfl⟩

/-! ## Dual role keys that stay apart -/

/-- No two dual role keys of one base are down. -/
def Apart (B : Board) : Prop :=
  ∀ a ∈ B, ∀ b ∈ B, a.keycode.isDualRole = true → b.keycode.isDualRole = true →
    a.keycode.base = b.keycode.base → a = b

instance (B : Board) : Decidable B.Apart := by
  unfold Apart
  infer_instance

/-- At no time of a history are two dual role keys of one base down. -/
def StaysApart (B : Board) (history : List Operation) : Prop :=
  ∀ first, first <+: history → (B.run first).Apart

namespace StaysApart

variable {op : Operation} {history rest : List Operation}

theorem head (h : B.StaysApart history) : B.Apart := h [] List.nil_prefix

theorem tail (h : B.StaysApart (op :: rest)) : (B.perform op).StaysApart rest :=
  fun first hfirst => h (op :: first) (List.cons_prefix_cons.mpr ⟨rfl, hfirst⟩)

theorem left {first : List Operation} (h : B.StaysApart (first ++ rest)) : B.StaysApart first :=
  fun before hbefore => h before (hbefore.trans (List.prefix_append first rest))

/-- It is enough to look at every history that the first operations make. -/
theorem of_inits (h : ∀ first ∈ history.inits, (B.run first).Apart) : B.StaysApart history :=
  fun first hfirst => h first ((List.mem_inits first history).mpr hfirst)

end StaysApart

end Board

end LongPress
