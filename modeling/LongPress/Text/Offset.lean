/-!
# LongPress.Text.Offset

Places in a text, counted in bytes of UTF-8, and what they mean in lines and columns.
-/

namespace LongPress.Text

/-- The number of bytes a text takes. -/
def byteLength : List Char → Nat
  | [] => 0
  | c :: rest => c.utf8Size + byteLength rest

@[simp] theorem byteLength_nil : byteLength [] = 0 := rfl

@[simp] theorem byteLength_cons (c : Char) (rest : List Char) :
    byteLength (c :: rest) = c.utf8Size + byteLength rest := rfl

@[simp] theorem byteLength_append (a b : List Char) :
    byteLength (a ++ b) = byteLength a + byteLength b := by
  induction a with
  | nil => simp
  | cons c rest ih => simp [ih, Nat.add_assoc]

/-- The part of a text before an offset; none if the offset is beyond the text or inside a
character. -/
def before? : Nat → List Char → Option (List Char)
  | 0, _ => some []
  | _ + 1, [] => none
  | n + 1, c :: rest =>
    if c.utf8Size ≤ n + 1 then (before? (n + 1 - c.utf8Size) rest).map (c :: ·) else none

theorem before?_append (a b : List Char) : before? (byteLength a) (a ++ b) = some a := by
  induction a with
  | nil => simp [before?]
  | cons c rest ih =>
    have hc := c.utf8Size_pos
    obtain ⟨n, hn⟩ : ∃ n, byteLength (c :: rest) = n + 1 :=
      ⟨byteLength (c :: rest) - 1, by simp only [byteLength_cons]; omega⟩
    rw [hn, List.cons_append, before?]
    simp only [byteLength_cons] at hn
    rw [if_pos (by omega), ← hn, Nat.add_sub_cancel_left, ih]
    rfl

/-- The number of the line that a text ends in, counted from 1. -/
def lineNumber (text : List Char) : Nat := text.count '\n' + 1

/-- The number of characters since the start of the last line of a text. -/
def column (text : List Char) : Nat := (text.reverse.takeWhile (· ≠ '\n')).length

/-- Line and column of an offset. -/
def position? (offset : Nat) (text : List Char) : Option (Nat × Nat) :=
  (before? offset text).map fun a => (lineNumber a, column a)

end LongPress.Text
