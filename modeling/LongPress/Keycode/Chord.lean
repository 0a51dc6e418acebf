import LongPress.Keycode.Basic
import LongPress.Text.Split

/-!
# LongPress.Keycode.Chord

The written form of a chord: the letters `C`, `S`, `A` and `G` for control, shift, alt and gui, with
dashes between them, each with an `R` in front if the chord is of the right hand.

A chord is of one hand, so letters with and without `R` do not mix. Letters may come in any order
and more than once; a written chord has each letter once and in the order above.
-/

namespace LongPress.Chord

/-- The bit that chooses the right hand. -/
def rightHand : Chord := 0x10

/-- The letters in the order of their bits. -/
def letters : List Char := ['C', 'S', 'A', 'G']

/-! ## Reading -/

/-- The bit of a letter. -/
def letterBit? : List Char → Option Chord
  | ['C'] => some 0x1
  | ['S'] => some 0x2
  | ['A'] => some 0x4
  | ['G'] => some 0x8
  | _ => none

/-- A letter with or without its `R`: whether it is of the right hand, and its bit. -/
def readLetter? : List Char → Option (Bool × Chord)
  | 'R' :: c :: rest => (letterBit? (c :: rest)).map (true, ·)
  | part => (letterBit? part).map (false, ·)

/-- All bits of the letters, with the bit of the right hand; none if the hands differ. -/
def ofLetters? : List (Bool × Chord) → Option Chord
  | [] => none
  | (right, bit) :: rest =>
    if rest.all (·.1 == right) then
      some (rest.foldl (fun bits letter => bits ||| letter.2)
        (if right then bit ||| rightHand else bit))
    else none

def read? (text : List Char) : Option Chord :=
  ((Text.splitAll '-' text).mapM readLetter?).bind ofLetters?

/-! ## Writing -/

/-- The letters of the bits that are set. -/
def lettersOf (c : Chord) : List Char :=
  (letters.zipIdx.filter fun letter => c &&& (1 <<< UInt8.ofNat letter.2) != 0).map (·.1)

def write (c : Chord) : List Char :=
  let written := (lettersOf c).map fun letter =>
    if c &&& rightHand = 0 then [letter] else ['R', letter]
  ['-'].intercalate written

/-- A chord of five bits with a letter reads back as it was written. -/
theorem read?_write (c : Fin 32) (h : c.val % 16 ≠ 0) :
    read? (write (UInt8.ofNat c.val)) = some (UInt8.ofNat c.val) := by
  revert c; decide +kernel

end LongPress.Chord
