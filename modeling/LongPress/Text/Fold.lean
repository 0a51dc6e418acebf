/-!
# LongPress.Text.Fold

Lower case, as far as it matters for comparison with ASCII text.

Besides the capital letters of ASCII, one character has an ASCII letter for its lower case: the
Kelvin sign, whose lower case is k. Every other character keeps a part beyond ASCII in lower case
(or none of it is upper case), so it never matches an ASCII text, folded or not.
-/

namespace LongPress.Text

/-- The sign for the unit Kelvin. -/
def kelvinSign : Char := '\u212a'

def foldChar (c : Char) : Char :=
  if c.isUpper then c.toLower else if c = kelvinSign then 'k' else c

/-- A text in lower case, for comparison with ASCII text. -/
def fold (text : List Char) : List Char := text.map foldChar

/-- Whether one text occurs in another. -/
def occursIn (part : List Char) : List Char → Bool
  | [] => part.isEmpty
  | c :: rest => part.isPrefixOf (c :: rest) || occursIn part rest

end LongPress.Text
