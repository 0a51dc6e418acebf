import LongPress.Keycode.Expression

/-!
# LongPress.Tool.Listing

Lists of key names: which names, in which order, and how each is shown.
-/

namespace LongPress

/-- Kinds of keys to list. -/
inductive KeyKind where
  | basic
  | modifier
  | control
  deriving DecidableEq, Repr

def KeyKind.includes : KeyKind → Keycode → Bool
  | basic, k => k.isPlain
  | modifier, k => k.isModifier
  | control, k => k.isControl

/-- What the names of a list have in common. -/
inductive NamePattern where
  /-- They stand for one key. -/
  | keycode (keycode : Keycode)
  /-- They contain a text; case makes no difference. -/
  | part (text : List Char)
  deriving DecidableEq, Repr

namespace NamePattern

/-- A code in hexadecimal, or a part of a name. -/
def read (text : String) : Except Text.NumeralError NamePattern :=
  let folded := Text.fold text.toList
  match Keycode.hexDigits? folded with
  | some digits =>
    (Text.readNumeral 16 0xffff digits).map fun n => keycode (UInt16.ofNat n)
  | none => .ok (part folded)

def accepts : NamePattern → NamedKey → Bool
  | keycode k, n => n.keycode == k
  | part text, n => Text.occursIn text (Text.fold n.name.toList)

end NamePattern

/-- A list of key names to be made. -/
structure Listing where
  /-- Shows the code of every name. -/
  verbose : Bool := false
  /-- Sorts by code and then by name, not by name alone. -/
  byKeycode : Bool := false
  kind? : Option KeyKind := none
  pattern? : Option String := none
  deriving DecidableEq, Repr

namespace Listing

/-- The pattern, if one is given. -/
def readPattern (l : Listing) : Except Text.NumeralError (Option NamePattern) :=
  match l.pattern? with
  | none => .ok none
  | some text => (NamePattern.read text).map some

def selected (l : Listing) (pattern? : Option NamePattern) : List NamedKey :=
  Keycode.names.filter fun n =>
    l.kind?.all (·.includes n.keycode) && pattern?.all (·.accepts n)

def nameLe (a b : NamedKey) : Bool := a.name ≤ b.name

def keycodeLe (a b : NamedKey) : Bool :=
  a.keycode < b.keycode || (a.keycode == b.keycode && nameLe a b)

/-- A code and what stands for it. -/
def verboseLine (keycode : Keycode) (names : List String) : String :=
  String.ofList (Text.hexCapital 2 keycode.toNat) ++ ": " ++ ", ".intercalate names

/-- The lines of a sorted list. Sorted by code, a verbose list has one line for each code. -/
def linesOf (l : Listing) (sorted : List NamedKey) : List String :=
  if !l.verbose then sorted.map (·.name)
  else if l.byKeycode then
    (sorted.splitBy fun a b => a.keycode == b.keycode).filterMap fun group =>
      group.head?.map fun n => verboseLine n.keycode (group.map (·.name))
  else sorted.map fun n => verboseLine n.keycode [n.name]

/-- The lines of the list. -/
def lines (l : Listing) : Except Text.NumeralError (List String) :=
  l.readPattern.map fun pattern? =>
    l.linesOf ((l.selected pattern?).mergeSort (if l.byKeycode then keycodeLe else nameLe))

end Listing

end LongPress
