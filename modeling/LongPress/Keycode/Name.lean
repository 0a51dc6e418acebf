import LongPress.Keycode.Basic
import LongPress.Text.Fold

/-!
# LongPress.Keycode.Name

The names of keys, in the order in which they are listed, and the key of a name.

A key may have several names; the first of them describes it. In a name, case, dashes and
underscores make no difference, unless the name consists of nothing else.
-/

namespace LongPress

/-- A name and the key it stands for. -/
structure NamedKey where
  name : String
  keycode : Keycode
  deriving DecidableEq, Repr

namespace Keycode

/-! ## The listing -/

/-- One name of one character for each character. -/
def singleNames (chars : String) : List (List String) :=
  chars.toList.map fun c => [String.singleton c]

/-- The names of the basic keys, from the letter A on. -/
def basicNames : List (List String) :=
  singleNames "ABCDEFGHIJKLMNOPQRSTUVWXYZ" ++ singleNames "1234567890" ++
  [["Return", "Enter", "ent"], ["Escape", "esc"], ["backspace", "bksp"], ["Tab"],
    ["Spacebar", "space", "spc"], ["Dash", "-", "minus"], ["Equals", "=", "equal"],
    ["LeftBrace", "[", "leftsquarebracket"], ["RightBrace", "]", "rightsquarebracket"],
    ["Backslash", "\\"], ["NonUsHash"], ["Semicolon", ";"], ["LeftApos", "'", "apostrophe"],
    ["GraveAccent", "`", "grave"], ["Comma", ","], ["Period", ".", "dot"],
    ["Forwardslash", "slash"], ["CapsLock"],
    ["F1"], ["F2"], ["F3"], ["F4"], ["F5"], ["F6"], ["F7"], ["F8"], ["F9"], ["F10"], ["F11"],
    ["F12"], ["Printscreen", "print"], ["ScrollLock"], ["Pause"], ["Insert"], ["Home"],
    ["Pageup", "pgup"], ["Delete", "del"], ["End"], ["Pagedown", "pgdn"], ["Right"], ["Left"],
    ["Down"], ["Up"], ["KpNumLock"], ["KpForwardslash"], ["KpStar"], ["KpDash"], ["KpPlus"],
    ["KpEnter"], ["Kp1"], ["Kp2"], ["Kp3"], ["Kp4"], ["Kp5"], ["Kp6"], ["Kp7"], ["Kp8"], ["Kp9"],
    ["Kp0"], ["KpPeriod"], ["NonUsBackslash"], ["Application", "app"]]

/-- The names of the modifier keys. -/
def modifierNames : List (List String) :=
  [["Leftcontrol", "lctrl", "lc", "lctl"], ["Leftshift", "lshift", "ls"],
    ["Leftalt", "lalt", "la"], ["LeftGui", "leftmeta", "lgui", "lg"],
    ["Rightcontrol", "rctrl", "rc", "rctl"], ["Rightshift", "rshift", "rs"],
    ["Rightalt", "altgr", "ralt", "ra"], ["RightGui", "rightmeta", "rgui", "rg"]]

/-- The names of one key. -/
def named (keycode : Keycode) (names : List String) : List NamedKey := names.map (⟨·, keycode⟩)

/-- The names of keys that follow one another. -/
def namedFrom (first : Nat) (names : List (List String)) : List NamedKey :=
  (names.zipIdx first).flatMap fun entry => named (UInt16.ofNat entry.2) entry.1

/-- All names, those of a basic key first. The second name of the slash key comes last. -/
def names : List NamedKey :=
  namedFrom 0x4 basicNames ++ namedFrom firstModifier.toNat modifierNames ++
  named noKey ["noop"] ++
  named ControlKey.shorter.keycode ["AS_Down", "asdn"] ++
  named ControlKey.longer.keycode ["AS_Up"] ++
  named ControlKey.report.keycode ["AS_Report", "asrp"] ++
  named ControlKey.on.keycode ["AS_On"] ++
  named ControlKey.off.keycode ["AS_Off"] ++
  named ControlKey.toggle.keycode ["AS_Toggle", "astg"] ++
  named slash ["/"]

/-! ## From a name to its key -/

/-- A name without dashes and underscores, in lower case. -/
def normalName (name : List Char) : List Char :=
  Text.fold (name.filter fun c => c != '-' && c != '_')

/-- What a listed name is compared by: its normal form, or itself if nothing is left of it. -/
def comparisonKey (n : NamedKey) : List Char :=
  match normalName n.name.toList with
  | [] => n.name.toList
  | key => key

/-- The key that is listed under exactly this key of comparison. -/
def ofKey? (key : List Char) : Option Keycode :=
  (names.find? fun n => comparisonKey n == key).map (·.keycode)

/-- A name without a backslash in front of it. -/
def unescaped : List Char → List Char
  | '\\' :: c :: rest => c :: rest
  | name => name

/-- The key of a name, as it is or in its normal form. -/
def ofName? (name : List Char) : Option Keycode :=
  let name := unescaped name
  match ofKey? name with
  | some keycode => some keycode
  | none =>
    match normalName name with
    | [] => none
    | key => ofKey? key

/-! ## From a key to its name -/

/-- The first name of a key. -/
def firstName? (keycode : Keycode) : Option String :=
  (names.find? (·.keycode == keycode)).map (·.name)

end Keycode

end LongPress
