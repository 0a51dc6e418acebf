import LongPress.Keycode.Chord
import LongPress.Keycode.Name
import LongPress.Text.Blank
import LongPress.Text.Numeral

/-!
# LongPress.Keycode.Expression

Written keys:

* `0x4104`: a code in hexadecimal;
* `a`, `enter`: a name;
* `lt(1, a)`: a layer and the basic key of a layer-tap key;
* `mt(C-S, a)`: a chord and the basic key of a mod-tap key;
* `C-S-a`: a chord and the basic key of a composite key.

`parse` reads them and `describe` writes them.
-/

namespace LongPress.Keycode

/-- What is wrong with a written key. -/
inductive ExpressionError where
  | badHex (text : String)
  /-- A function without a comma between its arguments. -/
  | oneArgument (function : String)
  | unknownFunction (function : String)
  | badLayer (text : String)
  | badChord (text : String)
  | notBasic (text : String)
  | unknown (text : String)
  deriving DecidableEq, Repr

namespace ExpressionError

/-- A text between single quotes. -/
def quoted (text : String) : String := "'" ++ text ++ "'"

def message : ExpressionError → String
  | badHex text => "Invalid hex keycode " ++ quoted text
  | oneArgument function => function ++ "(...) takes two arguments"
  | unknownFunction function => "Unknown function " ++ quoted function
  | badLayer text => "Invalid layer " ++ quoted text ++ "; use 0 to 15"
  | badChord text => "Invalid modifiers " ++ quoted text
  | notBasic text => quoted text ++ " is not a basic key"
  | unknown text => "Unknown keycode " ++ quoted text

end ExpressionError

open Text ExpressionError

/-! ## Reading -/

/-- The base of a named key that is basic and no modifier, with blanks around the name. -/
def parseBase (text : List Char) : Except ExpressionError UInt8 :=
  let name := trim text
  match ofName? name with
  | some keycode =>
    if keycode.isPlain then .ok keycode.base else .error (notBasic (String.ofList name))
  | none => .error (notBasic (String.ofList name))

/-- A layer from 0 to 15, with blanks around it. -/
def parseLayer (text : List Char) : Except ExpressionError UInt8 :=
  let numeral := trim text
  match readNumeral 10 0xff numeral with
  | .ok n => if n < 16 then .ok (UInt8.ofNat n) else .error (badLayer (String.ofList numeral))
  | .error _ => .error (badLayer (String.ofList numeral))

/-- A chord, with blanks around it. -/
def parseChord (text : List Char) : Except ExpressionError Chord :=
  let chord := trim text
  match Chord.read? chord with
  | some c => .ok c
  | none => .error (badChord (String.ofList chord))

/-- A function and its two arguments. -/
def parseCall (function : List Char) (first second : List Char) :
    Except ExpressionError Keycode :=
  let name := String.ofList (trim function)
  if name = "lt" then do
    let layer ← parseLayer first
    let base ← parseBase second
    return layerTap layer base
  else if name = "mt" then do
    let chord ← parseChord first
    let base ← parseBase second
    return modTap chord base
  else .error (unknownFunction name)

/-- The function and the arguments of a text of the form `f(args)`. -/
def call? (text : List Char) : Option (List Char × List Char) :=
  if text.getLast? = some ')' then splitFirst? '(' text.dropLast else none

/-- A chord and a basic key with a dash between them. -/
def composite? (text : List Char) : Option (Chord × List Char) :=
  (splitLast? '-' text).bind fun parts => (Chord.read? parts.1).map (·, parts.2)

/-- A text that is neither a code nor a name. -/
def parseCompound (text : List Char) : Except ExpressionError Keycode :=
  match call? text with
  | some (function, args) =>
    match splitFirst? ',' args with
    | some (first, second) => parseCall function first second
    | none => .error (oneArgument (String.ofList (trim function)))
  | none =>
    match composite? text with
    | some (chord, base) => (parseBase base).map (composite chord)
    | none => .error (unknown (String.ofList text))

/-- The digits of a code in hexadecimal. -/
def hexDigits? : List Char → Option (List Char)
  | '0' :: 'x' :: digits => some digits
  | _ => none

/-- A written key without blanks around it. -/
def parseTrimmed (text : List Char) : Except ExpressionError Keycode :=
  match hexDigits? text with
  | some digits =>
    match readNumeral 16 0xffff digits with
    | .ok n => .ok (UInt16.ofNat n)
    | .error _ => .error (badHex (String.ofList text))
  | none =>
    match ofName? text with
    | some keycode => .ok keycode
    | none => parseCompound text

/-- The key that a text stands for. -/
def parse (text : String) : Except ExpressionError Keycode := parseTrimmed (trim text.toList)

/-! ## Writing -/

/-- The first name of a key, or its code in hexadecimal. -/
def nameOrHex (keycode : Keycode) : List Char :=
  match firstName? keycode with
  | some name => name.toList
  | none => '0' :: 'x' :: hex 2 keycode.toNat

/-- The written form of a key. -/
def describeChars (keycode : Keycode) : List Char :=
  let base := nameOrHex keycode.base.toUInt16
  if keycode.isLayerTap then
    "lt(".toList ++ decimal keycode.layer.toNat ++ ", ".toList ++ base ++ [')']
  else if keycode.isModTap then
    "mt(".toList ++ Chord.write keycode.chord ++ ", ".toList ++ base ++ [')']
  else if keycode.isComposite then Chord.write keycode.chord ++ '-' :: base
  else nameOrHex keycode

def describe (keycode : Keycode) : String := String.ofList keycode.describeChars

end LongPress.Keycode
