import LongPress.Settings.Config
import LongPress.Settings.Live

/-!
# LongPress.Settings.Image

Images of settings: how a configuration is written as words and read back, and how words are kept
as bytes.

A written image has the version, the number of pairs, and a pair of slot and word for every slot
that is assigned, in the order of the slots. In a byte string every word has two bytes, the lower
one first.
-/

namespace LongPress

/-- What is wrong with an image. -/
inductive ImageError where
  | empty
  | badVersion (version : UInt16)
  | truncated
  /-- There are more or fewer words than the number of pairs says. -/
  | badLength
  | unknownSlot (index : UInt16)
  /-- A byte string that is not made of whole words. -/
  | oddBytes
  deriving DecidableEq, Repr

def ImageError.message : ImageError → String
  | empty => "Empty settings image"
  | badVersion version =>
    "Settings image version " ++ Nat.repr version.toNat ++ " is not " ++
      Nat.repr imageVersion.toNat
  | truncated => "Settings image truncated"
  | badLength => "Settings image length does not match its pair count"
  | unknownSlot index => "Unknown global index " ++ Nat.repr index.toNat
  | oddBytes => "Settings image has an odd number of bytes"

/-! ## Words -/

namespace Config

/-- The slots that are assigned, in order. -/
def assignedSlots (c : Config) : List Slot :=
  (List.finRange 5).filter fun (slot : Slot) => slot.get c.assigned

/-- The pairs of an image. -/
def pairs (c : Config) : List UInt16 := c.assignedSlots.flatMap fun s => [s.index, s.get c.values]

/-- Writes the image of a configuration. -/
def encode (c : Config) : List UInt16 :=
  imageVersion :: UInt16.ofNat c.assignedSlots.length :: c.pairs

/-- Assigns what the pairs say, one after the other. -/
def decodePairs : List UInt16 → Config → Except ImageError Config
  | index :: word :: rest, c =>
    match Slot.ofIndex? index with
    | some slot => decodePairs rest (c.setSlot slot word)
    | none => .error (.unknownSlot index)
  | _, c => .ok c

/-- Reads the configuration of an image. -/
def decode : List UInt16 → Except ImageError Config
  | [] => .error .empty
  | version :: rest =>
    if version = imageVersion then
      match rest with
      | [] => .error .truncated
      | count :: pairs =>
        if pairs.length = 2 * count.toNat then decodePairs pairs {} else .error .badLength
    else .error (.badVersion version)

end Config

/-! ## Bytes -/

namespace Image

/-- The bytes of words, the lower byte of each first. -/
def toBytes (words : List UInt16) : List UInt8 :=
  words.flatMap fun (w : UInt16) => [w.toUInt8, (w >>> 8).toUInt8]

/-- The word of two bytes. -/
def wordOfBytes (low high : UInt8) : UInt16 := low.toUInt16 ||| (high.toUInt16 <<< (8 : UInt16))

/-- The words of a byte string. -/
def ofBytes : List UInt8 → Except ImageError (List UInt16)
  | [] => .ok []
  | [_] => .error .oddBytes
  | low :: high :: rest => (ofBytes rest).map (wordOfBytes low high :: ·)

end Image

end LongPress
