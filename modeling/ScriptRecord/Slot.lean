import ScriptRecord.Slot.Run
import ScriptRecord.Text.Windows1252
/-!
# Text slots

The texts of a payload, each in a slot of fixed width. A new text is padded with spaces or cut so
that it fits its slot.
-/

namespace ScriptRecord

/-- A text in a payload. -/
structure Slot where
  text : String
  /-- Where the slot lies in the payload. -/
  pos : Nat
  /-- Number of characters the slot has room for. -/
  length : Nat
  /-- Whether a character takes two bytes. -/
  wide : Bool
  deriving DecidableEq, Repr

namespace Slot

/-- Bytes of one character. -/
def charWidth (slot : Slot) : Nat :=
  if slot.wide then 2 else 1

/-- Bytes of the slot. -/
def byteLength (slot : Slot) : Nat :=
  slot.length * slot.charWidth

/-- The characters of the text with spaces after them, cut to the length of the slot. -/
def fitted (slot : Slot) : List Char :=
  (slot.text.toList ++ List.replicate slot.length ' ').take slot.length

/-- The text as it fits the slot. -/
def fittedText (slot : Slot) : String :=
  String.ofList slot.fitted

/-- Pairs of bytes as code units. -/
def units (order : ByteOrder) : List UInt8 → List UInt16
  | a :: b :: rest => order.word16 a b :: units order rest
  | _ => []

/-- The text of some bytes. -/
def decode (order : ByteOrder) (wide : Bool) (bytes : List UInt8) : List Char :=
  if wide then Utf16.decode (units order bytes) else Windows1252.decode bytes

/-- The bytes of a text; none if one-byte text has a character without a byte. -/
def encode? (order : ByteOrder) (wide : Bool) (text : List Char) : Option (List UInt8) :=
  if wide then some ((Utf16.encode text).flatMap order.bytes16) else Windows1252.encode? text

/-- The slot of a run. -/
def ofRun (order : ByteOrder) (data : Bytes) (run : Run) : Slot :=
  let text := decode order run.wide (data.extract run.start run.stop).toList
  let length := if run.wide then (Utf16.encode text).length else text.length
  ⟨String.ofList text, run.start, length, run.wide⟩

/-- The slots of a payload, in order. -/
def extract (container : Container) (payload : Bytes) : List Slot :=
  ((runs container payload).map (ofRun container.order payload)).toList

end Slot

end ScriptRecord
