import ScriptRecord.ItemType
import ScriptRecord.Text.Quoted
/-!
# Errors

What can go wrong with a record, its bytecode or an edit of its text, and the message for it.
-/

namespace ScriptRecord

/-- Where a stream ended too early. -/
inductive CutShort where
  /-- Inside the header or the fields of a record. -/
  | fields
  /-- Inside the stored payload. -/
  | payload
  deriving DecidableEq, Repr

def CutShort.message : CutShort → String
  | .fields => "failed to fill whole buffer"
  | .payload => "unexpected end of file"

inductive Error where
  | cutShort (cause : CutShort)
  /-- The payload stored at `offset` has another size than the record says. -/
  | decompressedLength (offset expected actual : Nat)
  /-- A codec produced another number of bytes than it was asked for. -/
  | decompressionSize (expected actual : Nat)
  /-- A codec refused its input. -/
  | compression (reason : String)
  | notScriptItem (type : ItemType)
  | unsupportedItemType (type : ItemType)
  /-- A record came out longer or shorter than predicted. -/
  | lengthMismatch (predicted written : Nat)
  /-- The bytes that a struct block must start with are missing. -/
  | structSentinel (offset : Nat) (found : List UInt8)
  /-- The new text of a slot has a character outside the charset. -/
  | invalidStringChar (index : Nat) (char : Char)
  /-- The new text of a slot takes another number of bytes than the slot. -/
  | stringWidth (index expected actual : Nat)
  /-- A slot reaches past the payload. -/
  | stringOutOfBounds (index pos length payloadSize : Nat)
  deriving DecidableEq, Repr

/-- How a caller is expected to react. -/
inductive ErrorKind where
  /-- The bytes of a record are malformed. -/
  | format
  /-- The bytecode cannot be listed. -/
  | decode
  /-- An edit was refused and changed nothing. -/
  | validation
  deriving DecidableEq, Repr

namespace Error

def kind : Error → ErrorKind
  | .structSentinel .. => .decode
  | .invalidStringChar .. | .stringWidth .. | .stringOutOfBounds .. => .validation
  | _ => .format

/-- Bytes in brackets, two digits each. -/
def bracketed (bytes : List UInt8) : String :=
  "[" ++ String.intercalate ", " (bytes.map fun b => Hex.upper 2 b.toNat) ++ "]"

def message : Error → String
  | .cutShort cause => "IO error: " ++ cause.message
  | .decompressedLength offset expected actual =>
    "Location 0x" ++ Hex.upper 8 offset ++ ": script decompressed to " ++ toString actual ++
      " bytes not " ++ toString expected
  | .decompressionSize expected actual =>
    "Decompression size mismatch: expected " ++ toString expected ++ ", got " ++ toString actual
  | .compression reason => "Compression error: " ++ reason
  | .notScriptItem type => "Item type " ++ type.name ++ " is not a script item type"
  | .unsupportedItemType type => "Unsupported item type " ++ type.name
  | .lengthMismatch predicted written =>
    "Length check failed: predicted " ++ toString predicted ++ " bytes, wrote " ++
      toString written
  | .structSentinel offset found =>
    "Invalid qb struct at 0x" ++ Hex.upper 4 offset ++ ": expected 01 00, got " ++
      bracketed found
  | .invalidStringChar index char =>
    "String " ++ toString index ++ ": character " ++ Text.quotedChar char ++ " is not allowed"
  | .stringWidth index expected actual =>
    "String " ++ toString index ++ ": encodes to " ++ toString actual ++ " bytes, slot holds " ++
      toString expected
  | .stringOutOfBounds index pos length payloadSize =>
    "String " ++ toString index ++ ": slot 0x" ++ Hex.upper 1 pos ++ "+" ++ toString length ++
      " is outside the " ++ toString payloadSize ++ " byte payload"

/-- The message, and what lies behind the error if that has a message of its own. -/
def chain : Error → List String
  | .cutShort cause => [message (.cutShort cause), cause.message]
  | error => [error.message]

end Error

end ScriptRecord
