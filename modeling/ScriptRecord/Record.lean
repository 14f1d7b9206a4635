import ScriptRecord.Codec
import ScriptRecord.Header
/-!
# Records

A script on a stream: header, an unknown word, the sizes of the payload and of its stored form, the
stored form, and zeros up to the next multiple of four. The stored form is the payload itself
unless the codec makes it smaller.

* `Record.read`: the record at a position, and the position after it. A reader that fails stands
  behind what it has taken, and at the end of a stream that is too short for it.
* `Record.toBytes`, `Record.write`: the bytes of a record, the latter checked against its
  predicted length.
-/

namespace ScriptRecord

/-- What comes of reading at a position of a stream, and the position afterwards. -/
abbrev ReadResult := EStateM.Result Error Nat

/-- A script as a stream holds it. -/
structure Record where
  header : Header
  /-- A word whose meaning is not known. -/
  unknown : UInt32
  payload : Bytes
  deriving DecidableEq

namespace Record

/-- Records end at multiples of this. -/
def alignment : Nat := 4

/-- The first multiple of the alignment at or after `n`. -/
def align (n : Nat) : Nat :=
  (n + (alignment - 1)) / alignment * alignment

/-- Bytes of the words between the header and the stored payload. -/
def fieldsSize : Nat := 12

/-- Bytes in front of the stored payload. -/
def frontSize : Nat := Header.size + fieldsSize

/-- Give an error about the size of a payload the place where the payload is stored. -/
def locate (offset size : Nat) : Error → Error
  | .decompressionSize _ actual => .decompressedLength offset size actual
  | error => error

/-- The payload that is stored at `offset` and has `size` bytes. Only a stored form with fewer
bytes goes through the codec. -/
def restore (codec : Codec) (stored : Bytes) (offset size : Nat) : Except Error Bytes := do
  let payload ←
    if stored.size < size then (codec.decompress stored size).mapError (locate offset size)
    else .ok stored
  if payload.size = size then .ok payload
  else .error (.decompressedLength offset size payload.size)

/-- Read what follows the header at `pos`. -/
def readBody (order : ByteOrder) (codec : Codec) (stream : Bytes) (pos : Nat) (header : Header) :
    ReadResult Record :=
  let fields := pos + Header.size
  match stream.word32? order fields, stream.word32? order (fields + 4),
      stream.word32? order (fields + 8) with
  | some unknown, some size, some storedSize =>
    let offset := pos + frontSize
    match stream.slice? offset storedSize.toNat with
    | some stored =>
      match restore codec stored offset size.toNat with
      | .ok payload => .ok ⟨header, unknown, payload⟩ (align (offset + stored.size))
      | .error error => .error error (offset + stored.size)
    | none => .error (.cutShort .payload) stream.size
  | _, _, _ => .error (.cutShort .fields) stream.size

/-- Read the record at `pos`. If the item there is no script, fail with `refuse` of its type. -/
def readOr (refuse : ItemType → Error) (order : ByteOrder) (codec : Codec) (stream : Bytes)
    (pos : Nat) : ReadResult Record :=
  match Header.read order stream pos with
  | .ok header =>
    if header.type.isScript then readBody order codec stream pos header
    else .error (refuse header.type) (pos + Header.size)
  | .error error => .error error stream.size

/-- Read the record at `pos`. -/
def read : ByteOrder → Codec → Bytes → Nat → ReadResult Record :=
  readOr .notScriptItem

/-- Read the item at `pos`, of whatever type. Scripts are the only supported one. -/
def readItem : ByteOrder → Codec → Bytes → Nat → ReadResult Record :=
  readOr .unsupportedItemType

/-- The stored form of the payload, `call` being the number of the call to the codec. -/
def stored (record : Record) (codec : Codec) (call : Nat) : Bytes :=
  let compressed := codec.compress call record.payload
  if compressed.size < record.payload.size then compressed else record.payload

/-- The bytes in front of a stored payload of `storedSize` bytes. -/
def front (record : Record) (order : ByteOrder) (storedSize : Nat) : List UInt8 :=
  record.header.toBytes order ++ order.bytes32 record.unknown ++
    order.bytes32 (UInt32.ofNat record.payload.size) ++ order.bytes32 (UInt32.ofNat storedSize)

/-- The bytes of a record. -/
def toBytes (record : Record) (order : ByteOrder) (codec : Codec) : Bytes :=
  let stored := record.stored codec 0
  let bytes := (record.front order stored.size).toArray ++ stored
  bytes ++ Array.replicate (align bytes.size - bytes.size) 0

/-- Number of bytes of a record, found without writing it. -/
def length (record : Record) (codec : Codec) (call : Nat) : Nat :=
  align (frontSize + min (codec.compress call record.payload).size record.payload.size)

/-- The bytes of a record, if their number is what another call to the codec predicts. -/
def write (record : Record) (order : ByteOrder) (codec : Codec) : Except Error Bytes :=
  let bytes := record.toBytes order codec
  let predicted := record.length codec 1
  if predicted = bytes.size then .ok bytes else .error (.lengthMismatch predicted bytes.size)

end Record

end ScriptRecord
