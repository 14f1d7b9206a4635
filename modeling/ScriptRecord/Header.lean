import ScriptRecord.ByteOrder
import ScriptRecord.Error
import ScriptRecord.Key
/-!
# Item headers

Every item starts with its tag, its key and the key of its file, one word each.
-/

namespace ScriptRecord

structure Header where
  type : ItemType
  /-- The name of the item. -/
  itemKey : Key
  /-- The name of the file that holds the item. -/
  fileKey : Key
  deriving DecidableEq, Repr

namespace Header

/-- Bytes of a header. -/
def size : Nat := 12

/-- The header of an item without names. -/
def ofType (type : ItemType) : Header := ⟨type, ⟨0⟩, ⟨0⟩⟩

/-- The bytes of a header. -/
def toBytes (order : ByteOrder) (header : Header) : List UInt8 :=
  order.bytes32 header.type.tag ++ order.bytes32 header.itemKey.checksum ++
    order.bytes32 header.fileKey.checksum

/-- Read the header at a position of a stream. -/
def read (order : ByteOrder) (stream : Bytes) (pos : Nat) : Except Error Header :=
  match stream.word32? order pos, stream.word32? order (pos + 4), stream.word32? order (pos + 8) with
  | some tag, some item, some file => .ok ⟨.ofTag tag, ⟨item⟩, ⟨file⟩⟩
  | _, _, _ => .error (.cutShort .fields)

end Header

end ScriptRecord
