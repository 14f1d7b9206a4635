import ScriptRecord.Bytes
/-!
# Byte order

Words of two and four bytes, read and written with either end first.
-/

namespace ScriptRecord

/-- Which end of a word comes first. -/
inductive ByteOrder where
  | big
  | little
  deriving DecidableEq, Repr

namespace ByteOrder

/-- The name a byte order has in settings. -/
def name : ByteOrder → String
  | .big => "big"
  | .little => "little"

/-- The name a byte order has in reports. -/
def title : ByteOrder → String
  | .big => "Big"
  | .little => "Little"

def all : List ByteOrder := [.big, .little]

/-- The two-byte word with these bytes, in reading order. -/
def word16 (order : ByteOrder) (a b : UInt8) : UInt16 :=
  match order with
  | .big => UInt16.ofNat (a.toNat * 256 + b.toNat)
  | .little => UInt16.ofNat (b.toNat * 256 + a.toNat)

/-- The four-byte word with these bytes, in reading order. -/
def word32 (order : ByteOrder) (a b c d : UInt8) : UInt32 :=
  match order with
  | .big => UInt32.ofNat (((a.toNat * 256 + b.toNat) * 256 + c.toNat) * 256 + d.toNat)
  | .little => UInt32.ofNat (((d.toNat * 256 + c.toNat) * 256 + b.toNat) * 256 + a.toNat)

def lowBytes (n : Nat) : Nat → List UInt8
  | 0 => []
  | width + 1 => UInt8.ofNat (n % 256) :: lowBytes (n / 256) width

/-- The `width` low bytes of `n`. -/
def bytesOf (order : ByteOrder) (width n : Nat) : List UInt8 :=
  match order with
  | .big => (lowBytes n width).reverse
  | .little => lowBytes n width

/-- The bytes of a two-byte word. -/
def bytes16 (order : ByteOrder) (word : UInt16) : List UInt8 :=
  order.bytesOf 2 word.toNat

/-- The bytes of a four-byte word. -/
def bytes32 (order : ByteOrder) (word : UInt32) : List UInt8 :=
  order.bytesOf 4 word.toNat

end ByteOrder

namespace Bytes

/-- The two-byte word at `pos`, if it is all there. -/
def word16? (data : Bytes) (order : ByteOrder) (pos : Nat) : Option UInt16 :=
  if h : pos + 2 ≤ data.size then
    some (order.word16 data[pos] data[pos + 1])
  else none

/-- The four-byte word at `pos`, if it is all there. -/
def word32? (data : Bytes) (order : ByteOrder) (pos : Nat) : Option UInt32 :=
  if h : pos + 4 ≤ data.size then
    some (order.word32 data[pos] data[pos + 1] data[pos + 2] data[pos + 3])
  else none

end Bytes

end ScriptRecord
