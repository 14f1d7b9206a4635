/-!
# Value types

The types that values have in items, struct entries and arrays. Each type has one code, which the
tags of entries and of arrays carry in different places.
-/

namespace ScriptRecord

/-- The type of a value in a struct. -/
inductive ValueType where
  | integer
  | float
  | string
  | wString
  | vector2
  | vector3
  | struct
  | array
  | key
  | keyRef
  | strPtr
  | strQs
  deriving DecidableEq, Repr

namespace ValueType

def all : List ValueType :=
  [.integer, .float, .string, .wString, .vector2, .vector3, .struct, .array, .key, .keyRef,
    .strPtr, .strQs]

/-- The code of a type inside tags. -/
def code : ValueType → Nat
  | .integer => 0x01
  | .float => 0x02
  | .string => 0x03
  | .wString => 0x04
  | .vector2 => 0x05
  | .vector3 => 0x06
  | .struct => 0x0A
  | .array => 0x0C
  | .key => 0x0D
  | .keyRef => 0x1A
  | .strPtr => 0x1B
  | .strQs => 0x1C

/-- The word a type has in listings. -/
def name : ValueType → String
  | .integer => "int"
  | .float => "float"
  | .string => "string"
  | .wString => "wstring"
  | .vector2 => "vector2"
  | .vector3 => "vector3"
  | .struct => "struct"
  | .array => "array"
  | .key => "qbkey"
  | .keyRef => "qbkeyref"
  | .strPtr => "strptr"
  | .strQs => "strqs"

/-- The tag of a struct entry with a value of this type. -/
def entryTag (type : ValueType) : UInt32 :=
  UInt32.ofNat ((0x80 + type.code) * 0x10000)

/-- The tag of an array with elements of this type. -/
def elementTag (type : ValueType) : UInt32 :=
  UInt32.ofNat (0x10000 + type.code * 0x100)

/-- The type of the value of an entry with this tag. -/
def ofEntryTag? (tag : UInt32) : Option ValueType :=
  all.find? fun type => type.entryTag = tag

/-- The type of the elements of an array with this tag. -/
def ofElementTag? (tag : UInt32) : Option ValueType :=
  all.find? fun type => type.elementTag = tag

end ValueType

end ScriptRecord
