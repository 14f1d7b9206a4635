import ScriptRecord.Text.Hex
import ScriptRecord.ValueType
/-!
# Item types

The tag in front of an item says what kind of item it is. The tags of sections are known; every
other tag is kept as it is.
-/

namespace ScriptRecord

/-- What an item holds. -/
inductive ItemType where
  /-- A script. -/
  | script
  /-- A value of its own. -/
  | value (type : ValueType)
  /-- An item with a tag of no known kind. -/
  | other (tag : UInt32)
  deriving DecidableEq, Repr

namespace ItemType

/-- The tag of a section with this code. -/
def sectionTag (code : Nat) : UInt32 :=
  UInt32.ofNat (0x200000 + code * 0x100)

/-- The tag of a script. -/
def scriptTag : UInt32 := sectionTag 0x0E

/-- The kind of item that a tag says. -/
def ofTag (tag : UInt32) : ItemType :=
  if tag = scriptTag then .script
  else
    match ValueType.all.find? fun type => sectionTag type.code = tag with
    | some type => .value type
    | none => .other tag

/-- The tag of an item. -/
def tag : ItemType → UInt32
  | .script => scriptTag
  | .value type => sectionTag type.code
  | .other tag => tag

def isScript (type : ItemType) : Bool :=
  type = .script

/-- The word that a section has in reports. -/
def valueName : ValueType → String
  | .integer => "SectionInteger"
  | .float => "SectionFloat"
  | .string => "SectionString"
  | .wString => "SectionStringW"
  | .vector2 => "SectionFloatsX2"
  | .vector3 => "SectionFloatsX3"
  | .struct => "SectionStruct"
  | .array => "SectionArray"
  | .key => "SectionQbKey"
  | .keyRef => "SectionQbKeyString"
  | .strPtr => "SectionStringPointer"
  | .strQs => "SectionQbKeyStringQs"

/-- The word that an item type has in reports: its name, or its tag. -/
def name : ItemType → String
  | .script => "SectionScript"
  | .value type => valueName type
  | .other tag => "0x" ++ Hex.upper 8 tag.toNat

end ItemType

end ScriptRecord
