import ScriptRecord.ByteOrder
import ScriptRecord.Charset
/-!
# Containers

What has to be known about the container of a script record: the platform it was built for, its
byte order and the characters of its texts.
-/

namespace ScriptRecord

/-- The platform that a container was built for. -/
inductive Platform where
  | wii
  | pc
  | xbox
  | xboxXbx
  | ps2
  | pcWpc
  deriving DecidableEq, Repr

namespace Platform

def all : List Platform := [.wii, .pc, .xbox, .xboxXbx, .ps2, .pcWpc]

def name : Platform → String
  | .wii => "wii"
  | .pc => "pc"
  | .xbox => "xbox"
  | .xboxXbx => "xbox_xbx"
  | .ps2 => "ps2"
  | .pcWpc => "pc_wpc"

/-- The byte order that containers of a platform usually have. -/
def usualOrder : Platform → ByteOrder
  | .ps2 | .pcWpc => .little
  | .wii | .pc | .xbox | .xboxXbx => .big

/-- Whether scripts of a platform may hold two-byte text. -/
def allowsWide : Platform → Bool
  | .pc | .xbox => true
  | _ => false

/-- The platform with exactly this name. -/
def ofName? (name : String) : Option Platform :=
  all.find? fun platform => platform.name = name

/-- Read a platform in any case, with hyphens for underscores. -/
def parse? (text : String) : Option Platform :=
  ofName? (text.toLower.map fun c => if c = '-' then '_' else c)

/-- What is said about a word that names no platform. -/
def unknownMessage (text : String) : String :=
  "unknown platform '" ++ text ++ "'"

end Platform

namespace ByteOrder

/-- The byte order with exactly this name. -/
def ofName? (name : String) : Option ByteOrder :=
  all.find? fun order => order.name = name

/-- Read a byte order in any case, by its name or its two letters. -/
def parse? (text : String) : Option ByteOrder :=
  match text.toLower with
  | "be" => some .big
  | "le" => some .little
  | lower => ofName? lower

/-- What is said about a word that names no byte order. -/
def unknownMessage (text : String) : String :=
  "unknown endianness '" ++ text ++ "'"

end ByteOrder

/-- The settings of a container. -/
structure Container where
  platform : Platform
  order : ByteOrder
  charset : Charset
  deriving DecidableEq

namespace Container

/-- A container as a platform usually has it, with the standard characters. -/
def ofPlatform (platform : Platform) : Container :=
  ⟨platform, platform.usualOrder, .standard⟩

/-- The container that is assumed where nothing is said. -/
def standard : Container := ofPlatform .pc

instance : Inhabited Container := ⟨standard⟩

def allowsWide (container : Container) : Bool :=
  container.platform.allowsWide

end Container

end ScriptRecord
