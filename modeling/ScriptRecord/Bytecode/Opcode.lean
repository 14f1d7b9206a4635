/-!
# Opcodes

The instructions of script bytecode: the byte of each, its fixed text in a listing, what follows
it in the stream, and what it does to the indentation of the listing.
-/

namespace ScriptRecord.Bytecode

/-- An instruction of script bytecode. -/
inductive Opcode where
  | endOfLine
  | startMap
  | endMap
  | startArray
  | endArray
  | equals
  | dot
  | comma
  | minus
  | add
  | divide
  | multiply
  | openParen
  | closeParen
  | lessThan
  | lessThanEqual
  | greaterThan
  | greaterThanEqual
  | key
  | integer
  | hexInteger
  | float
  | string
  | vector3
  | vector2
  | beginLoop
  | repeatLoop
  | breakLoop
  | script
  | endScript
  | elseIf
  | endIf
  | returnValue
  | allArgs
  | localName
  | goto
  | random
  | randomRange
  | atSign
  | logicalOr
  | logicalAnd
  | logicalXor
  | random2
  | randomRange2
  | logicalNot
  | switch
  | endSwitch
  | caseLabel
  | defaultLabel
  | randomNoRepeat
  | randomPermute
  | colon
  | useHeap
  | shortIf
  | shortElse
  | shortJump
  | struct
  | pointer
  | wideString
  | notEqual
  deriving DecidableEq, Repr

/-- What follows the byte of an opcode. -/
inductive Layout where
  | none
  /-- Bytes that a listing does not show. -/
  | skip (count : Nat)
  /-- A key. -/
  | key
  /-- A signed number. -/
  | integer
  /-- A number that is listed in hexadecimal. -/
  | hex
  | float
  | vector2
  | vector3
  /-- A length in bytes and a text of bytes. -/
  | string
  /-- A length in bytes and a text of two-byte units, high byte first. -/
  | wideString
  /-- A distance from the end of the operand. -/
  | jump
  /-- A count, that many weights, and as many distances, each from the end of its own field. -/
  | choices
  /-- A length and a struct image. -/
  | struct
  deriving DecidableEq, Repr

namespace Opcode

def all : List Opcode :=
  [.endOfLine, .startMap, .endMap, .startArray, .endArray, .equals, .dot, .comma, .minus, .add,
    .divide, .multiply, .openParen, .closeParen, .lessThan, .lessThanEqual, .greaterThan,
    .greaterThanEqual, .key, .integer, .hexInteger, .float, .string, .vector3, .vector2,
    .beginLoop, .repeatLoop, .breakLoop, .script, .endScript, .elseIf, .endIf, .returnValue,
    .allArgs, .localName, .goto, .random, .randomRange, .atSign, .logicalOr, .logicalAnd,
    .logicalXor, .random2, .randomRange2, .logicalNot, .switch, .endSwitch, .caseLabel,
    .defaultLabel, .randomNoRepeat, .randomPermute, .colon, .useHeap, .shortIf, .shortElse,
    .shortJump, .struct, .pointer, .wideString, .notEqual]

/-- The byte of an opcode in the stream. -/
def byte : Opcode → UInt8
  | .endOfLine => 0x01
  | .startMap => 0x03
  | .endMap => 0x04
  | .startArray => 0x05
  | .endArray => 0x06
  | .equals => 0x07
  | .dot => 0x08
  | .comma => 0x09
  | .minus => 0x0A
  | .add => 0x0B
  | .divide => 0x0C
  | .multiply => 0x0D
  | .openParen => 0x0E
  | .closeParen => 0x0F
  | .lessThan => 0x12
  | .lessThanEqual => 0x13
  | .greaterThan => 0x14
  | .greaterThanEqual => 0x15
  | .key => 0x16
  | .integer => 0x17
  | .hexInteger => 0x18
  | .float => 0x1A
  | .string => 0x1B
  | .vector3 => 0x1E
  | .vector2 => 0x1F
  | .beginLoop => 0x20
  | .repeatLoop => 0x21
  | .breakLoop => 0x22
  | .script => 0x23
  | .endScript => 0x24
  | .elseIf => 0x27
  | .endIf => 0x28
  | .returnValue => 0x29
  | .allArgs => 0x2C
  | .localName => 0x2D
  | .goto => 0x2E
  | .random => 0x2F
  | .randomRange => 0x30
  | .atSign => 0x31
  | .logicalOr => 0x32
  | .logicalAnd => 0x33
  | .logicalXor => 0x34
  | .random2 => 0x37
  | .randomRange2 => 0x38
  | .logicalNot => 0x39
  | .switch => 0x3C
  | .endSwitch => 0x3D
  | .caseLabel => 0x3E
  | .defaultLabel => 0x3F
  | .randomNoRepeat => 0x40
  | .randomPermute => 0x41
  | .colon => 0x42
  | .useHeap => 0x45
  | .shortIf => 0x47
  | .shortElse => 0x48
  | .shortJump => 0x49
  | .struct => 0x4A
  | .pointer => 0x4B
  | .wideString => 0x4C
  | .notEqual => 0x4D

/-- The opcode with this byte. Bytes without one are listed as unknown. -/
def ofByte? (byte : UInt8) : Option Opcode :=
  all.find? fun op => op.byte = byte

theorem ofByte?_byte (op : Opcode) : ofByte? op.byte = some op := by
  cases op <;> decide

/-- The word for an opcode in tables. -/
def name : Opcode → String
  | .endOfLine => "EndOfLine"
  | .startMap => "StartMap"
  | .endMap => "EndMap"
  | .startArray => "StartArray"
  | .endArray => "EndArray"
  | .equals => "Equals"
  | .dot => "Dot"
  | .comma => "Comma"
  | .minus => "Minus"
  | .add => "Add"
  | .divide => "Divide"
  | .multiply => "Multiply"
  | .openParen => "OpenParen"
  | .closeParen => "CloseParen"
  | .lessThan => "LessThan"
  | .lessThanEqual => "LessThanEqual"
  | .greaterThan => "GreaterThan"
  | .greaterThanEqual => "GreaterThanEqual"
  | .key => "QbKey"
  | .integer => "Integer"
  | .hexInteger => "HexInteger"
  | .float => "Float"
  | .string => "String"
  | .vector3 => "Vector3"
  | .vector2 => "Vector2"
  | .beginLoop => "Begin"
  | .repeatLoop => "Repeat"
  | .breakLoop => "Break"
  | .script => "Script"
  | .endScript => "EndScript"
  | .elseIf => "ElseIf"
  | .endIf => "EndIf"
  | .returnValue => "Return"
  | .allArgs => "AllArgs"
  | .localName => "Local"
  | .goto => "Goto"
  | .random => "Random"
  | .randomRange => "RandomRange"
  | .atSign => "At"
  | .logicalOr => "Or"
  | .logicalAnd => "And"
  | .logicalXor => "Xor"
  | .random2 => "Random2"
  | .randomRange2 => "RandomRange2"
  | .logicalNot => "Not"
  | .switch => "Switch"
  | .endSwitch => "EndSwitch"
  | .caseLabel => "Case"
  | .defaultLabel => "Default"
  | .randomNoRepeat => "RandomNoRepeat"
  | .randomPermute => "RandomPermute"
  | .colon => "Colon"
  | .useHeap => "UseHeap"
  | .shortIf => "ShortIf"
  | .shortElse => "ShortElse"
  | .shortJump => "ShortJump"
  | .struct => "Struct"
  | .pointer => "Pointer"
  | .wideString => "WideString"
  | .notEqual => "NotEqual"

/-- The text that a listing shows before any operand. -/
def text : Opcode → String
  | .startMap => "(map) \x7b "
  | .endMap => " \x7d"
  | .startArray => "["
  | .endArray => "]"
  | .equals => " = "
  | .dot => "."
  | .comma => ", "
  | .minus => " - "
  | .add => " + "
  | .divide => " / "
  | .multiply => " * "
  | .openParen => "("
  | .closeParen => ")"
  | .lessThan => " < "
  | .lessThanEqual => " <= "
  | .greaterThan => " > "
  | .greaterThanEqual => " >= "
  | .beginLoop => "begin"
  | .repeatLoop => "repeat"
  | .breakLoop => "break"
  | .script => "script"
  | .endScript => "endscript"
  | .elseIf => "elseif"
  | .endIf => "endif"
  | .returnValue => "return "
  | .allArgs => "<...>"
  | .localName => "local "
  | .goto => "goto "
  | .random => "random "
  | .randomRange => "randomrange "
  | .atSign => "@"
  | .logicalOr => " || "
  | .logicalAnd => " && "
  | .logicalXor => " ^ "
  | .random2 => "random2 "
  | .randomRange2 => "randomrange2 "
  | .logicalNot => "!"
  | .switch => "switch "
  | .endSwitch => "endswitch"
  | .caseLabel => "case "
  | .defaultLabel => "default:"
  | .randomNoRepeat => "randomnorepeat "
  | .randomPermute => "randompermute "
  | .colon => ":"
  | .useHeap => "useheap "
  | .shortIf => "if "
  | .shortElse => "else"
  | .pointer => "*"
  | .notEqual => " != "
  | _ => ""

/-- What follows an opcode. -/
def layout : Opcode → Layout
  | .key => .key
  | .integer => .integer
  | .hexInteger => .hex
  | .float => .float
  | .string => .string
  | .vector3 => .vector3
  | .vector2 => .vector2
  | .elseIf => .skip 4
  | .goto => .jump
  | .random => .choices
  | .shortIf => .skip 2
  | .shortElse => .skip 2
  | .shortJump => .skip 2
  | .struct => .struct
  | .wideString => .wideString
  | _ => .none

/-- How many levels deeper the lines after an opcode lie. -/
def depthChange : Opcode → Int
  | .startMap | .beginLoop | .script | .shortIf => 1
  | .endMap | .repeatLoop | .endScript | .endIf => -1
  | .switch => 2
  | .endSwitch => -2
  | _ => 0

/-- Whether an opcode closes or splits a block, and so stands one level left of the block's
body. -/
def outdents : Opcode → Bool
  | .repeatLoop | .endScript | .elseIf | .endIf | .endSwitch | .caseLabel | .defaultLabel
  | .shortElse => true
  | _ => false

end Opcode

end ScriptRecord.Bytecode
