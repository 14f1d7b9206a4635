import ScriptRecord.Bytecode.Listing
import Mathlib.Data.Nat.Basic
/-!
# Programs as instructions

Bytecode before it is bytes: a list of instructions, each with an operand of the
form that its opcode calls for.  `assemble` gives the bytes of a program, and
`listFrom` its listing, without reading any byte of it again.
-/

namespace ScriptRecord.Proofs.Bytecode.Assembly

open ScriptRecord.Bytecode

/-- A complete operand of a given form.  Its bytes may be anything. -/
inductive Arg : Layout → Type where
  | none : Arg .none
  | hidden {count : Nat} (bytes : List UInt8) (length_eq : bytes.length = count) :
      Arg (.skip count)
  | key (k : Key) : Arg .key
  | integer (value : Int32) : Arg .integer
  | hex (word : UInt32) : Arg .hex
  | float (bits : UInt32) : Arg .float
  | vector2 (x y : UInt32) : Arg .vector2
  | vector3 (x y z : UInt32) : Arg .vector3
  /-- A negative length stands for no bytes. -/
  | string (length : Int32) (bytes : List UInt8) (length_eq : bytes.length = length.toInt.toNat) :
      Arg .string
  | wideString (length : Int32) (bytes : List UInt8)
      (length_eq : bytes.length = length.toInt.toNat) : Arg .wideString
  | jump (distance : UInt32) : Arg .jump
  /-- Weights with distances. -/
  | choices (branches : List (UInt16 × UInt32)) (length_lt : branches.length < UInt32.size) :
      Arg .choices
  /-- A struct image behind its length and a number of zeros. -/
  | struct (fill : Nat) (block : List UInt8) (headed : [0x00, 0x00, 0x01, 0x00] <+: block)
      (length_le : block.length ≤ 32767) : Arg .struct

/-- An opcode with its operand, or a byte that is no opcode. -/
inductive Instr where
  | known (op : Opcode) (arg : Arg op.layout)
  | unknown (byte : UInt8) (unassigned : Opcode.ofByte? byte = none)

/-! ## Bytes -/

def Arg.bytes {layout : Layout} : Arg layout → List UInt8
  | .none => []
  | .hidden bytes _ => bytes
  | .key k => ByteOrder.little.bytes32 k.checksum
  | .integer value => ByteOrder.little.bytes32 value.toUInt32
  | .hex word => ByteOrder.little.bytes32 word
  | .float bits => ByteOrder.little.bytes32 bits
  | .vector2 x y => [x, y].flatMap ByteOrder.little.bytes32
  | .vector3 x y z => [x, y, z].flatMap ByteOrder.little.bytes32
  | .string length bytes _ => ByteOrder.little.bytes32 length.toUInt32 ++ bytes
  | .wideString length bytes _ => ByteOrder.little.bytes32 length.toUInt32 ++ bytes
  | .jump distance => ByteOrder.little.bytes32 distance
  | .choices branches _ =>
    ByteOrder.little.bytes32 (UInt32.ofNat branches.length) ++
      (branches.flatMap (fun branch => ByteOrder.little.bytes16 branch.1) ++
        branches.flatMap (fun branch => ByteOrder.little.bytes32 branch.2))
  | .struct fill block _ _ =>
    ByteOrder.little.bytes16 (UInt16.ofNat block.length) ++ (List.replicate fill 0 ++ block)

def Instr.bytes : Instr → List UInt8
  | .known op arg => op.byte :: arg.bytes
  | .unknown byte _ => [byte]

/-- The bytes of a program. -/
def assemble (program : List Instr) : Bytes :=
  (program.flatMap Instr.bytes).toArray

/-! ## Text -/

/-- Where the distance of each branch of a choice leads from.  All weights stand in
front of all distances, and a distance counts from its own end. -/
def branchBase (offset count index : Nat) : Nat :=
  offset + 5 + 2 * count + 4 * index + 4

/-- The text of the operand of an opcode at `offset`, on a line whose text starts in
column `column`. -/
def Arg.text (data : Bytes) (names : Names) (offset column : Nat) {layout : Layout} :
    Arg layout → String
  | .none | .hidden .. => ""
  | .key k => names.resolve k
  | .integer value => toString value.toInt
  | .hex word => "0x" ++ Hex.upper 1 word.toNat
  | .float bits => FixedPoint.twoDecimals bits
  | .vector2 x y =>
    "(" ++ FixedPoint.twoDecimals x ++ ", " ++ FixedPoint.twoDecimals y ++ ")"
  | .vector3 x y z =>
    "(" ++ FixedPoint.twoDecimals x ++ ", " ++ FixedPoint.twoDecimals y ++ ", " ++
      FixedPoint.twoDecimals z ++ ")"
  | .string _ bytes _ =>
    String.ofList ('\'' :: Operand.untilPadding (Struct.asciiText bytes) ++ ['\''])
  | .wideString _ bytes _ =>
    String.ofList ('"' :: Operand.untilPadding (Utf16.decode (Struct.wideUnits bytes)) ++ ['"'])
  | .jump distance => Hex.upper 4 (offset + 5 + distance.toNat)
  | .choices branches _ =>
    let texts := branches.mapIdx fun index branch =>
      Hex.upper 4 (branchBase offset branches.length index + branch.2.toNat) ++ "#" ++
        toString branch.1.toNat
    "(" ++ String.intercalate ", " texts ++ ")"
  | .struct fill _ _ _ =>
    (Struct.Image.mk data (offset + 3 + fill) names).render
      (String.ofList (List.replicate (column + 1) ' '))

/-- The lines of a program that stands at `offset`, from the open line on.  An
instruction adds its fixed text, its operand and a space to the open line; a line
opcode opens the next line at the depth that the blocks so far give. -/
def listFrom (data : Bytes) (names : Names) (line : Line) (depth : Int32) (offset : Nat) :
    List Instr → String
  | [] => line.render
  | .unknown byte _ :: rest =>
    let token := "\x7b[UNKNOWN OPCODE " ++ Hex.upper 2 byte.toNat ++ "]\x7d"
    listFrom data names (line.append (token ++ " ")) depth (offset + 1) rest
  | .known op arg :: rest =>
    let next := offset + 1 + arg.bytes.length
    if op = .endOfLine then
      line.render ++ listFrom data names ⟨some offset, depth.toNatClampNeg, " "⟩ depth next rest
    else
      let line := if op.outdents then line.outdent else line
      let text := op.text ++ arg.text data names offset line.textColumn
      listFrom data names (line.append (text ++ " ")) (depth + Int32.ofInt op.depthChange) next rest

/-- The listing of a program, without the spaces and line breaks around it. -/
def listing (program : List Instr) (names : Names) : String :=
  let text := listFrom (assemble program) names ⟨none, 0, ""⟩ 0 0 program
  String.ofList (Text.trimBy Listing.isMargin text.toList)

end ScriptRecord.Proofs.Bytecode.Assembly
