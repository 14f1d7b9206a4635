import ScriptRecord.Bytecode.Opcode
import ScriptRecord.ByteOrder
import ScriptRecord.Key
/-!
# Instructions

A payload as a sequence of instructions: an opcode with its operand, or a byte that is no opcode.
Operands have the low byte first.

* `Instruction.read`: the instruction at a position, and how long its operand is.
* `Program.scan`: the instructions of a payload in order, and why the sequence ends.
-/

namespace ScriptRecord.Bytecode

/-- What an opcode is applied to. -/
inductive Operand where
  | none
  /-- Bytes that a listing does not show. -/
  | hidden
  | key (key : Key)
  | integer (word : UInt32)
  | hex (word : UInt32)
  | float (bits : UInt32)
  | vector (parts : List UInt32)
  | string (bytes : List UInt8)
  | wideString (bytes : List UInt8)
  | jump (target : Nat)
  /-- Targets, each with its weight. -/
  | choices (targets : List (Nat × UInt16))
  /-- A struct image with its header at this position. -/
  | struct (start : Nat)
  deriving DecidableEq, Repr

/-- Why an operand cannot be read. -/
inductive Operand.Fault where
  /-- It reaches past the payload. -/
  | truncated
  /-- These bytes stand where a struct image must start. -/
  | noStruct (pos : Nat) (found : List UInt8)
  deriving DecidableEq, Repr

namespace Operand

/-- An operand and the number of bytes it takes, or what is wrong with it. -/
abbrev Result := Except Fault (Operand × Nat)

/-- An operand that takes `size` bytes, if it is there. -/
def sized (size : Nat) : Option Operand → Result
  | some operand => .ok (operand, size)
  | .none => .error .truncated

/-- A length in front of a text; a negative one counts as zero. -/
def length (word : UInt32) : Nat :=
  word.toInt32.toInt.toNat

/-- The bytes of a text, after their number. -/
def readText (data : Bytes) (pos : Nat) (make : List UInt8 → Operand) : Result :=
  match data.word32? .little pos with
  | .none => .error .truncated
  | some word =>
    sized (4 + length word) <| (data.slice? (pos + 4) (length word)).map fun bytes =>
      make bytes.toList

/-- The numbers of a vector. -/
def readVector (data : Bytes) (pos count : Nat) : Result :=
  sized (4 * count) <| ((List.range count).mapM fun i => data.word32? .little (pos + 4 * i)).map
    .vector

/-- The targets of a choice and their weights. All weights stand in front of all targets. -/
def choiceTargets (data : Bytes) (pos count : Nat) : Option (List (Nat × UInt16)) :=
  (List.range count).mapM fun i => do
    let weight ← data.word16? .little (pos + 2 * i)
    let field := pos + 2 * count + 4 * i
    let distance ← data.word32? .little field
    return (distance.toNat + (field + 4), weight)

/-- A choice between targets. -/
def readChoices (data : Bytes) (pos : Nat) : Result :=
  match data.word32? .little pos with
  | .none => .error .truncated
  | some count =>
    if data.size - (pos + 4) < count.toNat * 6 then .error .truncated
    else sized (4 + count.toNat * 6) ((choiceTargets data (pos + 4) count.toNat).map .choices)

/-- A struct image behind its length and any number of zeros. The image starts two bytes before
the `01 00` that ends its header word; its length counts from there, but never back before the
end of that word. -/
def readStruct (data : Bytes) (pos : Nat) : Result :=
  match data.word16? .little pos with
  | .none => .error (.noStruct data.size [])
  | some word =>
    let sentinel := data.seek (· != 0) (pos + 2)
    let found := (data.extract sentinel (sentinel + 2)).toList
    if found = [0x01, 0x00] then
      let start := sentinel - 2
      let beyond := ((start : Int) + word.toInt16.toInt - (sentinel + 2 : Nat)).toNat
      .ok (.struct start, sentinel + 2 + beyond - pos)
    else .error (.noStruct sentinel found)

/-- Read the operand at `pos` of the opcode just before it. -/
def read (data : Bytes) (pos : Nat) : Layout → Result
  | .none => .ok (.none, 0)
  | .skip count => sized count ((data.slice? pos count).map fun _ => .hidden)
  | .key => sized 4 ((data.word32? .little pos).map fun word => .key ⟨word⟩)
  | .integer => sized 4 ((data.word32? .little pos).map .integer)
  | .hex => sized 4 ((data.word32? .little pos).map .hex)
  | .float => sized 4 ((data.word32? .little pos).map .float)
  | .vector2 => readVector data pos 2
  | .vector3 => readVector data pos 3
  | .string => readText data pos .string
  | .wideString => readText data pos .wideString
  | .jump =>
    sized 4 ((data.word32? .little pos).map fun distance => .jump (distance.toNat + (pos + 4)))
  | .choices => readChoices data pos
  | .struct => readStruct data pos

end Operand

/-- An opcode with its operand, or a byte that is no opcode. -/
inductive Action where
  | known (op : Opcode) (operand : Operand)
  | unknown (byte : UInt8)
  deriving DecidableEq, Repr

/-- What stands at a position of a payload. -/
structure Instruction where
  offset : Nat
  action : Action
  deriving DecidableEq, Repr

/-- Why a sequence of instructions ends. -/
inductive Ending where
  /-- The payload is used up. -/
  | complete
  /-- The operand of this opcode reaches past the payload. -/
  | truncated (offset : Nat) (op : Opcode)
  /-- These bytes stand where a struct image must start. -/
  | noStruct (pos : Nat) (found : List UInt8)
  deriving DecidableEq, Repr

/-- Read the instruction at `pos`, whose first byte is `byte`: its action and the number of bytes
that follow its first. -/
def Instruction.read (data : Bytes) (pos : Nat) (byte : UInt8) : Except Ending (Action × Nat) :=
  match Opcode.ofByte? byte with
  | none => .ok (.unknown byte, 0)
  | some op =>
    match Operand.read data (pos + 1) op.layout with
    | .ok (operand, size) => .ok (.known op operand, size)
    | .error .truncated => .error (.truncated pos op)
    | .error (.noStruct pos found) => .error (.noStruct pos found)

/-- The instructions of a payload in order, and why they end. -/
structure Program where
  instructions : Array Instruction
  ending : Ending

namespace Program

/-- The instructions from `pos` on, after those in `done`. -/
def scanFrom (data : Bytes) (pos : Nat) (done : Array Instruction) : Program :=
  if h : pos < data.size then
    match Instruction.read data pos data[pos] with
    | .ok (action, size) => scanFrom data (pos + 1 + size) (done.push ⟨pos, action⟩)
    | .error ending => ⟨done, ending⟩
  else ⟨done, .complete⟩
termination_by data.size - pos

/-- Read a payload as instructions. -/
def scan (data : Bytes) : Program :=
  scanFrom data 0 #[]

end Program

end ScriptRecord.Bytecode
