import ScriptRecord.Proofs.Bytecode.Assembly
import ScriptRecord.Proofs.BytesAt
/-!
# Operands are read to their last byte

For each form of operand: the reader finds the operand in the bytes that were
written for it, and takes exactly these bytes (`read_arg`).  Only the bytes of the
operand itself matter, so nothing in them can be taken for the next instruction.
-/

namespace ScriptRecord.Proofs.Bytecode.OperandReading

open ScriptRecord.Bytecode
open ScriptRecord.Proofs.Bytecode.Assembly
open ScriptRecord.Proofs.BytesAt

/-- The operand that stands behind an opcode at `offset`. -/
def operandAt (offset : Nat) {layout : Layout} : Arg layout → Operand
  | .none => .none
  | .hidden .. => .hidden
  | .key k => .key k
  | .integer value => .integer value.toUInt32
  | .hex word => .hex word
  | .float bits => .float bits
  | .vector2 x y => .vector [x, y]
  | .vector3 x y z => .vector [x, y, z]
  | .string _ bytes _ => .string bytes
  | .wideString _ bytes _ => .wideString bytes
  | .jump distance => .jump (distance.toNat + (offset + 1 + 4))
  | .choices branches _ => .choices (branches.mapIdx fun index branch =>
      (branch.2.toNat + branchBase offset branches.length index, branch.1))
  | .struct fill _ _ _ => .struct (offset + 3 + fill)

variable {data : Bytes} {pos : Nat}

/-! ## Texts and vectors -/

theorem readText_of_hasAt {length : Int32} {bytes : List UInt8}
    (hlength : bytes.length = length.toInt.toNat) (make : List UInt8 → Operand)
    (h : HasAt data pos (ByteOrder.little.bytes32 length.toUInt32 ++ bytes)) :
    Operand.readText data pos make =
      .ok (make bytes, (ByteOrder.little.bytes32 length.toUInt32 ++ bytes).length) := by
  have hword := h.left.word32
  have htext := h.right.slice
  rw [length_bytes32] at htext
  have hcount : Operand.length length.toUInt32 = bytes.length := by
    rw [Operand.length, Int32.toInt32_toUInt32, hlength]
  rw [Operand.readText, hword]
  dsimp only
  rw [hcount, htext, List.length_append, length_bytes32]
  rfl

theorem readVector_of_hasAt {words : List UInt32}
    (h : HasAt data pos (words.flatMap ByteOrder.little.bytes32)) :
    Operand.readVector data pos words.length =
      .ok (.vector words, (words.flatMap ByteOrder.little.bytes32).length) := by
  rw [Operand.readVector, h.words, length_flatMap_of_width (length_bytes32 .little)]
  rfl

/-! ## Choices -/

theorem choiceTargets_of_hasAt {branches : List (UInt16 × UInt32)}
    (h : HasAt data pos (branches.flatMap (fun branch => ByteOrder.little.bytes16 branch.1) ++
      branches.flatMap (fun branch => ByteOrder.little.bytes32 branch.2))) :
    Operand.choiceTargets data pos branches.length =
      some (branches.mapIdx fun index branch =>
        (branch.2.toNat + (pos + 2 * branches.length + 4 * index + 4), branch.1)) := by
  have hweights := h.left
  have hdistances := h.right
  rw [length_flatMap_of_width fun branch : UInt16 × UInt32 => length_bytes16 .little branch.1]
    at hdistances
  rw [Operand.choiceTargets]
  apply mapM_range_eq_some List.length_mapIdx
  intro i hi
  rw [List.length_mapIdx] at hi
  have hweight := (hweights.entry (fun branch => length_bytes16 .little branch.1) i hi).word16
  have hdistance := (hdistances.entry (fun branch => length_bytes32 .little branch.2) i hi).word32
  rw [hweight]
  simp only [Option.bind_eq_bind, Option.bind_some]
  rw [hdistance, List.getElem_mapIdx]
  rfl

theorem readChoices_of_hasAt {branches : List (UInt16 × UInt32)}
    (hlt : branches.length < UInt32.size)
    (h : HasAt data pos ((Arg.choices branches hlt).bytes)) :
    Operand.readChoices data pos =
      .ok (.choices (branches.mapIdx fun index branch =>
        (branch.2.toNat + (pos + 4 + 2 * branches.length + 4 * index + 4), branch.1)),
        (Arg.choices branches hlt).bytes.length) := by
  have hsize : (Arg.choices branches hlt).bytes.length = 4 + branches.length * 6 := by
    rw [Arg.bytes, List.length_append, List.length_append, length_bytes32,
      length_flatMap_of_width fun branch : UInt16 × UInt32 => length_bytes16 .little branch.1,
      length_flatMap_of_width fun branch : UInt16 × UInt32 => length_bytes32 .little branch.2]
    omega
  have hle := h.le_size
  rw [hsize] at hle
  have hword := h.left.word32
  have htable := h.right
  rw [length_bytes32] at htable
  rw [Operand.readChoices, hword]
  dsimp only
  rw [UInt32.toNat_ofNat_of_lt' hlt, if_neg (by omega), choiceTargets_of_hasAt htable, hsize]
  rfl

/-! ## Structs -/

/-- The zeros in front of a struct run into its header word, so the search for the
image stops two bytes after it starts. -/
theorem readStruct_of_hasAt {fill : Nat} {block : List UInt8}
    (hheaded : [0x00, 0x00, 0x01, 0x00] <+: block) (hshort : block.length ≤ 32767)
    (h : HasAt data pos ((Arg.struct fill block hheaded hshort).bytes)) :
    Operand.readStruct data pos =
      .ok (.struct (pos + 2 + fill), (Arg.struct fill block hheaded hshort).bytes.length) := by
  have hlength : (Arg.struct fill block hheaded hshort).bytes.length =
      2 + (fill + block.length) := by
    rw [Arg.bytes, List.length_append, length_bytes16, List.length_append,
      List.length_replicate]
  obtain ⟨rest, hblock⟩ := hheaded
  have hfour : block.length = 4 + rest.length := by
    rw [← hblock, List.length_append]
    rfl
  have hword := h.left.word16
  have hzeros := h.right
  rw [length_bytes16] at hzeros
  have hsplit : List.replicate fill (0 : UInt8) ++ block =
      List.replicate (fill + 2) 0 ++ [0x01, 0x00] ++ rest := by
    rw [← hblock, ← List.replicate_append_replicate]
    simp
  rw [hsplit] at hzeros
  have hsentinel := hzeros.left.right
  rw [List.length_replicate] at hsentinel
  have hseek : data.seek (· != 0) (pos + 2) = pos + 2 + (fill + 2) := by
    have hstop : HasAt data (pos + 2) (List.replicate (fill + 2) 0 ++ [0x01]) := by
      have hfront := hzeros.left
      rw [← List.singleton_append, ← List.append_assoc] at hfront
      exact hfront.left
    have hfound := hstop.seek (p := (· != 0)) (by
      intro byte hbyte
      rw [List.eq_of_mem_replicate hbyte]
      rfl) rfl
    rw [List.length_replicate] at hfound
    exact hfound
  have hfound : (data.extract (pos + 2 + (fill + 2)) (pos + 2 + (fill + 2) + 2)).toList =
      [0x01, 0x00] := congrArg Array.toList hsentinel.extract
  have hvalue : (UInt16.ofNat block.length).toInt16.toInt = (block.length : Int) := by
    have hlt : block.length < UInt16.size := Nat.lt_of_le_of_lt hshort (by decide)
    have hnat := UInt16.toNat_ofNat_of_lt' hlt
    rw [← Int16.toInt_toBitVec, UInt16.toBitVec_toInt16, BitVec.toInt_eq_toNat_of_lt]
    · rw [UInt16.toNat_toBitVec, hnat]
    · rw [UInt16.toNat_toBitVec, hnat]
      omega
  rw [Operand.readStruct, hword]
  dsimp only
  rw [hseek, hfound, if_pos rfl, hvalue, hlength]
  congr 2
  omega

/-! ## All operands -/

/-- A complete operand is read as what was written, and no byte more is taken. -/
theorem read_arg {layout : Layout} (arg : Arg layout) {offset : Nat}
    (h : HasAt data (offset + 1) arg.bytes) :
    Operand.read data (offset + 1) layout = .ok (operandAt offset arg, arg.bytes.length) := by
  cases arg with
  | none => rfl
  | hidden bytes hlength =>
      subst hlength
      have hslice : data.slice? (offset + 1) bytes.length = some bytes.toArray := h.slice
      rw [Operand.read, hslice]
      rfl
  | key k =>
      rw [Operand.read, h.word32, Arg.bytes, length_bytes32]
      rfl
  | integer value =>
      rw [Operand.read, h.word32, Arg.bytes, length_bytes32]
      rfl
  | hex word =>
      rw [Operand.read, h.word32, Arg.bytes, length_bytes32]
      rfl
  | float bits =>
      rw [Operand.read, h.word32, Arg.bytes, length_bytes32]
      rfl
  | vector2 x y => exact readVector_of_hasAt h
  | vector3 x y z => exact readVector_of_hasAt h
  | string length bytes hlength => exact readText_of_hasAt hlength .string h
  | wideString length bytes hlength => exact readText_of_hasAt hlength .wideString h
  | jump distance =>
      rw [Operand.read, h.word32, Arg.bytes, length_bytes32]
      rfl
  | choices branches hlt => exact readChoices_of_hasAt hlt h
  | struct fill block hheaded hshort =>
      rw [Operand.read, readStruct_of_hasAt hheaded hshort h]
      rfl

/-- An opcode with its operand is read from where it stands. -/
theorem read_known {op : Opcode} (arg : Arg op.layout) {offset : Nat}
    (h : HasAt data offset (Instr.known op arg).bytes) :
    Instruction.read data offset op.byte =
      .ok (.known op (operandAt offset arg), arg.bytes.length) := by
  rw [Instruction.read, Opcode.ofByte?_byte]
  dsimp only
  rw [read_arg arg h.tail]

end ScriptRecord.Proofs.Bytecode.OperandReading
