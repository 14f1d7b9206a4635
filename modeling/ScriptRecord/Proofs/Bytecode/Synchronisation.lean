import ScriptRecord.Proofs.Bytecode.OperandReading
/-!
# The listing of an assembled program

A scan of assembled bytes finds the instructions that were assembled, each at its
offset (`scanFrom_of_hasAt`), and the lines that a listing makes of them are those
of the program (`render_foldl_step`).  So no operand, whatever its bytes, makes the
listing lose its place.
-/

namespace ScriptRecord.Proofs.Bytecode.Synchronisation

open ScriptRecord.Bytecode
open ScriptRecord.Proofs.Bytecode.Assembly
open ScriptRecord.Proofs.Bytecode.OperandReading
open ScriptRecord.Proofs.BytesAt

/-! ## The scan -/

/-- What a scan makes of an instruction at `offset`. -/
def actionAt (offset : Nat) : Instr → Action
  | .known op arg => .known op (operandAt offset arg)
  | .unknown byte _ => .unknown byte

/-- The instructions of a program that stands at `offset`. -/
def instructionsFrom (offset : Nat) : List Instr → List Instruction
  | [] => []
  | instr :: rest =>
    ⟨offset, actionAt offset instr⟩ :: instructionsFrom (offset + instr.bytes.length) rest

/-- The first byte of an instruction and the number of the bytes after it say where
the next instruction starts. -/
theorem read_instr (instr : Instr) {data : Bytes} {offset : Nat}
    (h : HasAt data offset instr.bytes) :
    ∃ (hlt : offset < data.size) (size : Nat),
      Instruction.read data offset data[offset] = .ok (actionAt offset instr, size) ∧
        offset + 1 + size = offset + instr.bytes.length := by
  cases instr with
  | known op arg =>
      obtain ⟨hlt, hbyte⟩ := h.head
      refine ⟨hlt, arg.bytes.length, ?_, ?_⟩
      · rw [hbyte]
        exact read_known arg h
      · rw [Instr.bytes, List.length_cons]
        omega
  | unknown byte hunassigned =>
      obtain ⟨hlt, hbyte⟩ := h.head
      refine ⟨hlt, 0, ?_, rfl⟩
      rw [hbyte, Instruction.read, hunassigned]
      rfl

theorem scanFrom_of_hasAt {data : Bytes} (program : List Instr) {offset : Nat}
    (done : Array Instruction) (h : HasAt data offset (program.flatMap Instr.bytes))
    (hend : offset + (program.flatMap Instr.bytes).length = data.size) :
    Program.scanFrom data offset done =
      ⟨done ++ (instructionsFrom offset program).toArray, .complete⟩ := by
  induction program generalizing offset done with
  | nil =>
      have hstop : ¬ offset < data.size := by
        rw [← hend]
        simp
      rw [Program.scanFrom, dif_neg hstop]
      simp [instructionsFrom]
  | cons instr rest ih =>
      rw [List.flatMap_cons] at h hend
      rw [List.length_append] at hend
      obtain ⟨hlt, size, hread, hnext⟩ := read_instr instr h.left
      have hrest := ih (done.push ⟨offset, actionAt offset instr⟩) h.right (by omega)
      rw [Program.scanFrom, dif_pos hlt, hread]
      dsimp only
      rw [hnext, hrest]
      simp [instructionsFrom]

theorem scan_assemble (program : List Instr) :
    Program.scan (assemble program) = ⟨(instructionsFrom 0 program).toArray, .complete⟩ := by
  have h : HasAt (assemble program) 0 (program.flatMap Instr.bytes) :=
    ⟨[], [], by simp [assemble], rfl⟩
  rw [Program.scan, scanFrom_of_hasAt program #[] h (by simp [assemble]), Array.empty_append]

/-! ## Operands -/

/-- The operand that is read has the text of the operand that was written. -/
theorem render_operandAt (data : Bytes) (names : Names) (offset column : Nat) {layout : Layout}
    (arg : Arg layout) :
    (operandAt offset arg).render data names column = arg.text data names offset column := by
  cases arg with
  | integer value =>
      simp only [operandAt, Operand.render, Arg.text, Int32.toInt32_toUInt32]
  | jump distance =>
      simp only [operandAt, Operand.render, Arg.text]
      rw [Nat.add_comm, Nat.add_assoc offset 1 4]
  | choices branches _ =>
      simp only [operandAt, Operand.render, Arg.text]
      congr 3
      apply List.ext_getElem
      · simp
      · intro i _ hi
        rw [List.length_mapIdx] at hi
        simp only [List.getElem_map, List.getElem_mapIdx]
        rw [Nat.add_comm branches[i].2.toNat]
  | vector2 x y =>
      simp only [operandAt, Operand.render, Arg.text, List.map_cons, List.map_nil]
      rw [String.intercalate_cons_cons, String.intercalate_singleton]
      simp only [String.append_assoc]
  | vector3 x y z =>
      simp only [operandAt, Operand.render, Arg.text, List.map_cons, List.map_nil]
      rw [String.intercalate_cons_cons, String.intercalate_cons_cons,
        String.intercalate_singleton]
      simp only [String.append_assoc]
  | _ => rfl

/-! ## The lines -/

/-- The lines of a listing as one text. -/
def linesText (listing : Listing) : String :=
  String.join (listing.allLines.map Line.render)

theorem linesText_eq (listing : Listing) :
    linesText listing =
      String.join (listing.lines.toList.map Line.render) ++ listing.line.render := by
  simp [linesText, Listing.allLines, String.join]

theorem length_known {op : Opcode} (arg : Arg op.layout) (offset : Nat) :
    offset + (Instr.known op arg).bytes.length = offset + 1 + arg.bytes.length := by
  rw [Instr.bytes, List.length_cons]
  omega

theorem append_append (line : Line) (a b : String) :
    (line.append a).append b = line.append (a ++ b) := by
  simp only [Line.append, String.append_assoc]

theorem textColumn_append (line : Line) (text : String) :
    (line.append text).textColumn = line.textColumn := rfl

/-- A line opcode completes the open line. -/
theorem join_breakLine (listing : Listing) (offset : Nat) :
    String.join ((listing.breakLine offset).lines.toList.map Line.render) =
      String.join (listing.lines.toList.map Line.render) ++ listing.line.render := by
  simp [Listing.breakLine, String.join]

/-- A byte that is no opcode is named on the open line. -/
theorem step_unknown {data : Bytes} {names : Names} {listing : Listing} {offset : Nat}
    {byte : UInt8} (h : Opcode.ofByte? byte = none) :
    Listing.step data names listing ⟨offset, actionAt offset (.unknown byte h)⟩ =
      { listing with
        line := listing.line.append
          ("\x7b[UNKNOWN OPCODE " ++ Hex.upper 2 byte.toNat ++ "]\x7d" ++ " ") } := by
  have hspace : "]\x7d" ++ " " = "]\x7d " := rfl
  rw [String.append_assoc, hspace]
  rfl

/-- Every other opcode adds its text, its operand and a space to the open line. -/
theorem step_known {data : Bytes} {names : Names} {listing : Listing} {offset : Nat}
    {op : Opcode} (hop : op ≠ .endOfLine) (arg : Arg op.layout) :
    Listing.step data names listing ⟨offset, actionAt offset (.known op arg)⟩ =
      { listing with
        line := (if op.outdents then listing.line.outdent else listing.line).append
          (op.text ++ arg.text data names offset
            (if op.outdents then listing.line.outdent else listing.line).textColumn ++ " ")
        depth := listing.depth + Int32.ofInt op.depthChange } := by
  rw [actionAt, Listing.step_of_ne hop, render_operandAt, Listing.begin]
  simp only [Listing.append, append_append, textColumn_append, String.append_assoc]

/-- The instructions of a program make the lines of the program. -/
theorem render_foldl_step (data : Bytes) (names : Names) (program : List Instr)
    (listing : Listing) (offset : Nat) :
    linesText ((instructionsFrom offset program).foldl (Listing.step data names) listing) =
      String.join (listing.lines.toList.map Line.render) ++
        listFrom data names listing.line listing.depth offset program := by
  induction program generalizing listing offset with
  | nil => exact linesText_eq listing
  | cons instr rest ih =>
      rw [instructionsFrom, List.foldl_cons, ih]
      cases instr with
      | unknown byte hunassigned =>
          rw [step_unknown, listFrom]
          rfl
      | known op arg =>
          by_cases hop : op = .endOfLine
          · subst hop
            have hlines : Listing.step data names listing
                ⟨offset, actionAt offset (.known .endOfLine arg)⟩ =
                (listing.breakLine offset).append " " := rfl
            have hopened : (listing.breakLine offset).line.append " " =
                ⟨some offset, listing.depth.toNatClampNeg, " "⟩ := rfl
            rw [hlines, listFrom, if_pos rfl, ← length_known]
            simp only [Listing.append, join_breakLine, String.append_assoc, hopened]
            rfl
          · rw [step_known hop, listFrom, if_neg hop]
            dsimp only
            rw [← length_known]

/-- Assembled bytes are listed as the program that they were assembled from,
whatever bytes its operands hold. -/
theorem decompile_assemble (program : List Instr) (names : Names) :
    decompile (assemble program) names = .ok (listing program names) := by
  have hlines := render_foldl_step (assemble program) names program Listing.empty 0
  have hnone : String.join (Listing.empty.lines.toList.map Line.render) = "" := rfl
  rw [hnone, String.empty_append] at hlines
  have hlisting : Listing.ofPayload (assemble program) names =
      .ok ((instructionsFrom 0 program).foldl (Listing.step (assemble program) names)
        Listing.empty) := by
    rw [Listing.ofPayload, scan_assemble]
    dsimp only
    rw [List.foldl_toArray]
    rfl
  have hrender (made : Listing) : made.render =
      String.ofList (Text.trimBy Listing.isMargin (linesText made).toList) := rfl
  rw [decompile, hlisting]
  simp only [bind, Except.bind, pure, Except.pure]
  rw [hrender, hlines]
  rfl

end ScriptRecord.Proofs.Bytecode.Synchronisation
