import ScriptRecord.Bytecode.Instruction
import ScriptRecord.Error
import ScriptRecord.Struct.Image
import ScriptRecord.Text.Blank
/-!
# Listings

A program as lines of text. Every line but the first starts with the offset of the line opcode
that opened it, and is indented by the blocks it lies in.

* `Listing.step`: what one instruction adds to a listing.
* `decompile`: the text of a payload.
-/

namespace ScriptRecord.Bytecode

/-- A line of a listing. -/
structure Line where
  /-- Where the line opcode stands; the first line has none. -/
  offset : Option Nat
  indent : Nat
  text : String
  deriving DecidableEq, Repr

namespace Line

/-- Width of one level of indentation. -/
def indentWidth : Nat := 4

/-- The column that the text of a line starts in. -/
def textColumn (line : Line) : Nat :=
  match line.offset with
  | some _ => 4 + line.indent * indentWidth
  | none => 0

/-- Move a line one level to the left, if it is indented. -/
def outdent (line : Line) : Line :=
  { line with indent := line.indent - 1 }

def append (line : Line) (text : String) : Line :=
  { line with text := line.text ++ text }

/-- What stands in front of the text of a line. -/
def lead (line : Line) : String :=
  match line.offset with
  | some offset =>
    Hex.upper 4 offset ++ String.ofList (List.replicate (line.indent * indentWidth) ' ')
  | none => ""

def render (line : Line) : String :=
  line.lead ++ line.text ++ "\n"

end Line

/-- A listing under construction. -/
structure Listing where
  /-- The lines that are complete. -/
  lines : Array Line
  /-- The line that further instructions add to. -/
  line : Line
  /-- The number of blocks that later lines lie in, negative after too many ends of blocks. From
  `2 ^ 31` levels on it comes round to the negative numbers. -/
  depth : Int32
  deriving DecidableEq, Repr

namespace Operand

/-- Drop the zeros at the end of a text. -/
def untilPadding (text : List Char) : List Char :=
  Text.trimEndBy (· == '\x00') text

/-- The text of an operand on a line whose text starts in column `column`. -/
def render (data : Bytes) (names : Names) (column : Nat) : Operand → String
  | .none | .hidden => ""
  | .key k => names.resolve k
  | .integer word => toString word.toInt32.toInt
  | .hex word => "0x" ++ Hex.upper 1 word.toNat
  | .float bits => FixedPoint.twoDecimals bits
  | .vector parts => "(" ++ String.intercalate ", " (parts.map FixedPoint.twoDecimals) ++ ")"
  | .string bytes => String.ofList ('\'' :: untilPadding (Struct.asciiText bytes) ++ ['\''])
  | .wideString bytes =>
    String.ofList ('"' :: untilPadding (Utf16.decode (Struct.wideUnits bytes)) ++ ['"'])
  | .jump target => Hex.upper 4 target
  | .choices targets =>
    let texts := targets.map fun choice => Hex.upper 4 choice.1 ++ "#" ++ toString choice.2.toNat
    "(" ++ String.intercalate ", " texts ++ ")"
  | .struct start =>
    (Struct.Image.mk data start names).render (String.ofList (List.replicate (column + 1) ' '))

end Operand

namespace Listing

/-- The listing of no instructions. -/
def empty : Listing := ⟨#[], ⟨none, 0, ""⟩, 0⟩

/-- Add to the open line. -/
def append (listing : Listing) (text : String) : Listing :=
  { listing with line := listing.line.append text }

/-- What an opcode does before its operand is looked at. -/
def begin (listing : Listing) (op : Opcode) : Listing :=
  let line := if op.outdents then listing.line.outdent else listing.line
  { listing with
    line := line.append op.text
    depth := listing.depth + Int32.ofInt op.depthChange }

/-- Open a line for the line opcode at `offset`. -/
def breakLine (listing : Listing) (offset : Nat) : Listing :=
  { listing with
    lines := listing.lines.push listing.line
    line := ⟨some offset, listing.depth.toNatClampNeg, ""⟩ }

/-- What an instruction adds to a listing. A space follows every instruction. -/
def step (data : Bytes) (names : Names) (listing : Listing) (instruction : Instruction) :
    Listing :=
  match instruction.action with
  | .known .endOfLine _ => (listing.breakLine instruction.offset).append " "
  | .known op operand =>
    let listing := listing.begin op
    let text := operand.render data names listing.line.textColumn
    listing.append (text ++ " ")
  | .unknown byte => listing.append ("\x7b[UNKNOWN OPCODE " ++ Hex.upper 2 byte.toNat ++ "]\x7d ")

/-- Every opcode but the line opcode adds to the open line. -/
theorem step_of_ne {data : Bytes} {names : Names} {listing : Listing} {offset : Nat}
    {op : Opcode} {operand : Operand} (h : op ≠ .endOfLine) :
    listing.step data names ⟨offset, .known op operand⟩ =
      (listing.begin op).append
        (operand.render data names (listing.begin op).line.textColumn ++ " ") := by
  cases op <;> first | exact absurd rfl h | rfl

/-- What the end of a program adds to its listing. -/
def finish (listing : Listing) : Ending → Except Error Listing
  | .complete => .ok listing
  | .truncated _ op =>
    let token := "\x7b[TRUNCATED OPCODE " ++ Hex.upper 2 op.byte.toNat ++ "]\x7d"
    .ok ((listing.begin op).append token)
  | .noStruct pos found => .error (.structSentinel pos found)

/-- Whether a character is dropped from the ends of a listing. -/
def isMargin (c : Char) : Bool :=
  c == ' ' || c == '\n' || c == '\r'

/-- All lines, with the last one complete. -/
def allLines (listing : Listing) : List Line :=
  listing.lines.toList ++ [listing.line]

def render (listing : Listing) : String :=
  let text := String.join (listing.allLines.map Line.render)
  String.ofList (Text.trimBy isMargin text.toList)

end Listing

/-- The listing of a payload. -/
def Listing.ofPayload (data : Bytes) (names : Names) : Except Error Listing :=
  let program := Program.scan data
  (program.instructions.foldl (Listing.step data names) Listing.empty).finish program.ending

/-- The text of a payload's instructions. -/
def decompile (data : Bytes) (names : Names) : Except Error String :=
  return (← Listing.ofPayload data names).render

end ScriptRecord.Bytecode
