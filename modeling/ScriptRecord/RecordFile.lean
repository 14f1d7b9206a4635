import ScriptRecord.Script
/-!
# Records in files

A script record at some offset of a file. When the script is edited, its new record takes the place
of the old one, and the bytes on both sides stay as they are.
-/

namespace ScriptRecord

/-- A script with the bytes of its file on both sides. -/
structure RecordFile where
  before : Bytes
  script : Script
  after : Bytes
  deriving DecidableEq

namespace RecordFile

/-- Read the record at an offset of a file. Its position decides nothing about padding: that is
counted from the start of the record, and what of it is missing at the end of the file is not
missed. -/
def locate (container : Container) (file : Bytes) (offset : Nat) : Except Error RecordFile :=
  let rest := file.extract offset file.size
  match Script.read container Lzss.codec rest 0 with
  | .ok script size => .ok ⟨file.extract 0 offset, script, rest.extract size rest.size⟩
  | .error error _ => .error error

/-- The file with the script as it stands. -/
def toBytes (file : RecordFile) : Except Error Bytes := do
  return file.before ++ (← file.script.write Lzss.codec) ++ file.after

/-- Give a slot another text and commit it. -/
def setText (file : RecordFile) (index : Nat) (text : String) : Except Slot.Failure RecordFile :=
  match (file.script.editText index text).commit with
  | .ok () script => .ok { file with script }
  | .error failure _ => .error failure

/-- Replace the payload. -/
def setPayload (file : RecordFile) (payload : Bytes) : RecordFile :=
  { file with script := file.script.setPayload payload }

end RecordFile

end ScriptRecord
