import ScriptRecord.Codec.Faulty
import ScriptRecord.Main
import ScriptRecord.Proofs.BytesAt
import ScriptRecord.Proofs.Lzss.RoundTrip
import ScriptRecord.Proofs.Lzss.CutStream
import ScriptRecord.Proofs.Lzss.History
import ScriptRecord.Proofs.Lzss.Greedy
import ScriptRecord.Proofs.Lzss.Expansion
import ScriptRecord.Proofs.Lzss.Truncation
import ScriptRecord.Settings.Json
import ScriptRecord.Workbench
import ScriptRecord.Proofs.Record.ReadBack
import ScriptRecord.Proofs.Record.Sequence
import ScriptRecord.Proofs.Bytecode.Assembly
import ScriptRecord.Proofs.Bytecode.OperandReading
import ScriptRecord.Proofs.Bytecode.Synchronisation
import ScriptRecord.Proofs.Bytecode.Extent
import ScriptRecord.Proofs.Bytecode.Outcome
import ScriptRecord.Proofs.Bytecode.Margins
import ScriptRecord.Proofs.Bytecode.Nesting
import ScriptRecord.Proofs.Bytecode.Continuation
import ScriptRecord.Proofs.Struct.Layout
import ScriptRecord.Proofs.Struct.Scalars
import ScriptRecord.Proofs.Struct.Uniqueness
import ScriptRecord.Proofs.Struct.Entries
import ScriptRecord.Proofs.Struct.Reading
import ScriptRecord.Proofs.Struct.Rendering
import ScriptRecord.Proofs.Struct.Walking
import ScriptRecord.Proofs.Struct.Safety
import ScriptRecord.Proofs.Struct.Course
import ScriptRecord.Proofs.Struct.Payment
import ScriptRecord.Proofs.Struct.Relocation
import ScriptRecord.Proofs.Slot.WritingBack
import ScriptRecord.Proofs.Slot.Cells
import ScriptRecord.Proofs.Slot.Turns
import ScriptRecord.Proofs.Slot.Resemblance
import ScriptRecord.Proofs.Slot.Texts
import ScriptRecord.Proofs.Slot.Placement
import ScriptRecord.Proofs.Slot.Editing
import ScriptRecord.Proofs.Slot.Untouched
import ScriptRecord.Proofs.Slot.Closing
import ScriptRecord.Proofs.Slot.Extent
import ScriptRecord.Proofs.Slot.Planting
import ScriptRecord.Proofs.Slot.PayloadEnd
import ScriptRecord.Proofs.Slot.Stretches
import ScriptRecord.Proofs.Slot.Bounds
import ScriptRecord.Proofs.Workbench.Coherence
import ScriptRecord.Proofs.Disk.Writing
import ScriptRecord.Proofs.CommandLine.Actions
import ScriptRecord.Proofs.CommandLine.InPlace
import ScriptRecord.Proofs.Record.Acceptance
import ScriptRecord.Proofs.Record.Lengths
import ScriptRecord.Proofs.CommandLine.Frame
import ScriptRecord.Proofs.Checksum.CloseNames
import ScriptRecord.Proofs.Text.HexDigits
import ScriptRecord.Proofs.NameTable.Layering
import ScriptRecord.Proofs.Text.Members
import ScriptRecord.Proofs.Text.Trimming
import ScriptRecord.Proofs.Checksum.Spelling
import ScriptRecord.Proofs.NameTable.Lines
import ScriptRecord.Proofs.NameTable.RoundTrip
import ScriptRecord.Proofs.Json.Quoting
import ScriptRecord.Proofs.Settings.Saving
import ScriptRecord.Proofs.HexDump.Columns
