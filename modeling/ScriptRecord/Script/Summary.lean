import ScriptRecord.Script
/-!
# Summaries

The fields of a script for a reader, one on each line.
-/

namespace ScriptRecord.Script

/-- A line with a label in a column of sixteen characters. -/
def labelled (label value : String) : String :=
  String.ofList ((label ++ ":").toList.rightpad 16 ' ') ++ value ++ "\n"

def byteCount (n : Nat) : String :=
  toString n ++ " bytes"

/-- The lines of a script. Its payload is stored as it is unless the codec makes it smaller. -/
def summary (script : Script) : String :=
  let size := script.payload.size
  let stored := (script.record.stored Lzss.codec 0).size
  labelled "Item type" script.record.header.type.name ++
    labelled "Item key" script.record.header.itemKey.toHex ++
    labelled "File key" script.record.header.fileKey.toHex ++
    labelled "Unknown" ("0x" ++ Hex.upper 8 script.record.unknown.toNat) ++
    labelled "Platform"
      (script.container.platform.name ++ " (" ++ script.container.order.title ++ " endian)") ++
    labelled "Payload" (byteCount size) ++
    labelled "Stored" (byteCount stored ++ if stored = size then " (raw)" else "") ++
    labelled "Record length" (byteCount (script.length Lzss.codec)) ++
    labelled "Strings" (toString script.slots.length)

end ScriptRecord.Script
