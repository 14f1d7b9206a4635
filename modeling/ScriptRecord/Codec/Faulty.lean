import ScriptRecord.Codec
/-!
# Codecs of a host

A codec that stores payloads as they are, and three that each break one rule. Records must cope
with all of them.
-/

namespace ScriptRecord.Codec

/-- Stores payloads as they are. -/
def verbatim : Codec where
  name := "copy"
  compress := fun _ data => data
  decompress := fun data _ => .ok data

/-- Loses the second half of a payload. -/
def halving : Codec where
  name := "half"
  compress := fun _ data => data.extract 0 (data.size / 2)
  decompress := fun data _ => .ok data

/-- Answers the first call and no other. -/
def forgetful : Codec where
  name := "flaky"
  compress := fun call data => if call = 0 then data else #[]
  decompress := fun data _ => .ok data

/-- Refuses to restore anything. -/
def refusing : Codec where
  name := "corrupt"
  compress := fun _ data => data
  decompress := fun _ _ => .error (.compression "corrupt stream")

end ScriptRecord.Codec
