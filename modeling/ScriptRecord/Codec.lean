import ScriptRecord.Error
import ScriptRecord.Lzss.Match
import ScriptRecord.Lzss.Window
/-!
# Codecs

A codec makes a payload smaller and restores it. `Lzss.codec` is the one that records use unless a
host brings its own.
-/

namespace ScriptRecord

/-- A way to store payloads. -/
structure Codec where
  name : String
  /-- The answer to the call of this number, counted from zero. Only for codecs that do not keep
  to the rules does the number matter. -/
  compress : Nat → Bytes → Bytes
  /-- The payload of the given size. -/
  decompress : Bytes → Nat → Except Error Bytes

namespace Lzss

/-- The tokens of some data, as bytes. -/
def compress (data : Bytes) : Bytes :=
  (Token.pack (tokens data).toList).toArray

/-- What a stream of tokens stands for. It must be `size` bytes; more are noticed after the first
token that makes them. -/
def decompress (stream : Bytes) (size : Nat) : Except Error Bytes :=
  let window := Window.initial.expandAll size (Token.unpack stream.toList).toList
  if window.output.size = size then .ok window.output
  else .error (.decompressionSize size window.output.size)

/-- The codec of records. -/
def codec : Codec where
  name := "lzss"
  compress := fun _ => compress
  decompress := decompress

end Lzss

end ScriptRecord
