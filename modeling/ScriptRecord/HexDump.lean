import ScriptRecord.Bytes
import ScriptRecord.Text.Hex
/-!
# Hex dumps

Sixteen bytes a line, first as pairs of digits, then as the characters of the same values.
-/

namespace ScriptRecord.HexDump

/-- Bytes on a line. -/
def rowWidth : Nat := 16

/-- The character shown for a byte: a point for a control. -/
def shown (b : UInt8) : Char :=
  let n := b.toNat
  if n < 0x20 ∨ (0x7F ≤ n ∧ n < 0xA0) then '.' else Char.ofNat n

/-- The two digits of a byte and a space. -/
def cell (b : UInt8) : List Char :=
  [Hex.upperDigit (b.toNat / 16), Hex.upperDigit (b.toNat % 16), ' ']

/-- The line of at most sixteen bytes. Both columns are filled up with spaces. -/
def row (bytes : List UInt8) : List Char :=
  let gap := rowWidth - bytes.length
  bytes.flatMap cell ++ List.replicate (3 * gap) ' ' ++ [':', ' '] ++
    bytes.map shown ++ List.replicate gap ' ' ++ ['\n']

/-- The lines of some bytes. -/
def rows (data : Bytes) : List (List Char) :=
  (List.range ((data.size + rowWidth - 1) / rowWidth)).map fun i =>
    row (data.extract (rowWidth * i) (rowWidth * i + rowWidth)).toList

/-- The dump of some bytes. -/
def render (data : Bytes) : String :=
  String.ofList (rows data).flatten

end ScriptRecord.HexDump
