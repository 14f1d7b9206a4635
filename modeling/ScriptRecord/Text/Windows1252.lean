import ScriptRecord.Text.Utf8
import ScriptRecord.Text.Utf16
/-!
# Windows-1252 text

One byte a character. A byte order mark in front of the bytes overrides the encoding when they are
read; writing is the exact inverse of the table.
-/

namespace ScriptRecord.Windows1252

/-- The characters of the bytes `0x80` to `0x9F`; a byte without one stands for the control
character of its value. -/
def upperRow : List Nat :=
  [0x20AC, 0x81, 0x201A, 0x192, 0x201E, 0x2026, 0x2020, 0x2021,
   0x2C6, 0x2030, 0x160, 0x2039, 0x152, 0x8D, 0x17D, 0x8F,
   0x90, 0x2018, 0x2019, 0x201C, 0x201D, 0x2022, 0x2013, 0x2014,
   0x2DC, 0x2122, 0x161, 0x203A, 0x153, 0x9D, 0x17E, 0x178]

/-- The character of a byte. -/
def charOf (b : UInt8) : Char :=
  let n := b.toNat
  if 0x80 ≤ n ∧ n < 0xA0 then Char.ofNat (upperRow.getD (n - 0x80) n) else Char.ofNat n

/-- The byte of a character, if it has one. -/
def byteOf? (c : Char) : Option UInt8 :=
  let n := c.toNat
  if n < 0x80 ∨ (0xA0 ≤ n ∧ n < 0x100) then some (UInt8.ofNat n)
  else (upperRow.idxOf? n).map fun i => UInt8.ofNat (0x80 + i)

/-- Pair up bytes as code units, `join` giving the unit of two bytes in reading order. -/
def pairUnits (join : UInt8 → UInt8 → UInt16) : List UInt8 → List UInt16
  | a :: b :: rest => join a b :: pairUnits join rest
  | _ => []

/-- UTF-16 text of bytes. A last byte on its own reads as one replacement character, together with
a lead surrogate right before it. -/
def decodeUnits (join : UInt8 → UInt8 → UInt16) (bytes : List UInt8) : List Char :=
  let units := pairUnits join bytes
  let text := Utf16.decode units
  if bytes.length % 2 = 0 ∨ units.getLast?.any Utf16.isLead then text
  else text ++ [Utf16.replacement]

/-- Read bytes as text. The marks `EF BB BF`, `FE FF` and `FF FE` in front are left out and make
the rest UTF-8 and UTF-16 of either order. -/
def decode : List UInt8 → List Char
  | 0xEF :: 0xBB :: 0xBF :: rest => Utf8.decodeLossy rest
  | 0xFE :: 0xFF :: rest => decodeUnits (fun a b => UInt16.ofNat (a.toNat * 256 + b.toNat)) rest
  | 0xFF :: 0xFE :: rest => decodeUnits (fun a b => UInt16.ofNat (b.toNat * 256 + a.toNat)) rest
  | bytes => bytes.map charOf

/-- The bytes of a text, if all its characters have one. -/
def encode? (text : List Char) : Option (List UInt8) :=
  text.mapM byteOf?

end ScriptRecord.Windows1252
