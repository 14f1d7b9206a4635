import ScriptRecord.Text.Hex
/-!
# Checksum keys

Names are known by a 32-bit checksum: the reflected cyclic redundancy check of the name's UTF-8
bytes, with ASCII letters in lower case and every slash turned into a backslash.

* `Checksum.bitStep`: one bit of the register.
* `Checksum.byteStep`: one byte, by a table of 256 registers.
* `Key.ofName`: the key of a name.
-/

namespace ScriptRecord

namespace Checksum

/-- The generator, lowest power in the highest bit. -/
def polynomial : UInt32 := 0xEDB88320

/-- The register before the first byte. The last register is the checksum, with no final
inversion. -/
def initial : UInt32 := 0xFFFFFFFF

/-- Shift one bit out of the register. -/
def bitStep (register : UInt32) : UInt32 :=
  if register &&& 1 = 0 then register >>> 1 else (register >>> 1) ^^^ polynomial

/-- Shift `n` bits out of the register. -/
def bitSteps : Nat → UInt32 → UInt32
  | 0, register => register
  | n + 1, register => bitSteps n (bitStep register)

/-- The register that eight shifts make of each byte. -/
def table : Vector UInt32 256 :=
  Vector.ofFn fun byte => bitSteps 8 (UInt32.ofNat byte.val)

/-- Take a byte into the register. -/
def byteStep (register : UInt32) (byte : UInt8) : UInt32 :=
  let low := (register ^^^ byte.toUInt32).toUInt8
  have low_lt : low.toNat < 256 := low.toNat_lt
  (register >>> 8) ^^^ table[low.toNat]

/-- The register after some bytes. -/
def ofBytes (bytes : List UInt8) : UInt32 :=
  bytes.foldl byteStep initial

end Checksum

/-- The checksum of a name. -/
structure Key where
  checksum : UInt32
  deriving DecidableEq, Hashable, Repr, Inhabited

namespace Key

/-- The form of a character that keys depend on. -/
def normalize (c : Char) : Char :=
  if c = '/' then '\\' else c.toLower

/-- The key of a name given by its characters. -/
def ofChars (name : List Char) : Key :=
  ⟨Checksum.ofBytes (name.flatMap fun c => String.utf8EncodeChar (normalize c))⟩

/-- The key of a name. -/
def ofName (name : String) : Key :=
  ofChars name.toList

/-- Eight hexadecimal digits in upper case. -/
def toHex (key : Key) : String :=
  Hex.upper 8 key.checksum.toNat

/-- The digits of a written key: what follows one leading `0x` or `0X`, if there is one. -/
def digitsOf : List Char → List Char
  | '0' :: 'x' :: rest => rest
  | '0' :: 'X' :: rest => rest
  | text => text

/-- Read a written key: at most eight bytes of hexadecimal digits, which one plus sign may
precede. -/
def ofHexChars? (text : List Char) : Option Key :=
  let digits := digitsOf text
  if digits.isEmpty ∨ 8 < (String.ofList digits).utf8ByteSize then none
  else
    match digits with
    | ['+'] => none
    | '+' :: rest => (Hex.valueFrom? 0 rest).map fun n => ⟨UInt32.ofNat n⟩
    | _ => (Hex.valueFrom? 0 digits).map fun n => ⟨UInt32.ofNat n⟩

/-- Read a written key. -/
def ofHex? (text : String) : Option Key :=
  ofHexChars? text.toList

end Key

end ScriptRecord
