/-!
# UTF-8 text

Reading bytes as UTF-8. What no character begins with is replaced: each longest sequence of bytes
that starts some character, but does not finish it, reads as one replacement character.
-/

namespace ScriptRecord.Utf8

/-- Stands for what cannot be decoded. -/
def replacement : Char := Char.ofNat 0xFFFD

/-- What the first byte of a character says: how many bytes follow, the bits it holds, and the
bounds of the second byte. -/
structure Lead where
  follow : Nat
  bits : Nat
  low : Nat
  high : Nat

/-- The reading of a byte that starts a character of several bytes. -/
def lead? (b : UInt8) : Option Lead :=
  let n := b.toNat
  if 0xC2 ≤ n ∧ n ≤ 0xDF then some ⟨1, n - 0xC0, 0x80, 0xBF⟩
  else if n = 0xE0 then some ⟨2, 0, 0xA0, 0xBF⟩
  else if n = 0xED then some ⟨2, 0xD, 0x80, 0x9F⟩
  else if 0xE1 ≤ n ∧ n ≤ 0xEF then some ⟨2, n - 0xE0, 0x80, 0xBF⟩
  else if n = 0xF0 then some ⟨3, 0, 0x90, 0xBF⟩
  else if 0xF1 ≤ n ∧ n ≤ 0xF3 then some ⟨3, n - 0xF0, 0x80, 0xBF⟩
  else if n = 0xF4 then some ⟨3, 4, 0x80, 0x8F⟩
  else none

/-- The characters of `bytes` put in reverse before `done`. `open?` is the character under way:
what it still needs and the bits read so far. -/
def decodeOnto (done : List Char) : Option Lead → List UInt8 → List Char
  | none, [] => done
  | some _, [] => replacement :: done
  | none, b :: rest =>
    if b.toNat < 0x80 then decodeOnto (Char.ofNat b.toNat :: done) none rest
    else match lead? b with
      | some lead => decodeOnto done (some lead) rest
      | none => decodeOnto (replacement :: done) none rest
  | some lead, b :: rest =>
    let n := b.toNat
    if lead.low ≤ n ∧ n ≤ lead.high then
      let bits := lead.bits * 64 + (n - 0x80)
      if lead.follow ≤ 1 then decodeOnto (Char.ofNat bits :: done) none rest
      else decodeOnto done (some ⟨lead.follow - 1, bits, 0x80, 0xBF⟩) rest
    else if n < 0x80 then decodeOnto (Char.ofNat n :: replacement :: done) none rest
    else match lead? b with
      | some next => decodeOnto (replacement :: done) (some next) rest
      | none => decodeOnto (replacement :: replacement :: done) none rest

/-- The text of `bytes`, with replacement characters for what is malformed. -/
def decodeLossy (bytes : List UInt8) : List Char :=
  (decodeOnto [] none bytes).reverse

/-- The bytes of a text. -/
def encode (text : List Char) : List UInt8 :=
  text.flatMap String.utf8EncodeChar

/-- The text of `bytes`, if they are well formed. -/
def decode? (bytes : Array UInt8) : Option String :=
  String.fromUTF8? (ByteArray.mk bytes)

end ScriptRecord.Utf8
