/-!
# UTF-16 code units

The code units of a text, and the text of a run of code units. A surrogate without its partner
reads as one replacement character.
-/

namespace ScriptRecord.Utf16

/-- Stands for what cannot be decoded. -/
def replacement : Char := Char.ofNat 0xFFFD

/-- The code units of one character. -/
def unitsOf (c : Char) : List UInt16 :=
  let n := c.toNat
  if n < 0x10000 then [UInt16.ofNat n]
  else [UInt16.ofNat (0xD800 + (n - 0x10000) / 1024), UInt16.ofNat (0xDC00 + (n - 0x10000) % 1024)]

/-- The code units of a text. -/
def encode (text : List Char) : List UInt16 :=
  text.flatMap unitsOf

/-- Whether a unit opens a surrogate pair. -/
def isLead (u : UInt16) : Bool := 0xD800 ≤ u && u ≤ 0xDBFF

/-- Whether a unit closes a surrogate pair. -/
def isTrail (u : UInt16) : Bool := 0xDC00 ≤ u && u ≤ 0xDFFF

/-- The character of a surrogate pair. -/
def pair (lead trail : UInt16) : Char :=
  Char.ofNat (0x10000 + (lead.toNat - 0xD800) * 1024 + (trail.toNat - 0xDC00))

/-- The characters of `units`, put in reverse before `done`. -/
def decodeOnto (done : List Char) : List UInt16 → List Char
  | [] => done
  | [u] => (if isLead u || isTrail u then replacement else Char.ofNat u.toNat) :: done
  | u :: v :: rest =>
    if isLead u then
      if isTrail v then decodeOnto (pair u v :: done) rest
      else decodeOnto (replacement :: done) (v :: rest)
    else if isTrail u then decodeOnto (replacement :: done) (v :: rest)
    else decodeOnto (Char.ofNat u.toNat :: done) (v :: rest)

/-- The text of a run of code units. -/
def decode (units : List UInt16) : List Char :=
  (decodeOnto [] units).reverse

end ScriptRecord.Utf16
