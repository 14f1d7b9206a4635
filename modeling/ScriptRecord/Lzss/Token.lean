import ScriptRecord.Bytes
/-!
# Tokens

A compressed stream is a sequence of tokens. Each group of at most eight tokens follows a byte of
flags, lowest bit first: a set bit is a literal byte, a clear bit a copy in two bytes.

* `Token.pack`: the bytes of a sequence of tokens.
* `Token.unpack`: the complete tokens of a stream of bytes.
-/

namespace ScriptRecord.Lzss

/-- Size of the ring that copies are taken from. -/
def windowSize : Nat := 4096

/-- Fewest bytes that a copy makes. -/
def minMatch : Nat := 3

/-- Most bytes that a copy makes. -/
def maxMatch : Nat := 18

/-- Where in the ring the first byte of the output goes. -/
def windowStart : Nat := windowSize - maxMatch

/-- Farthest that a copy reaches back while its bytes are still in the ring. -/
def maxDistance : Nat := windowSize - maxMatch

/-- The place in the ring that is `n` bytes from its first, round and round. -/
def place (n : Nat) : Fin 4096 := ⟨n % 4096, Nat.mod_lt n (Nat.succ_pos 4095)⟩

/-- The low four bits of a number. -/
def nibble (n : Nat) : Fin 16 := ⟨n % 16, Nat.mod_lt n (Nat.succ_pos 15)⟩

/-- A step of a compressed stream. -/
inductive Token where
  | literal (byte : UInt8)
  /-- Bytes of the ring from a position on; `extra` is their number beyond the fewest. -/
  | copy (position : Fin 4096) (extra : Fin 16)
  deriving DecidableEq, Repr

namespace Token

def isLiteral : Token → Bool
  | .literal _ => true
  | .copy .. => false

/-- The bytes of a token. The high bits of a position share a byte with the length. -/
def bytes : Token → List UInt8
  | .literal byte => [byte]
  | .copy position extra =>
    [UInt8.ofNat (position.val % 256), UInt8.ofNat (position.val / 256 * 16 + extra.val)]

/-- The copy with these two bytes. -/
def ofBytes (low high : UInt8) : Token :=
  .copy (place (high.toNat / 16 * 256 + low.toNat)) (nibble high.toNat)

/-- The flags of a group. -/
def flags : List Token → Nat
  | [] => 0
  | token :: rest => (if token.isLiteral then 1 else 0) + 2 * flags rest

/-- Tokens in one group. -/
def groupSize : Nat := 8

/-- The bytes of a sequence of tokens. -/
def pack (tokens : List Token) : List UInt8 :=
  match tokens with
  | [] => []
  | token :: rest =>
    let group := token :: rest.take 7
    UInt8.ofNat (flags group) :: (group.flatMap bytes ++ pack (rest.drop 7))
termination_by tokens.length
decreasing_by
  rw [List.length_drop, List.length_cons]
  omega

/-- The complete tokens of a stream, after those in `done`, when `left` more tokens of the group
with these flags may come. An incomplete token at the end is left out. -/
def unpackFrom (left flags : Nat) (done : Array Token) : List UInt8 → Array Token
  | [] => done
  | byte :: rest =>
    if left = 0 then unpackFrom groupSize byte.toNat done rest
    else if flags % 2 = 1 then
      unpackFrom (left - 1) (flags / 2) (done.push (.literal byte)) rest
    else
      match rest with
      | [] => done
      | high :: rest => unpackFrom (left - 1) (flags / 2) (done.push (ofBytes byte high)) rest

/-- The complete tokens of a stream. -/
def unpack (stream : List UInt8) : Array Token :=
  unpackFrom 0 0 #[] stream

end Token

end ScriptRecord.Lzss
