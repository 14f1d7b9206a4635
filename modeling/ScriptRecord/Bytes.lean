/-!
# Byte strings

Payloads, files and record streams are arrays of bytes. A run of bytes can be taken out of one
(`slice?`) or laid over one in place (`overwrite`).
-/

namespace ScriptRecord

/-- A finite string of bytes. -/
abbrev Bytes := Array UInt8

namespace Bytes

/-- The `len` bytes at `pos`, if all of them are present. -/
def slice? (data : Bytes) (pos len : Nat) : Option Bytes :=
  if pos + len ≤ data.size then some (data.extract pos (pos + len)) else none

/-- Lay `bytes` over `data` from `pos` on. Bytes that would fall outside are dropped, so the
size never changes. -/
def overwrite (data : Bytes) (pos : Nat) : List UInt8 → Bytes
  | [] => data
  | b :: rest => overwrite (data.setIfInBounds pos b) (pos + 1) rest

@[simp] theorem size_overwrite (data : Bytes) (pos : Nat) (bytes : List UInt8) :
    (overwrite data pos bytes).size = data.size := by
  induction bytes generalizing data pos with
  | nil => rfl
  | cons b rest ih => simp [overwrite, ih]

/-- The first position from `pos` on whose byte satisfies `p`. If there is none, the end of the
data or `pos` itself, whichever is later. -/
def seek (data : Bytes) (p : UInt8 → Bool) (pos : Nat) : Nat :=
  if h : pos < data.size then
    if p data[pos] then pos else seek data p (pos + 1)
  else pos
termination_by data.size - pos

end Bytes

end ScriptRecord
