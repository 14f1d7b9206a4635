import ScriptRecord.Lzss.Token
/-!
# Matches

The longest earlier occurrence of the bytes from a position on. The source may overlap what it is
compared with, and of two equally long occurrences the nearer counts.
-/

namespace ScriptRecord.Lzss

/-- An earlier occurrence: how far back it starts and how many bytes agree. -/
structure Match where
  distance : Nat
  length : Nat
  deriving DecidableEq, Repr

/-- Number of bytes, at most `limit`, that agree from `i` and from `j` on. -/
def commonLength (data : Bytes) (i j : Nat) : Nat → Nat
  | 0 => 0
  | limit + 1 =>
    if data.getD i 0 = data.getD j 0 then commonLength data (i + 1) (j + 1) limit + 1 else 0

/-- The best match among the `count` distances from `distance` on, if it is longer than `best`. -/
def searchFrom (data : Bytes) (pos limit distance : Nat) (best : Match) : Nat → Match
  | 0 => best
  | count + 1 =>
    let length := commonLength data (pos - distance) pos limit
    if best.length < length then
      if length = limit then ⟨distance, length⟩
      else searchFrom data pos limit (distance + 1) ⟨distance, length⟩ count
    else searchFrom data pos limit (distance + 1) best count

/-- The match to copy at a position, if one is long enough. -/
def findMatch? (data : Bytes) (pos : Nat) : Option Match :=
  let limit := min maxMatch (data.size - pos)
  let found := searchFrom data pos limit 1 ⟨0, 0⟩ (min pos maxDistance)
  if minMatch ≤ found.length then some found else none

/-- The token at a position and the number of bytes it stands for. -/
def tokenAt (data : Bytes) (pos : Nat) : Token × Nat :=
  match findMatch? data pos with
  | some found =>
    (.copy (place (windowStart + pos - found.distance)) (nibble (found.length - minMatch)),
      found.length)
  | none => (.literal (data.getD pos 0), 1)

theorem tokenAt_length_pos (data : Bytes) (pos : Nat) : 0 < (tokenAt data pos).2 := by
  unfold tokenAt
  split
  · rename_i found h
    simp only [findMatch?] at h
    split at h
    · have : 0 < minMatch := by decide
      cases h
      omega
    · cases h
  · exact Nat.one_pos

/-- The tokens that stand for the data from `pos` on, after those in `done`: at each position the
longest match, or a literal. -/
def tokensFrom (data : Bytes) (pos : Nat) (done : Array Token) : Array Token :=
  if pos < data.size then
    tokensFrom data (pos + (tokenAt data pos).2) (done.push (tokenAt data pos).1)
  else done
termination_by data.size - pos
decreasing_by
  have := tokenAt_length_pos data pos
  omega

/-- The tokens that stand for some data. -/
def tokens (data : Bytes) : Array Token :=
  tokensFrom data 0 #[]

end ScriptRecord.Lzss
