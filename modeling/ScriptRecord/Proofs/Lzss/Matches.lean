import ScriptRecord.Lzss.Match
import Mathlib.Data.Nat.Basic
/-!
# What a match promises

`Repeats` is all that a copy needs to know about the match it was made from.  The
search looks only at distances within the ring and comes to the nearest one at which
most bytes agree (`searchFrom_nearest`).  It compares every byte it counts, so each match
that is found repeats the data (`repeats_of_findMatch`).
-/

namespace ScriptRecord.Proofs.Lzss.Matches

open ScriptRecord.Lzss

/-- The bytes of a match lie within the data and equal the bytes `distance` before
them.  Both numbers fit a token. -/
structure Repeats (data : Bytes) (pos : Nat) (found : Match) : Prop where
  distance_pos : 0 < found.distance
  distance_le : found.distance ≤ pos
  near : found.distance ≤ maxDistance
  long : minMatch ≤ found.length
  length_le : found.length ≤ maxMatch
  fits : pos + found.length ≤ data.size
  same : ∀ k < found.length, data.getD (pos - found.distance + k) 0 = data.getD (pos + k) 0

theorem commonLength_le (data : Bytes) (i j limit : Nat) :
    commonLength data i j limit ≤ limit := by
  induction limit generalizing i j with
  | zero => exact Nat.le_refl 0
  | succ limit ih =>
      rw [commonLength]
      split
      · exact Nat.succ_le_succ (ih (i + 1) (j + 1))
      · exact Nat.zero_le _

theorem getD_eq_of_lt_commonLength {data : Bytes} {limit i j k : Nat}
    (h : k < commonLength data i j limit) : data.getD (i + k) 0 = data.getD (j + k) 0 := by
  induction limit generalizing i j k with
  | zero => simp [commonLength] at h
  | succ limit ih =>
      rw [commonLength] at h
      split at h
      · rename_i hfirst
        cases k with
        | zero => exact hfirst
        | succ k =>
            have hrest := ih (Nat.lt_of_succ_lt_succ h)
            rw [Nat.add_right_comm, Nat.add_right_comm j] at hrest
            exact hrest
      · exact absurd h (Nat.not_lt_zero k)

theorem le_commonLength {data : Bytes} {i j limit count : Nat} (hle : count ≤ limit)
    (h : ∀ k < count, data.getD (i + k) 0 = data.getD (j + k) 0) :
    count ≤ commonLength data i j limit := by
  induction limit generalizing i j count with
  | zero => exact Nat.le_trans hle (Nat.zero_le _)
  | succ limit ih =>
      cases count with
      | zero => exact Nat.zero_le _
      | succ count =>
          have hfirst : data.getD i 0 = data.getD j 0 := h 0 (Nat.succ_pos count)
          rw [commonLength, if_pos hfirst]
          apply Nat.succ_le_succ
          apply ih (Nat.le_of_succ_le_succ hle)
          intro k hk
          have hnext := h (k + 1) (Nat.succ_lt_succ hk)
          rwa [Nat.add_right_comm i, Nat.add_right_comm j]

/-! ## The search -/

/-- Of `count` distances, the nearest at which most bytes agree. -/
structure Nearest (data : Bytes) (pos limit first count distance : Nat) : Prop where
  first_le : first ≤ distance
  lt_last : distance < first + count
  longest : ∀ other, first ≤ other → other < first + count →
    commonLength data (pos - other) pos limit ≤ commonLength data (pos - distance) pos limit
  nearest : ∀ other, first ≤ other → other < distance →
    commonLength data (pos - other) pos limit < commonLength data (pos - distance) pos limit

variable {data : Bytes} {pos limit first count : Nat}

theorem nearest_first
    (h : ∀ other, first < other → other < first + (count + 1) →
      commonLength data (pos - other) pos limit ≤ commonLength data (pos - first) pos limit) :
    Nearest data pos limit first (count + 1) first where
  first_le := Nat.le_refl first
  lt_last := by omega
  longest := by
    intro other hle hlt
    rcases Nat.eq_or_lt_of_le hle with rfl | hbehind
    · exact Nat.le_refl _
    · exact h other hbehind hlt
  nearest := by
    intro other hle hlt
    omega

theorem Nearest.cons {distance : Nat}
    (h : Nearest data pos limit (first + 1) count distance)
    (hlonger : commonLength data (pos - first) pos limit <
      commonLength data (pos - distance) pos limit) :
    Nearest data pos limit first (count + 1) distance where
  first_le := Nat.le_of_succ_le h.first_le
  lt_last := by
    have hlt := h.lt_last
    omega
  longest := by
    intro other hle hlt
    rcases Nat.eq_or_lt_of_le hle with rfl | hbehind
    · exact Nat.le_of_lt hlonger
    · exact h.longest other hbehind (by omega)
  nearest := by
    intro other hle hlt
    rcases Nat.eq_or_lt_of_le hle with rfl | hbehind
    · exact hlonger
    · exact h.nearest other hbehind hlt

/-- The search keeps what it starts with unless a distance has more. -/
theorem searchFrom_nearest (data : Bytes) (pos limit count first : Nat) (best : Match) :
    (searchFrom data pos limit first best count = best ∧ ∀ other, first ≤ other →
        other < first + count → commonLength data (pos - other) pos limit ≤ best.length) ∨
      ∃ distance, Nearest data pos limit first count distance ∧
        best.length < commonLength data (pos - distance) pos limit ∧
        searchFrom data pos limit first best count =
          ⟨distance, commonLength data (pos - distance) pos limit⟩ := by
  induction count generalizing first best with
  | zero => exact .inl ⟨rfl, fun other hle hlt => absurd hlt (by omega)⟩
  | succ count ih =>
      rw [searchFrom]
      by_cases hlonger : best.length < commonLength data (pos - first) pos limit
      · rw [if_pos hlonger]
        by_cases hfull : commonLength data (pos - first) pos limit = limit
        · -- No agreement is longer than the limit, so none is missed by stopping here.
          rw [if_pos hfull]
          refine .inr ⟨first, nearest_first fun other _ _ => ?_, hlonger, by rw [hfull]⟩
          rw [hfull]
          exact commonLength_le ..
        · rw [if_neg hfull]
          rcases ih (first + 1) ⟨first, commonLength data (pos - first) pos limit⟩ with
            ⟨hbest, hothers⟩ | ⟨distance, hnearest, hmore, heq⟩
          · refine .inr ⟨first, nearest_first fun other hlt hle => ?_, hlonger, hbest⟩
            exact hothers other hlt (by omega)
          · exact .inr ⟨distance, hnearest.cons hmore, Nat.lt_trans hlonger hmore, heq⟩
      · rw [if_neg hlonger]
        have hshort := Nat.not_lt.mp hlonger
        rcases ih (first + 1) best with ⟨hbest, hothers⟩ | ⟨distance, hnearest, hmore, heq⟩
        · refine .inl ⟨hbest, fun other hle hlt => ?_⟩
          rcases Nat.eq_or_lt_of_le hle with rfl | hbehind
          · exact hshort
          · exact hothers other hbehind (by omega)
        · exact .inr ⟨distance, hnearest.cons (Nat.lt_of_le_of_lt hshort hmore), hmore, heq⟩

theorem repeats_of_findMatch {data : Bytes} {pos : Nat} {found : Match}
    (h : findMatch? data pos = some found) : Repeats data pos found := by
  unfold findMatch? at h
  dsimp only at h
  split at h
  · rename_i hlong
    have hmin : 0 < minMatch := by decide
    injection h with hfound
    rw [hfound] at hlong
    rcases searchFrom_nearest data pos (min maxMatch (data.size - pos)) (min pos maxDistance) 1
      ⟨0, 0⟩ with ⟨hnone, -⟩ | ⟨d, hnearest, -, heq⟩
    · rw [hfound] at hnone
      rw [hnone] at hlong
      exact absurd hlong (by decide)
    · have hpos := hnearest.first_le
      have hlt := hnearest.lt_last
      rw [hfound] at heq
      subst heq
      have hle := commonLength_le data (pos - d) pos (min maxMatch (data.size - pos))
      dsimp only at hlong
      exact {
        distance_pos := hpos
        distance_le := by dsimp only; omega
        near := by dsimp only; omega
        long := hlong
        length_le := by dsimp only; omega
        fits := by dsimp only; omega
        same := fun k hk => getD_eq_of_lt_commonLength hk }
  · cases h

end ScriptRecord.Proofs.Lzss.Matches
